import MixedInteger.Decimal.Shortest
import MixedInteger.Decimal.Layout

/-!
# Double-precision numbers

A double is decoded into a sign, a mantissa and an exponent of two, and all exact questions about
it (which integer is it, how does it compare with an integer, what are its digits) are answered on
those.

## What is here

* `Binary64` and `Binary64.ofFloat`: the decoded form.
* `Binary64.compareInt`, `Binary64.truncate`, `Binary64.floor`: exact integer questions.
* `Binary64.text`: the fewest digits that read back.
* `Binary64.compact`: at most fifteen significant digits.
* `Binary64.scientific`, `Binary64.fixed`: six places with an exponent, three places without.
-/

set_option autoImplicit false

namespace MixedInteger

/-- A double: not a number, an infinity, or `±mantissa * 2 ^ exponent`. -/
inductive Binary64 where
  /-- Not a number. -/
  | nan
  /-- An infinity. -/
  | infinite (negative : Bool)
  /-- A finite number; zero keeps its sign. -/
  | finite (negative : Bool) (mantissa : Nat) (exponent : Int)
  deriving DecidableEq, Repr

namespace Binary64

/-- Decodes the sixty-four bits of a double. -/
def ofBits (bits : Nat) : Binary64 :=
  let negative := decide (twoPow 63 ≤ bits)
  let biased := bits / twoPow 52 % twoPow 11
  let fraction := bits % twoPow 52
  if biased = 2047 then
    if fraction = 0 then infinite negative else nan
  else if biased = 0 then finite negative fraction (-1074)
  else finite negative (twoPow 52 + fraction) (Int.ofNat biased - 1075)

/-- The decoded form of a double. -/
def ofFloat (x : Float) : Binary64 := ofBits x.toBits.toNat

/-- The mantissa with its sign. -/
def signed (negative : Bool) (mantissa : Nat) : Int := if negative then -mantissa else mantissa

/-- How a double compares with an integer, exactly; not a number compares with nothing. -/
def compareInt (x : Binary64) (n : Int) : Option Ordering :=
  match x with
  | nan => none
  | infinite negative => some (if negative then .lt else .gt)
  | finite negative m q =>
    if 0 ≤ q then some (compare (signed negative m * twoPow q.toNat) n)
    else some (compare (signed negative m) (n * twoPow (-q).toNat))

/-- Whether the double is an integer. -/
def isInteger : Binary64 → Bool
  | finite _ m q => decide (0 ≤ q) || m % twoPow (-q).toNat = 0
  | _ => false

/-- The integer part of a finite double, towards zero. -/
def truncate : Binary64 → Option Int
  | finite negative m q =>
    if 0 ≤ q then some (signed negative m * twoPow q.toNat)
    else some (signed negative (m / twoPow (-q).toNat))
  | _ => none

/-- The greatest integer not above a finite double. -/
def floor : Binary64 → Option Int
  | finite negative m q =>
    if 0 ≤ q then some (signed negative m * twoPow q.toNat)
    else some (Int.fdiv (signed negative m) (twoPow (-q).toNat))
  | _ => none

/-- The numerator and denominator of `m * 2 ^ q`. -/
def quotient (m : Nat) (q : Int) : Nat × Nat :=
  if 0 ≤ q then (m * twoPow q.toNat, 1) else (m, twoPow (-q).toNat)

/-- The text of a double, given how a positive quotient of a finite one is written. -/
def render (zero : List Char) (positive : Nat → Int → List Char) : Binary64 → List Char
  | nan => ['n', 'a', 'n']
  | infinite negative => (if negative then ['-'] else []) ++ ['i', 'n', 'f']
  | finite negative m q =>
    (if negative then ['-'] else []) ++ (if m = 0 then zero else positive m q)

/-- Shortest texts write exponents from `-4` to `15` positionally and show the point of an
integer. -/
def shortestLayout : Layout := ⟨-4, 16, true⟩

/-- Compact texts write exponents from `-4` to `14` positionally and integers without a point. -/
def compactLayout : Layout := ⟨-4, 15, false⟩

/-- Scientific texts are never positional. -/
def scientificLayout : Layout := ⟨0, 0, false⟩

/-- The shortest text that reads back as the double. -/
def text (x : Binary64) : List Char :=
  x.render ['0', '.', '0'] fun m q =>
    shortestLayout.write (shortest 17 (Rounds.ofBinary 53 (-1074) m q))

/-- The double rounded to fifteen significant digits, without zeros at the end. -/
def compact (x : Binary64) : List Char :=
  x.render ['0'] fun m q =>
    let r := quotient m q
    compactLayout.write (Decimal.significant 15 r.1 r.2).strip

/-- The double with six places after the first digit and an exponent. -/
def scientific (x : Binary64) : List Char :=
  x.render (Layout.writeScientific (List.replicate 7 '0') 0) fun m q =>
    let r := quotient m q
    scientificLayout.write (Decimal.significant 7 r.1 r.2)

/-- The double with three places and no exponent. -/
def fixed (x : Binary64) : List Char :=
  x.render (writeFixed 3 0) fun m q =>
    let r := quotient m q
    writeFixed 3 (fixedPlaces 3 r.1 r.2)

end Binary64

end MixedInteger
