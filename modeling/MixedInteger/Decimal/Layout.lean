import MixedInteger.Decimal.Rounding

/-!
# How a decimal is written

Digits and an exponent become text in one of two forms: positional (`120.5`, `0.003`) or with an
exponent (`1.205e+02`).  A `Layout` says which exponents are written positionally and whether an
integer shows its point.

## What is here

* `Layout`, `Layout.write`: the record of choices and the text of a decimal under it.
* `writeFixed`: a number given in units of a power of ten below one.
-/

set_option autoImplicit false

namespace MixedInteger

/-- The choices in writing a decimal. -/
structure Layout where
  /-- The least exponent of the first digit that is written positionally. -/
  plainFrom : Int
  /-- The least exponent of the first digit that is too large to be written positionally. -/
  plainBelow : Int
  /-- Whether an integer is written with `.0` at its end. -/
  pointZero : Bool

namespace Layout

/-- An exponent with its sign and at least two digits. -/
def exponentText (e : Int) : List Char :=
  let ds := Nat.toDigits 10 e.natAbs
  (if e < 0 then '-' else '+') :: (if ds.length < 2 then '0' :: ds else ds)

/-- Digits with an exponent: the point stands after the first digit. -/
def writeScientific (ds : List Char) (lead : Int) : List Char :=
  let mantissa := match ds with
    | [] => []
    | [d] => [d]
    | d :: rest => d :: '.' :: rest
  mantissa ++ 'e' :: exponentText lead

/-- Digits without an exponent: filled up with zeros on the side of the point where they end. -/
def writePlain (pointZero : Bool) (ds : List Char) (lead : Int) : List Char :=
  let tail := if pointZero then ['.', '0'] else []
  if lead < 0 then '0' :: '.' :: (List.replicate ((-lead).toNat - 1) '0' ++ ds)
  else if ds.length ≤ lead.toNat + 1 then
    ds ++ List.replicate (lead.toNat + 1 - ds.length) '0' ++ tail
  else ds.take (lead.toNat + 1) ++ '.' :: ds.drop (lead.toNat + 1)

/-- The text of a decimal. -/
def write (layout : Layout) (d : Decimal) : List Char :=
  if layout.plainFrom ≤ d.leading ∧ d.leading < layout.plainBelow then
    writePlain layout.pointZero d.digits d.leading
  else writeScientific d.digits d.leading

end Layout

/-- The text of `units * 10 ^ (-places)` with all its places, for at least one place. -/
def writeFixed (places units : Nat) : List Char :=
  let ds := Nat.toDigits 10 units
  let padded := List.replicate (places + 1 - ds.length) '0' ++ ds
  padded.take (padded.length - places) ++ '.' :: padded.drop (padded.length - places)

end MixedInteger
