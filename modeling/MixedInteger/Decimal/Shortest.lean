import MixedInteger.Decimal.Rounding

/-!
# The fewest digits that read back

A binary floating-point number stands for an interval of reals: all those that round to it.  The
shortest decimal of the number is the one with the fewest digits in that interval, and among those
the one nearest to the number.

## What is here

* `Rounds`: the interval of a number `m * 2 ^ q`, as three quotients over one denominator.
* `Rounds.contains`: whether a decimal lies in the interval.
* `shortest`: the shortest decimal.
-/

set_option autoImplicit false

namespace MixedInteger

/-- The interval of reals that round to one number: `lower / den` to `upper / den`, with the
number itself at `value / den`. -/
structure Rounds where
  /-- The number. -/
  value : Nat
  /-- The midpoint to the next smaller number. -/
  lower : Nat
  /-- The midpoint to the next larger number. -/
  upper : Nat
  /-- The common denominator. -/
  den : Nat
  /-- Whether the midpoints themselves round to the number. -/
  closed : Bool

namespace Rounds

/-- The interval of `m * 2 ^ q` in a format with `precision` bits and least exponent `least`.
Below a power of two the numbers lie twice as dense, except at the least exponent. -/
def ofBinary (precision : Nat) (least : Int) (m : Nat) (q : Int) : Rounds :=
  let dense := decide (m = twoPow (precision - 1) ∧ least < q)
  let scale := if 2 ≤ q then twoPow (q - 2).toNat else 1
  { value := 4 * m * scale
    lower := (4 * m - (if dense then 1 else 2)) * scale
    upper := (4 * m + 2) * scale
    den := if 2 ≤ q then 1 else twoPow (2 - q).toNat
    closed := m % 2 = 0 }

/-- Whether the decimal `c * 10 ^ e` rounds to the number. -/
def contains (r : Rounds) (c : Nat) (e : Int) : Bool :=
  let up := if 0 ≤ e then tenPow e.toNat else 1
  let down := if 0 ≤ e then 1 else tenPow (-e).toNat
  let x := c * up * r.den
  if r.closed then r.lower * down ≤ x && x ≤ r.upper * down
  else r.lower * down < x && x < r.upper * down

/-- The best decimal whose last digit stands at `10 ^ e`, if one rounds to the number: the nearer
of the two neighbours on that grid, an even one when both are equally near. -/
def onGrid (r : Rounds) (e : Int) : Option Decimal :=
  let q := scaledQuotient r.value r.den (-e)
  let below := q.1 / q.2
  let near := roundDiv q.1 q.2
  let far := if near = below then below + 1 else below
  if r.contains near e then some ⟨near, e⟩
  else if r.contains far e then some ⟨far, e⟩
  else none

end Rounds

/-- The shortest decimal of a number with the given interval: the grids of one digit, two digits
and so on up to `most` digits are tried in turn. -/
def shortest (most : Nat) (r : Rounds) : Decimal :=
  let lead := leadingExponent r.value r.den
  let found := (List.range most).findSome? fun (n : Nat) => r.onGrid (lead - n)
  (found.getD (Decimal.significant most r.value r.den)).strip

end MixedInteger
