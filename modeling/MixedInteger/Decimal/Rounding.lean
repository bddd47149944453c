import MixedInteger.Decimal.Power

/-!
# Rounding a quotient to decimal digits

A positive number is given as a quotient `num / den` of natural numbers, and everything here is
exact arithmetic on the two.

## What is here

* `roundDiv`: the nearest integer to a quotient, a half going to the even neighbour.
* `leadingExponent`: the exponent of ten of the first digit of a quotient.
* `Decimal` and `Decimal.significant`: a quotient rounded to a given number of significant digits.
* `fixedPlaces`: a quotient rounded to a given number of places after the point.
-/

set_option autoImplicit false

namespace MixedInteger

/-- The integer nearest to `num / den`; a half goes to the even neighbour. -/
def roundDiv (num den : Nat) : Nat :=
  let q := num / den
  let twice := 2 * (num % den)
  if twice < den then q
  else if den < twice then q + 1
  else if q % 2 = 0 then q else q + 1

/-- The number of decimal digits of `n`, where zero has none. -/
def digitCount (n : Nat) : Nat :=
  if n = 0 then 0 else (Nat.toDigits 10 n).length

/-- The exponent `e` with `10 ^ e ≤ num / den < 10 ^ (e + 1)`, for positive `num` and `den`. -/
def leadingExponent (num den : Nat) : Int :=
  if den ≤ num then (digitCount (num / den) : Int) - 1
  else -((digitCount ((den + num - 1) / num - 1) : Nat) : Int)

/-- The quotient of `num * 10 ^ shift` and `den`, for a shift of either sign. -/
def scaledQuotient (num den : Nat) (shift : Int) : Nat × Nat :=
  if 0 ≤ shift then (num * tenPow shift.toNat, den) else (num, den * tenPow (-shift).toNat)

/-- A decimal number `coefficient * 10 ^ exponent`. -/
structure Decimal where
  /-- The digits, read as one natural number. -/
  coefficient : Nat
  /-- The exponent of ten of the last digit. -/
  exponent : Int
  deriving DecidableEq, Repr

namespace Decimal

/-- The digits of the coefficient, first digit first. -/
def digits (d : Decimal) : List Char := Nat.toDigits 10 d.coefficient

/-- The exponent of ten of the first digit. -/
def leading (d : Decimal) : Int := d.exponent + d.digits.length - 1

/-- Moves up to `n` zeros at the end of the coefficient into the exponent. -/
def stripUpTo : Nat → Decimal → Decimal
  | 0, d => d
  | n + 1, d =>
    if d.coefficient ≠ 0 ∧ d.coefficient % 10 = 0 then
      stripUpTo n ⟨d.coefficient / 10, d.exponent + 1⟩
    else d

/-- The same number without zeros at the end of the coefficient. -/
def strip (d : Decimal) : Decimal := stripUpTo d.digits.length d

/-- The quotient `num / den` of positive numbers rounded to `places` significant digits. -/
def significant (places num den : Nat) : Decimal :=
  let last := leadingExponent num den - (places - 1)
  let q := scaledQuotient num den (-last)
  let c := roundDiv q.1 q.2
  if c = tenPow places then ⟨tenPow (places - 1), last + 1⟩ else ⟨c, last⟩

end Decimal

/-- The quotient `num / den` in units of `10 ^ (-places)`. -/
def fixedPlaces (places num den : Nat) : Nat := roundDiv (num * tenPow places) den

end MixedInteger
