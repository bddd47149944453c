import MixedInteger.Reformulation.Logic

/-!
# Integer division

The quotient and the remainder of an expression are integer variables that one equality ties to
it.

## What is here

* `Division`: a quotient and a remainder.
* `Build.divide`: the step that adds them.
-/

set_option autoImplicit false

namespace MixedInteger

variable {K : Type} [Arithmetic K]

open Arithmetic

/-- The results of a division. -/
structure Division (K : Type) where
  /-- The quotient. -/
  quotient : Variable K
  /-- The remainder. -/
  remainder : Variable K

/-- The dividend is the divisor times the quotient, plus the remainder. -/
def Division.row (e : LinearExpr K) (d : Int) (r : Division K) : Constraint K :=
  exactly ((e.minus (.monomial (ofInt d) r.quotient)).minus (.ofVariable r.remainder)) zero

namespace Build

/-- The quotient and the remainder of an expression by a positive integer.  The expression must
not be negative and its upper bound must be finite. -/
def divide (e : LinearExpr K) (d : Int) : Build K (Division K) := do
  let bounds := e.interval
  if lt bounds.lower zero || !Arithmetic.isFinite bounds.upper then
    throw (.dividendRange (Arithmetic.text bounds.lower) (Arithmetic.text bounds.upper))
  let quotient ← auxiliary "div" .integer zero (floor (bounds.upper / ofInt d))
  let remainder ← auxiliary "mod" .integer zero (ofInt (d - 1))
  let r : Division K := ⟨quotient, remainder⟩
  discard <| register (r.row e d) .none
  return r

end Build

end MixedInteger
