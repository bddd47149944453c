import MixedInteger.Reformulation.Logic
import MixedInteger.Value.Basic

/-!
# Products with a binary factor

A binary factor gates another factor: the product is the other factor or zero.  A semi-continuous
variable is gated by a binary variable of its own.

## What is here

* `Gate.productRows`, `Build.gate`: the product of a binary variable and an expression.
* `Gate.rangeRows`: zero, or between two numbers.
-/

set_option autoImplicit false

namespace MixedInteger

variable {K : Type} [Arithmetic K]

open Arithmetic

namespace Gate

open LinearExpr

/-- `w` is between the bounds times `delta`, and differs from the factor by no more than the bounds
times `1 - delta`. -/
def productRows (w delta : Variable K) (factor : LinearExpr K) (bounds : Interval K) :
    List (Constraint K) :=
  let w := ofVariable w
  let lower := monomial bounds.lower delta
  let upper := monomial bounds.upper delta
  [atMost (w.minus upper) zero,
   atLeast (w.minus lower) zero,
   atMost ((w.minus factor).minus lower) (-bounds.lower),
   atLeast ((w.minus factor).minus upper) (-bounds.upper)]

/-- `x` is between two numbers times `delta`. -/
def rangeRows (x delta : Variable K) (lower upper : K) : List (Constraint K) :=
  [atLeast ((ofVariable x).minus (monomial lower delta)) zero,
   atMost ((ofVariable x).minus (monomial upper delta)) zero]

end Gate

namespace Build

/-- A variable that is the product of a binary variable and an expression with the given
bounds. -/
def gate (delta : Variable K) (factor : LinearExpr K) (bounds : Interval K) :
    Build K (Variable K) := do
  let w ← auxiliary "prod" .continuous (smaller bounds.lower zero) (larger bounds.upper zero)
  discard <| registerAll (Gate.productRows w delta factor bounds)
  return w

end Build

end MixedInteger
