import MixedInteger.Reformulation.Logic

/-!
# Magnitude, maximum and minimum

Piecewise linear functions of expressions.  A binary variable selects the piece, and the constants
that switch off the other pieces come from the bounds of the expressions or from the caller.

## What is here

* `Extremum.magnitudeRows`, `Build.magnitude`: the magnitude of an expression.
* `Extremum.maximumRows`, `Build.maximum`: the greatest of several expressions.
* `Extremum.minimumRows`, `Build.minimum`: the least of several expressions.
* `Build.equalTo`: a variable that equals one expression.
-/

set_option autoImplicit false

namespace MixedInteger

variable {K : Type} [Arithmetic K]

open Arithmetic

/-- The variables that carry the magnitude of an expression. -/
structure MagnitudeParts (K : Type) where
  /-- The positive part. -/
  positive : Variable K
  /-- The negative part. -/
  negative : Variable K
  /-- One where the positive part may differ from zero. -/
  sign : Variable K
  /-- The magnitude. -/
  result : Variable K

namespace Extremum

open LinearExpr

/-- The expression is the positive part minus the negative part, the magnitude is their sum, and
one of the two is zero. -/
def magnitudeRows (e : LinearExpr K) (positiveMax negativeMax : K) (p : MagnitudeParts K) :
    List (Constraint K) :=
  [exactly ((e.minus (ofVariable p.positive)).plus (ofVariable p.negative)) zero,
   exactly
    (((ofVariable p.positive).plus (ofVariable p.negative)).minus (ofVariable p.result)) zero,
   atMost ((ofVariable p.positive).minus (monomial positiveMax p.sign)) zero,
   atMost ((ofVariable p.negative).plus (monomial negativeMax p.sign)) negativeMax]

/-- `t` is at least an expression, and at most it where the selector is one. -/
def maximumRows (t : Variable K) (e : LinearExpr K) (selector : Variable K) (m : K) :
    List (Constraint K) :=
  let gap := (ofVariable t).minus e
  [atLeast gap zero, atMost (gap.plus (monomial m selector)) m]

/-- `t` is at most an expression, and at least it where the selector is one. -/
def minimumRows (t : Variable K) (e : LinearExpr K) (selector : Variable K) (m : K) :
    List (Constraint K) :=
  let gap := (ofVariable t).minus e
  [atMost gap zero, atLeast (gap.minus (monomial m selector)) (-m)]

/-- The least interval that holds a list of intervals. -/
def hull (first : Interval K) (rest : List (Interval K)) : Interval K :=
  ⟨smallest first.lower (rest.map Interval.lower), largest first.upper (rest.map Interval.upper)⟩

end Extremum

/-- One operand of a maximum or minimum: an expression with its bounds. -/
structure BoundedExpr (K : Type) where
  /-- The expression. -/
  expr : LinearExpr K
  /-- Its bounds. -/
  bounds : Interval K

namespace Build

/-- A variable that is the magnitude of an expression with the given bounds. -/
def magnitude (e : LinearExpr K) (bounds : Interval K) : Build K (Variable K) := do
  let positiveMax := larger bounds.upper zero
  let negativeMax := larger (-bounds.lower) zero
  let positive ← auxiliary "abs_pos" .continuous zero positiveMax
  let negative ← auxiliary "abs_neg" .continuous zero negativeMax
  let sign ← selector "abs_sign"
  let result ← auxiliary "abs" .continuous zero (larger positiveMax negativeMax)
  discard <| registerAll
    (Extremum.magnitudeRows e positiveMax negativeMax ⟨positive, negative, sign, result⟩)
  return result

/-- A variable that equals one expression. -/
def equalTo (stem : String) (operand : BoundedExpr K) : Build K (Variable K) := do
  let t ← auxiliary stem .continuous operand.bounds.lower operand.bounds.upper
  discard <| register (exactly ((LinearExpr.ofVariable t).minus operand.expr) zero) .none
  return t

/-- The constraint that exactly one of several binary variables is one. -/
def selectOne (selectors : List (Variable K)) : Build K Unit :=
  discard <| register (exactly (LinearExpr.total selectors) one) .none

/-- A variable that is the greatest of several expressions. -/
def maximum (first : BoundedExpr K) (rest : List (BoundedExpr K)) (bigM : Option K) :
    Build K (Variable K) := do
  let operands := first :: rest
  let hull := Extremum.hull first.bounds (rest.map BoundedExpr.bounds)
  let constants := operands.map fun o => bigM.getD (hull.upper - o.bounds.lower)
  let t ← auxiliary "max" .continuous hull.lower hull.upper
  let selectors ← operands.mapM fun _ => selector "max_sel"
  selectOne selectors
  for (o, s, m) in operands.zip (selectors.zip constants) do
    discard <| registerAll (Extremum.maximumRows t o.expr s m)
  return t

/-- A variable that is the least of several expressions. -/
def minimum (first : BoundedExpr K) (rest : List (BoundedExpr K)) (bigM : Option K) :
    Build K (Variable K) := do
  let operands := first :: rest
  let hull := Extremum.hull first.bounds (rest.map BoundedExpr.bounds)
  let constants := operands.map fun o => bigM.getD (o.bounds.upper - hull.lower)
  let t ← auxiliary "min" .continuous hull.lower hull.upper
  let selectors ← operands.mapM fun _ => selector "min_sel"
  selectOne selectors
  for (o, s, m) in operands.zip (selectors.zip constants) do
    discard <| registerAll (Extremum.minimumRows t o.expr s m)
  return t

end Build

end MixedInteger
