import MixedInteger.Reformulation.Logic
import MixedInteger.Number.Scalar

/-!
# The truth of a constraint as a variable

A binary variable is one exactly when a constraint holds.  Where the constraint fails it has to
fail by a margin.

## What is here

* `Reify.defaultMargin`: the margin that is used when the caller gives none.
* `Reify.holdsRow`, `Reify.failsRow`: the two rows of an inequality.
* `Reify.equalityRows`: the four rows of an equality, with a second binary variable that says on
  which side it fails.
* `Build.reify`: the step that adds them.
-/

set_option autoImplicit false

namespace MixedInteger

variable {K : Type} [Arithmetic K]

open Arithmetic

namespace Reify

open LinearExpr

/-- One when the expression and the right-hand side are integers, which makes the margin exact,
and a small number otherwise. -/
def defaultMargin (e : LinearExpr K) (rhs : K) : K :=
  if e.isIntegral && isInteger rhs then one else margin

/-- The expression is at most the right-hand side when `delta` is one. -/
def holdsRow (e : LinearExpr K) (rhs : K) (bounds : Interval K) (delta : Variable K) :
    Constraint K :=
  let m := bounds.upper - rhs
  atMost (e.plus (monomial m delta)) (rhs + m)

/-- The expression exceeds the right-hand side by the margin when `delta` is zero. -/
def failsRow (e : LinearExpr K) (rhs margin : K) (bounds : Interval K) (delta : Variable K) :
    Constraint K :=
  atLeast (e.minus (monomial (bounds.lower - rhs - margin) delta)) (rhs + margin)

/-- How far an expression with these bounds can be from the right-hand side. -/
def reach (rhs : K) (bounds : Interval K) : K := larger (bounds.upper - rhs) (rhs - bounds.lower)

/-- The expression equals the right-hand side when `delta` is one; when it is zero, the
expression misses it by the margin, from below when `side` is zero and from above when it is
one. -/
def equalityRows (e : LinearExpr K) (rhs margin big : K) (delta side : Variable K) :
    List (Constraint K) :=
  let k := big + margin
  [atMost (e.plus (monomial big delta)) (rhs + big),
   atLeast (e.minus (monomial big delta)) (rhs - big),
   atLeast ((e.minus (monomial k side)).plus (monomial k delta)) (rhs - big),
   atMost ((e.minus (monomial k side)).minus (monomial k delta)) (rhs - margin)]

end Reify

namespace Build

/-- The margin to use: the caller's, which may still turn out to be out of range, or else the
default. -/
def chooseMargin (e : LinearExpr K) (rhs : K) : Option (Scalar K) → Except Fault K
  | some s => s.toNumber
  | none => .ok (Reify.defaultMargin e rhs)

/-- A binary variable that is one exactly when an expression is at most a number. -/
def reifyAtMost (e : LinearExpr K) (rhs : K) (bigM : Option K) (margin : Option (Scalar K)) :
    Build K (Variable K) := do
  let bounds ← e.finiteInterval "reify" bigM
  let delta ← selector "reif"
  discard <| register (Reify.holdsRow e rhs bounds delta) .none
  let eps ← chooseMargin e rhs margin
  discard <| register (Reify.failsRow e rhs eps bounds delta) .none
  return delta

/-- A binary variable that is one exactly when an expression equals a number. -/
def reifyEquals (e : LinearExpr K) (rhs : K) (bigM : Option K) (margin : Option (Scalar K)) :
    Build K (Variable K) := do
  let bounds ← e.finiteInterval "reify" bigM
  let eps ← chooseMargin e rhs margin
  let delta ← selector "reif"
  let side ← selector "reif_side"
  discard <| registerAll (Reify.equalityRows e rhs eps (Reify.reach rhs bounds) delta side)
  return delta

/-- A binary variable that is one exactly when a constraint holds. -/
def reify (c : Constraint K) (bigM : Option K) (margin : Option (Scalar K)) :
    Build K (Variable K) :=
  match c.relation with
  | .le => reifyAtMost c.expr c.rhs bigM margin
  | .ge => reifyAtMost c.expr.negate (-c.rhs) bigM margin
  | .eq => reifyEquals c.expr c.rhs bigM margin

end Build

end MixedInteger
