import MixedInteger.Reformulation.Logic

/-!
# Constraints that a binary variable switches

A constraint is switched off by moving its right-hand side out of reach.  How far is the constant
of the row, derived from the bounds of the expression or given by the caller.

## What is here

* `Constraint.halves`: the one-sided halves of a constraint with their constants.
* `Constraint.switchedRows`: the halves as rows that hold for one value of a binary variable.
* `Build.indicator`, `Build.eitherOr`: the steps that add them.
-/

set_option autoImplicit false

namespace MixedInteger

variable {K : Type} [Arithmetic K]

open Arithmetic

/-- The inequalities that a relation consists of. -/
def Relation.halves : Relation → List Relation
  | .eq => [.le, .ge]
  | r => [r]

namespace Constraint

/-- The constant that switches off one half of a constraint: how far the bounds let it be
violated, and zero for a half that cannot be. -/
def relaxation (c : Constraint K) (bounds : Interval K) : Relation → K
  | .le => larger (bounds.upper - c.rhs) zero
  | _ => larger (c.rhs - bounds.lower) zero

/-- The halves of a constraint with the constants that switch them off. -/
def halves (context : String) (bigM : Option K) (c : Constraint K) :
    Except Fault (List (Relation × K)) :=
  match bigM with
  | some m => .ok (c.relation.halves.map fun r => (r, m))
  | none => do
    let bounds ← c.expr.finiteInterval context none
    return c.relation.halves.map fun r => (r, c.relaxation bounds r)

/-- One half of a constraint, holding when `delta` is one (or zero, if not `active`). -/
def switchedRow (delta : Variable K) (active : Bool) (c : Constraint K) (half : Relation × K) :
    Constraint K :=
  let move := LinearExpr.monomial half.2 delta
  match half.1, active with
  | .le, true => atMost (c.expr.plus move) (c.rhs + half.2)
  | .le, false => atMost (c.expr.minus move) c.rhs
  | _, true => atLeast (c.expr.minus move) (c.rhs - half.2)
  | _, false => atLeast (c.expr.plus move) c.rhs

/-- The rows of a switched constraint. -/
def switchedRows (delta : Variable K) (active : Bool) (c : Constraint K)
    (halves : List (Relation × K)) : List (Constraint K) :=
  halves.map (c.switchedRow delta active)

end Constraint

namespace Build

/-- Enforces a constraint whenever `delta` is one (or zero, if not `active`). -/
def indicator (delta : Variable K) (active : Bool) (c : Constraint K) (bigM : Option K) :
    Build K (List (Constraint K)) := do
  let halves ← c.halves "add_indicator" bigM
  registerAll (c.switchedRows delta active halves)

/-- Enforces one of two constraints; the answer is zero for the first and one for the second. -/
def eitherOr (c d : Constraint K) (bigM : Option K) : Build K (Variable K) := do
  let first ← c.halves "add_either_or" bigM
  let second ← d.halves "add_either_or" bigM
  let delta ← selector "either"
  discard <| registerAll (c.switchedRows delta false first)
  discard <| registerAll (d.switchedRows delta true second)
  return delta

end Build

end MixedInteger
