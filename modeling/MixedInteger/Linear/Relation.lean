import MixedInteger.Number.Arithmetic

/-!
# The relation of a constraint

## What is here

* `Relation`, `Relation.flip`: the three comparisons, and how they turn around.
* `Relation.compare`: whether two numbers stand in a relation.
* `ConstraintId`: the identity of a constraint.
-/

set_option autoImplicit false

namespace MixedInteger

/-- The comparison of a constraint. -/
inductive Relation where
  /-- Less or equal. -/
  | le
  /-- Greater or equal. -/
  | ge
  /-- Equal. -/
  | eq
  deriving DecidableEq, Repr

namespace Relation

/-- The sign of the comparison. -/
def tag : Relation → String
  | le => "<="
  | ge => ">="
  | eq => "="

/-- The comparison with its sides exchanged. -/
def flip : Relation → Relation
  | le => ge
  | ge => le
  | eq => eq

/-- Whether two numbers stand in the relation. -/
def compare {K : Type} [Arithmetic K] (r : Relation) (a b : K) : Bool :=
  match r with
  | le => Arithmetic.le a b
  | ge => Arithmetic.le b a
  | eq => Arithmetic.eq a b

end Relation

/-- The identity of a constraint.  Two constraints with equal parts are still two. -/
inductive ConstraintId where
  /-- A constraint that a model has taken in, by its place there. -/
  | row (owner index : Nat)
  /-- A constraint outside of all models, by its number. -/
  | loose (number : Nat)
  deriving DecidableEq, Repr

end MixedInteger
