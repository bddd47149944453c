import MixedInteger.Linear.Expr

/-!
# Linear constraints

A constraint compares an expression with a number.  The constant of the expression stays in the
expression; only the written forms of a model move it to the other side.

## What is here

* `Constraint.withName`: a constraint under another name.
* `Constraint.offset`: the right-hand side once the constant has moved over.
* `Constraint.holds`: whether an assignment satisfies a constraint.
-/

set_option autoImplicit false

namespace MixedInteger

namespace Constraint

variable {K : Type}

/-- The constraint under a name. -/
def withName (c : Constraint K) (name : Value K) : Constraint K := { c with name }

section Arithmetic

variable [Arithmetic K]

/-- The right-hand side after the constant of the expression has moved over. -/
def offset (c : Constraint K) : K := c.rhs - c.expr.constant

/-- Whether an assignment satisfies the constraint. -/
def holds (assign : Variable K → K) (c : Constraint K) : Bool :=
  c.relation.compare (c.expr.value assign) c.rhs

end Arithmetic

end Constraint

end MixedInteger
