/-!
# Domains of variables

A variable is known by the model that created it and its place in that model, so that two models
may each have a variable of one name.

## What is here

* `Domain`: continuous, integer or binary.
* `VariableId`: the identity of a variable.
-/

set_option autoImplicit false

namespace MixedInteger

/-- The values a variable may take between its bounds. -/
inductive Domain where
  /-- All numbers. -/
  | continuous
  /-- The integers. -/
  | integer
  /-- Zero and one. -/
  | binary
  deriving DecidableEq, Repr

/-- The name of a domain. -/
def Domain.tag : Domain → String
  | .continuous => "continuous"
  | .integer => "integer"
  | .binary => "binary"

/-- The identity of a variable. -/
structure VariableId where
  /-- The model that created the variable. -/
  owner : Nat
  /-- The place of the variable in that model. -/
  index : Nat
  deriving DecidableEq, Repr

end MixedInteger
