import MixedInteger.Linear.Constraint
import MixedInteger.Value.Key

/-!
# Models

A model owns its variables and constraints, in the order in which they were made, and an
objective.  Names that a caller does not give are made from a stem and a counter; the counters only
ever move on.

## What is here

* `Model`, `Model.empty`: the state of a model.
* `Model.find?`, `Model.hasRow`: what a name stands for.
* `firstFree`: the next number whose name is not in use.
* `Model.text`: how a model is shown.
-/

set_option autoImplicit false

namespace MixedInteger

/-- A mixed-integer linear model. -/
structure Model (K : Type) where
  /-- The number of the model, which its variables carry. -/
  id : Nat
  /-- The name of the problem. -/
  name : Value K
  /-- The variables, in the order of their creation. -/
  vars : List (Variable K)
  /-- The constraints, in the order in which they were taken in. -/
  constraints : List (Constraint K)
  /-- The names of the constraints, for looking up whether a name is in use. -/
  rowNames : List (Value K)
  /-- The objective. -/
  objective : Option (LinearExpr K)
  /-- The direction of the objective. -/
  direction : Direction
  /-- The number at which the search for a variable name starts. -/
  variableCounter : Nat
  /-- The number at which the search for a constraint name starts. -/
  constraintCounter : Nat
  /-- The number at which the search for the name of an auxiliary variable starts, whatever its
  stem. -/
  auxiliaryCounter : Nat

/-- The first number from `start` on whose label is not in use.  Among one more numbers than there
are names in use there always is one. -/
def firstFree (used : List String) (label : Nat → String) (start : Nat) : Nat :=
  ((List.range' start (used.length + 1)).find? fun i => !used.contains (label i)).getD start

/-- The names that are texts. -/
def textNames {K : Type} (names : List (Value K)) : List String := names.filterMap Value.text?

namespace Model

variable {K : Type}

/-- A model without variables and constraints. -/
def empty (id : Nat) (name : Value K) : Model K :=
  { id, name
    vars := [], constraints := [], rowNames := []
    objective := none, direction := .minimize
    variableCounter := 0, constraintCounter := 0, auxiliaryCounter := 0 }

/-- The names of the variables. -/
def variableNames (m : Model K) : List (Value K) := m.vars.map Variable.name

/-- Whether a variable was created by the model. -/
def owns (m : Model K) (v : Variable K) : Bool := m.vars.any fun w => w.id = v.id

/-- The constraints with their identities. -/
def rows (m : Model K) : List (Value K) :=
  m.constraints.mapIdx fun i c => .constraint c (some (.row m.id i))

/-- The shown form of a model. -/
def text (m : Model K) : String :=
  s!"<milpmodel.Model n_vars={m.vars.length} n_cons={m.constraints.length} " ++
    s!"sense={m.direction.tag}>"

variable [Arithmetic K]

/-- The variable of a name. -/
def find? (m : Model K) (name : Value K) : Option (Variable K) :=
  m.vars.find? fun v => v.name.sameKey name

/-- Whether a constraint of a name has been taken in. -/
def hasRow (m : Model K) (name : Value K) : Bool := m.rowNames.any fun n => n.sameKey name

end Model

end MixedInteger
