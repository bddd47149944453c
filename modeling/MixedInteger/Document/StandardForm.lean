import MixedInteger.Model.Basic

/-!
# A model as arrays

A model in matrix form is always minimized: the objective of a model that is maximized changes its
sign.

## What is here

* `StandardForm`: the arrays.
* `Model.standardForm`: the arrays of a model, whose rows and objective may only mention variables
  of its own.
-/

set_option autoImplicit false

namespace MixedInteger

/-- The problem to minimize `cost * x + offset` where `A * x` lies between the row limits, `x` lies
between its bounds and the entries marked as integers are integers. -/
structure StandardForm (K : Type) where
  /-- The rows of the matrix. -/
  matrix : List (List K)
  /-- The lower limits of the rows. -/
  rowLower : List K
  /-- The upper limits of the rows. -/
  rowUpper : List K
  /-- The lower bounds. -/
  lower : List K
  /-- The upper bounds. -/
  upper : List K
  /-- The coefficients of the objective. -/
  cost : List K
  /-- Which entries are integers. -/
  integrality : List Bool
  /-- The constant of the objective. -/
  offset : K
  deriving DecidableEq, Repr

namespace Model

variable {K : Type}

/-- Whether an expression mentions variables of the model only. -/
def ownsAll (m : Model K) (e : LinearExpr K) : Bool := e.terms.all fun t => m.owns t.1

variable [Arithmetic K]

open Arithmetic

/-- The coefficients of an expression, one for each variable of the model. -/
def denseRow (m : Model K) (e : LinearExpr K) : List K := m.vars.map e.coefficient

/-- The sign that turns the objective into one to be minimized. -/
def objectiveSign (m : Model K) : K :=
  match m.direction with
  | .maximize => -one
  | .minimize => one

/-- The cost of each variable. -/
def costs (m : Model K) : List K :=
  m.vars.map fun v =>
    match m.objective.bind fun e => Terms.get? e.terms v with
    | some c => m.objectiveSign * c
    | none => zero

/-- The arrays of a model. -/
def standardForm (m : Model K) : Except Fault (StandardForm K) :=
  if m.vars.isEmpty then .error .noVariables
  else if !(m.objective.all m.ownsAll && m.constraints.all fun c => m.ownsAll c.expr) then
    .error .missingKey
  else .ok
    { matrix := m.constraints.map fun c => m.denseRow c.expr
      rowLower := m.constraints.map fun c => if c.relation = .le then negInfinity else c.offset
      rowUpper := m.constraints.map fun c => if c.relation = .ge then infinity else c.offset
      lower := m.vars.map Variable.lower
      upper := m.vars.map Variable.upper
      cost := m.costs
      integrality := m.vars.map Variable.isInteger
      offset := (m.objective.map fun e => m.objectiveSign * e.constant).getD zero }

end Model

end MixedInteger
