import MixedInteger.Model.Basic
import MixedInteger.Value.Reading
import MixedInteger.Value.Shown

/-!
# Problems to be written

What the written forms of a model are made from: an objective, constraints and variables.  The
variables may be fewer than those that the constraints mention.

## What is here

* `Problem`, `Model.problem`: the parts of a written model.
* `Problem.rowNames`: the names under which the constraints are written.
* `requireTexts`: names that can be written.
* `numberText`: how numbers are written.
-/

set_option autoImplicit false

namespace MixedInteger

/-- The parts of a written model. -/
structure Problem (K : Type) where
  /-- The objective, if there is one. -/
  objective : Option (LinearExpr K)
  /-- The direction of the objective. -/
  direction : Direction
  /-- The constraints, in the order in which they are written. -/
  constraints : List (Constraint K)
  /-- The variables, in the order in which they are written. -/
  vars : List (Variable K)
  /-- The name of the problem. -/
  name : Value K

variable {K : Type}

/-- The parts of a model. -/
def Model.problem (m : Model K) : Problem K :=
  ⟨m.objective, m.direction, m.constraints, m.vars, m.name⟩

/-- The names of rows: a given name stays, and the nameless rows are numbered among themselves. -/
def rowNamesFrom (next : Nat) : List (Constraint K) → List (Value K)
  | [] => []
  | c :: rest =>
    match c.name with
    | .none => .text s!"c{next}" :: rowNamesFrom (next + 1) rest
    | n => n :: rowNamesFrom next rest

/-- The names under which the constraints are written. -/
def Problem.rowNames (p : Problem K) : List (Value K) := rowNamesFrom 0 p.constraints

/-- The constraints with the names under which they are written. -/
def Problem.rows (p : Problem K) : List (Value K × Constraint K) := p.rowNames.zip p.constraints

/-- Fails if one of several names has no text. -/
def requireTexts [Arithmetic K] (names : List (Value K)) : Except Fault Unit :=
  names.forM fun n => n.display.map fun _ => ()

/-- A written number; a negative zero loses its sign. -/
def numberText [Arithmetic K] (x : K) : String := Arithmetic.compact (x + Arithmetic.zero)

/-- Lines as one text, each with its end. -/
def linesText (lines : List String) : String := String.join (lines.map fun l => l ++ "\n")

end MixedInteger
