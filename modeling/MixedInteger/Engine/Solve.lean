import MixedInteger.Engine.Arrays
import MixedInteger.Engine.Solution
import MixedInteger.Document.LpFile
import MixedInteger.Document.MpsFile

/-!
# Solving a model

A model reaches one engine as text and the other one as arrays.  The arrays describe a problem to
be minimized without a constant, so the objective value has to be turned back into that of the
model.

## What is here

* `Model.textIn`: the text of a model in a named format.
* `Model.objectiveFromArrays`: the objective of the model from that of its arrays.
* `Ask.solveModelText`, `Ask.solveModelArrays`: the two ways to solve a model.
* `Ask.solveModel`: the choice between them.
-/

set_option autoImplicit false

namespace MixedInteger

variable {K : Type} [Arithmetic K]

open Arithmetic

namespace Model

/-- The text of a model in the format that an argument names, in any case of letters. -/
def textIn (m : Model K) (format : Value K) : Except Fault String := do
  let fmt ← Ask.formatName format
  if fmt = "lp" then m.problem.lpText
  else if fmt = "mps" then m.problem.mpsText
  else throw (.unknownModelFormat (quoted fmt))

/-- The objective value of a model from the value that its arrays have. -/
def objectiveFromArrays (m : Model K) (s : StandardForm K) (x : K) : K :=
  match m.direction with
  | .maximize => -(x + s.offset)
  | .minimize => x + s.offset

/-- The outcome of a model from the outcome of its arrays. -/
def outcomeFromArrays (m : Model K) (s : StandardForm K) (o : Outcome K) : Outcome K :=
  match o.objective with
  | .scalar (.real x _) => { o with objective := .real (m.objectiveFromArrays s x) }
  | _ => o

end Model

namespace Ask

/-- Solves a model by way of its text. -/
def solveModelText (m : Model K) (format : Value K) (given : Except Fault (Settings K)) :
    Ask K (Outcome K) := do
  let text ← m.textIn format
  solveText (.text text) format given

/-- Solves a model by way of its arrays. -/
def solveModelArrays (m : Model K) (given : Except Fault (Settings K)) : Ask K (Outcome K) := do
  let form ← m.standardForm
  let names := Value.list m.variableNames
  return m.outcomeFromArrays form (← solveArrays (.ofStandardForm form) names given)

/-- Solves a model with the engine that an argument names. -/
def solveModel (m : Model K) (format backend : Value K) (given : Except Fault (Settings K)) :
    Ask K (Outcome K) := do
  if ← backend.isEqual (.text "highs") then solveModelText m format given
  else if ← backend.isEqual (.text "scipy") then solveModelArrays m given
  else throw (.unknownBackend (← backend.shown))

end Ask

end MixedInteger
