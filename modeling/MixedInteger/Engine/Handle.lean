import MixedInteger.Engine.World

/-!
# Handles on a loaded engine

An engine is loaded, given options and a problem, run, and released.  After its release a handle
refuses everything but being released again.

## What is here

* `Ask.load`, `Ask.release`: the two ends of the life of an engine.
* `Ask.setOption`, `Ask.applySettings`, `Ask.parse`, `Ask.readProblem`, `Ask.run`: what can be done
  in between.
* `Ask.within`: a step with an engine of its own.
* `Ask.solveText`, `Ask.solveFile`: a problem solved from its text or file.
-/

set_option autoImplicit false

namespace MixedInteger

namespace Ask

variable {K : Type} [Arithmetic K]

/-- Records a request. -/
def record (e : Event K) : Ask K Unit := modify fun w => { w with trace := w.trace ++ [e] }

/-- Whether an engine has been released. -/
def isReleased (engine : Nat) : Ask K Bool := return (← get).released.getD engine true

/-- Fails once an engine has been released. -/
def requireLive (engine : Nat) : Ask K Unit := do
  if ← isReleased engine then throw .handleReleased

/-- Sets one option. -/
def setOption (engine : Nat) (name value : Value K) : Ask K Unit := do
  requireLive engine
  record (.option engine name value)
  if (← get).reply.rejected.any fun r => r.sameKey name then
    throw (.optionRejected (← name.display) (← value.shown))

/-- Sets the options that settings stand for. -/
def applySettings (engine : Nat) (s : Settings K) : Ask K Unit := do
  for o in ← s.textOptions do setOption engine (.text o.1) o.2

/-- Loads an engine and applies settings to it.  What was given as settings is looked at only once
the engine is there. -/
def load (given : Except Fault (Settings K)) : Ask K Nat := do
  let w ← get
  if let some reason := w.reply.missing then throw (.engineMissing reason)
  let engine := w.released.length
  set { w with released := w.released ++ [false] }
  applySettings engine (← given)
  return engine

/-- Asks an engine to give up its resources. -/
def clear (engine : Nat) : Ask K Unit := do
  record (.clear engine)
  if (← get).reply.clearFails then throw .engineFailure

/-- Releases an engine, unless it has been released before.  The engine counts as released even if
it fails to give up its resources. -/
def release (engine : Nat) : Ask K Unit := do
  if !(← isReleased engine) then
    modify fun w => { w with released := w.released.set engine true }
    try clear engine
    catch _ => return ()

/-- Lets an engine read a file with the given content. -/
def readFile (engine : Nat) (path content : String) : Ask K Unit := do
  record (.read engine path content)
  if (← get).reply.read = .error then throw (.unreadable path)

/-- The lower case of an argument that names a format. -/
def formatName : Value K → Except Fault String
  | .text s => .ok (lowerCase s)
  | _ => .error .missingProperty

/-- The path of the file through which a text of a format reaches an engine. -/
def temporaryPath (format : String) : String := "<tmp>." ++ format

/-- Lets an engine read a text of a format, by way of a file that is removed afterwards. -/
def parse (engine : Nat) (text format : Value K) : Ask K Unit := do
  requireLive engine
  let fmt ← formatName format
  if !problemFormats.contains fmt then throw (.unknownProblemFormat (quoted fmt))
  let path := temporaryPath fmt
  match text with
  | .text content =>
    modify fun w => w.makeTemporary path content
    try readFile engine path (← get).temporaryContent
    finally modify fun w => w.removeTemporary
  | _ => throw .unsupportedOperand

/-- Lets an engine read a file whose name tells the format. -/
def readProblem (engine : Nat) (filename : Value K) : Ask K Unit := do
  requireLive engine
  match filename with
  | .text name =>
    if Path.isTooLong name then throw .pathTooLong
    if !(← get).hasPath name then throw (.fileNotFound name)
    match Path.suffix? name with
    | some s =>
      let path := Path.normal name
      if problemFormats.contains (lowerCase s) then readFile engine path ((← get).content path)
      else throw (.formatNotInferred name)
    | none => throw (.formatNotInferred name)
  | _ => throw .unsupportedOperand

/-- The status that the name of an engine's status stands for. -/
def statusOfName (name : Value K) : Except Fault String :=
  if !name.isKey then .error .unsupportedOperand
  else .ok <| match name with
    | .text "kOptimal" => "optimal"
    | .text "kModelEmpty" => "optimal"
    | .text "kInfeasible" => "infeasible"
    | .text "kUnbounded" => "unbounded"
    | .text "kUnboundedOrInfeasible" => "inforunbd"
    | .text "kTimeLimit" => "timelimit"
    | .text "kIterationLimit" => "nodelimit"
    | .text "kSolutionLimit" => "sollimit"
    | _ => "unknown"

/-- Values by name, from names and values side by side; of a name that occurs twice the last value
counts. -/
def valuesByName (columns : List (Value K × Value K)) : Except Fault (Value K) :=
  Value.tableFrom (fun e => do return (e.1, .real (← e.2.toNumber))) columns

/-- The search statistics that an engine reports, if it searched. -/
def withSearch (r : Reply K) (o : Outcome K) : Except Fault (Outcome K) := do
  match r.nodes with
  | .scalar n =>
    if (Scalar.integer 0).le n then
      let nodes ← r.nodes.toInteger
      let gap ← r.gap.toNumber
      return { o with nodeCount := .int nodes, gap := .real gap }
    else return o
  | nodes => do
    discard (← nodes.compare .ge (.int 0)).truth
    throw .unsupportedOperand

/-- The point that an engine reports, if the status allows one and it is feasible. -/
def withPoint (r : Reply K) (status : String) (o : Outcome K) : Except Fault (Outcome K) := do
  if solutionStatuses.contains status then
    if ← r.primal.isEqual (.int 2) then
      let names ← r.names.elements
      let values ← r.values.elements
      let objective ← r.objective.toNumber
      let solution ← valuesByName (names.zip values)
      return { o with objective := .real objective, solution := solution }
    else return o
  else return o

/-- Runs an engine on the problem it has read. -/
def run (engine : Nat) : Ask K (Outcome K) := do
  requireLive engine
  record (.run engine)
  let r := (← get).reply
  let status ← statusOfName r.status
  let o : Outcome K := { Outcome.plain (.text status) .none .none with time := r.time }
  withPoint r status (← withSearch r o)

/-- A step with an engine of its own, which is released however the step ends. -/
def within {α : Type} (given : Except Fault (Settings K)) (step : Nat → Ask K α) : Ask K α := do
  let engine ← load given
  try step engine
  finally release engine

/-- Solves a problem from its text. -/
def solveText (text format : Value K) (given : Except Fault (Settings K)) : Ask K (Outcome K) :=
  within given fun engine => do
    parse engine text format
    run engine

/-- Solves a problem from a file. -/
def solveFile (filename : Value K) (given : Except Fault (Settings K)) : Ask K (Outcome K) :=
  within given fun engine => do
    readProblem engine filename
    run engine

end Ask

end MixedInteger
