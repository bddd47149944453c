import MixedInteger.Engine.Settings

/-!
# Outcomes of a solve

An outcome keeps the values that an engine reported by the names of the variables.  A report is the
record of an outcome, which a caller may change.

## What is here

* `statuses`, `solutionStatuses`: the statuses, and those that may come with a solution.
* `Outcome`, `Outcome.make`: the fields, and an outcome with a checked status.
* `Outcome.toRecord`, `Report.ofTable`, `Report.toTable`: reports from outcomes and tables.
* `Report.isOptimal`, `Report.hasSolution`: what is asked of a report.
* `Report.text`, `Report.summary`: the short and the long text.
-/

set_option autoImplicit false

namespace MixedInteger

/-- Every status that a solve can report. -/
def statuses : List String :=
  ["optimal", "infeasible", "unbounded", "inforunbd", "timelimit", "nodelimit", "stallnodelimit",
   "gaplimit", "sollimit", "bestsollimit", "restartlimit", "unknown"]

/-- The statuses under which there may be a solution. -/
def solutionStatuses : List String :=
  ["optimal", "timelimit", "nodelimit", "gaplimit", "sollimit", "bestsollimit"]

/-- The outcome of a solve. -/
structure Outcome (K : Type) where
  /-- The status. -/
  status : Value K
  /-- The objective value, if there is a solution. -/
  objective : Value K
  /-- The values by name, if there is a solution. -/
  solution : Value K
  /-- The relative gap, if the engine reports one. -/
  gap : Value K
  /-- The number of nodes, if the engine reports one. -/
  nodeCount : Value K
  /-- The time in seconds. -/
  time : Value K

namespace Value

variable {K : Type} [Arithmetic K]

/-- The number of parts of a value. -/
def length : Value K → Except Fault Nat
  | sequence _ items => .ok items.length
  | table entries _ => .ok entries.length
  | text s => .ok s.length
  | expr e => .ok e.terms.length
  | _ => .error .unsupportedOperand

/-- A key and what stands under it, from a sequence of two. -/
def readPair (v : Value K) : Except Fault (Value K × Value K) := do
  match ← v.elements with
  | [k, x] => return (k, x)
  | _ => throw .malformed

/-- A new table with the entries of a table or of a sequence of pairs. -/
def toTable : Value K → Except Fault (Value K)
  | table entries _ => .ok (newTable entries)
  | v => do tableFrom readPair (← v.elements)

/-- A value as a number in a given layout. -/
def layOut (layout : K → String) : Value K → Except Fault String
  | scalar s => s.toNumber.map layout
  | text _ | domain _ | direction _ | relation _ => .error .malformed
  | _ => .error .unsupportedOperand

end Value

namespace Outcome

variable {K : Type} [Arithmetic K]

/-- An outcome without gap, node count and time. -/
def plain (status objective solution : Value K) : Outcome K :=
  { status, objective, solution
    gap := .none, nodeCount := .none, time := .real Arithmetic.zero }

/-- An outcome with one of the statuses. -/
def make (status objective solution : Value K) : Except Fault (Outcome K) := do
  if ← status.isOneOf (statuses.map .text) then return plain status objective solution
  else throw (.unknownStatus (← status.shown))

/-- The record of an outcome. -/
def toRecord (o : Outcome K) : Record K :=
  .ofFields .outcome [("status", o.status), ("objective", o.objective), ("solution", o.solution),
    ("gap", o.gap), ("node_count", o.nodeCount), ("time", o.time)]

end Outcome

/-- What a solve reports, as a record. -/
abbrev Report (K : Type) := Record K

namespace Report

variable {K : Type} [Arithmetic K]

/-- The report with one entry of a table assigned; the status stays. -/
def assignEntry (r : Report K) (e : Value K × Value K) : Except Fault (Report K) := do
  if (← e.1.isEqual (.text "solution")) && e.2.isPresent then
    return r.setField "solution" (← e.2.toTable)
  else if ← e.1.isEqual (.text "status") then return r
  else r.assignKnown e.1 e.2

/-- A report of the status in a table, before its other entries are assigned. -/
def start : Value K → Except Fault (Report K)
  | .table entries _ => do
    let status := (Value.lookup? (.text "status") entries).getD (.text "unknown")
    return (← Outcome.make status .none .none).toRecord
  | _ => .error .missingProperty

/-- The assignments that the entries of a table stand for. -/
def fill : Value K → Filling K Unit
  | .table entries _ => Record.fill assignEntry entries
  | _ => throw .missingProperty

/-- The report that a table describes. -/
def ofTable (v : Value K) : Except Fault (Report K) := do (← start v).filled (fill v)

/-- The six fields as a table. -/
def toTable (r : Report K) : Except Fault (Value K) := do
  r.require "to_dict"
  let status ← r.read "status"
  let objective ← r.read "objective"
  let raw ← r.read "solution"
  let solution ← if raw.isPresent then raw.toTable else pure .none
  let gap ← r.read "gap"
  let nodes ← r.read "node_count"
  let time ← r.read "time"
  return .newTable [(.text "status", status), (.text "objective", objective),
    (.text "solution", solution), (.text "gap", gap), (.text "node_count", nodes),
    (.text "time", time)]

/-- Whether the status is that of an optimal solution. -/
def isOptimal (r : Report K) : Except Fault Bool := do
  r.require "is_optimal"
  (← r.read "status").isEqual (.text "optimal")

/-- Whether there is a solution. -/
def hasSolution (r : Report K) : Except Fault Bool := do
  r.require "has_solution"
  return (← r.read "solution").isPresent

/-- The shown form of a report. -/
def text (r : Report K) : Except Fault String := do
  let solution ← r.read "solution"
  let count ← if solution.isPresent then solution.length else pure 0
  let status ← (← r.read "status").display
  let objective ← (← r.read "objective").display
  let time ← (← r.read "time").layOut Arithmetic.fixed
  return "SolveResult(status='" ++ status ++ "', objective=" ++ objective ++ ", time=" ++ time ++
    "s, n_vars=" ++ toString count ++ ")"

/-- A line of the long text: a label padded to one width, and what it labels. -/
def labelled (label content : String) : String :=
  label ++ String.ofList (List.replicate (17 - label.length) ' ') ++ content

/-- The line of a value that may be absent. -/
def optionalLine (label : String) (value : Value K) (write : Value K → Except Fault String) :
    Except Fault (List String) := do
  if value.isPresent then return [labelled label (← write value)] else return []

/-- The long text of a report. -/
def summary (r : Report K) : Except Fault String := do
  let status ← (← r.read "status").display
  let objective ← optionalLine "Objective:" (← r.read "objective") fun v =>
    v.layOut Arithmetic.scientific
  let gap ← optionalLine "Gap:" (← r.read "gap") fun v => v.layOut Arithmetic.scientific
  let nodes ← optionalLine "Nodes:" (← r.read "node_count") Value.display
  let time ← (← r.read "time").layOut Arithmetic.fixed
  let count ← optionalLine "Variables:" (← r.read "solution") fun v =>
    return toString (← v.length)
  return String.intercalate "\n" (
    ["Solve Results", String.ofList (List.replicate 50 '='), labelled "Status:" status] ++
    objective ++ gap ++ nodes ++ [labelled "Time:" (time ++ " seconds")] ++ count)

end Report

end MixedInteger
