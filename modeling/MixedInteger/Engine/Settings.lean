import MixedInteger.Engine.Record
import MixedInteger.Value.Operator
import MixedInteger.Value.Shown

/-!
# Settings of a solve

Settings are a record that holds what a caller has assigned, unchecked; the values are read only
when they are turned into options of an engine.

## What is here

* `Settings.standard`: the six fields, and their values before any assignment.
* `Settings.fill`, `Settings.ofTable`: settings described by a table.
* `Settings.textOptions`, `Settings.arrayOptions`: the options for the two engines.
* `Settings.toTable`, `Settings.text`: the fields as a table and as a text.
-/

set_option autoImplicit false

namespace MixedInteger

/-- The settings of a solve. -/
abbrev Settings (K : Type) := Record K

namespace Settings

variable {K : Type}

/-- The names of the fields. -/
def fieldNames : List String :=
  ["time_limit", "mip_rel_gap", "threads", "random_seed", "presolve", "verbose"]

/-- The settings before any assignment. -/
def standard : Settings K :=
  .ofFields .settings [("time_limit", .none), ("mip_rel_gap", .none), ("threads", .none),
    ("random_seed", .none), ("presolve", .bool true), ("verbose", .bool false)]

variable [Arithmetic K]

/-- The six fields as a table. -/
def toTable (s : Settings K) : Except Fault (Value K) := do
  s.require "to_dict"
  return .newTable (← fieldNames.mapM fun n => do return (.text n, ← s.read n))

/-- The assignments that the entries of a table stand for. -/
def fill : Value K → Filling K Unit
  | .table entries _ => Record.fill (fun s e => s.assignKnown e.1 e.2) entries
  | _ => throw .missingProperty

/-- Standard settings with the entries of a table assigned in order. -/
def ofTable (v : Value K) : Except Fault (Settings K) := standard.filled (fill v)

/-- A value under a name, unless it is absent. -/
def optional (name : String) (value : Value K) (convert : Value K → Except Fault (Value K)) :
    Except Fault (List (String × Value K)) :=
  match value with
  | .none => .ok []
  | v => do return [(name, ← convert v)]

/-- The limits that both engines take. -/
def limits (s : Settings K) : Except Fault (List (String × Value K)) := do
  let time ← optional "time_limit" (← s.read "time_limit") fun v => .real <$> v.toNumber
  let gap ← optional "mip_rel_gap" (← s.read "mip_rel_gap") fun v => .real <$> v.toNumber
  return time ++ gap

/-- The options of the engine that reads texts, in the order in which they are set. -/
def textOptions (s : Settings K) : Except Fault (List (String × Value K)) := do
  s.require "to_highs_options"
  let verbose ← (← s.read "verbose").truth
  let presolve ← (← s.read "presolve").truth
  let limits ← s.limits
  let threads ← optional "threads" (← s.read "threads") fun v => .int <$> v.toInteger
  let seed ← optional "random_seed" (← s.read "random_seed") fun v => .int <$> v.toInteger
  return [("output_flag", .bool verbose), ("presolve", .text (if presolve then "on" else "off"))] ++
    limits ++ threads ++ seed

/-- The options of the engine that takes arrays. -/
def arrayOptions (s : Settings K) : Except Fault (List (String × Value K)) := do
  s.require "to_scipy_options"
  let verbose ← (← s.read "verbose").truth
  let presolve ← (← s.read "presolve").truth
  return [("disp", .bool verbose), ("presolve", .bool presolve)] ++ (← s.limits)

/-- The text of a field. -/
def fieldText (s : Settings K) (name : String) : Except Fault String := do (← s.read name).display

/-- The shown form of settings, which leaves the seed out. -/
def text (s : Settings K) : Except Fault String := do
  let time ← s.fieldText "time_limit"
  let gap ← s.fieldText "mip_rel_gap"
  let threads ← s.fieldText "threads"
  let presolve ← s.fieldText "presolve"
  let verbose ← s.fieldText "verbose"
  return "Parameters(time_limit=" ++ time ++ ", mip_rel_gap=" ++ gap ++ ", threads=" ++ threads ++
    ", presolve=" ++ presolve ++ ", verbose=" ++ verbose ++ ")"

end Settings

/-- Options as a table. -/
def optionTable {K : Type} (options : List (String × Value K)) : Value K :=
  .newTable (options.map fun o => (.text o.1, o.2))

end MixedInteger
