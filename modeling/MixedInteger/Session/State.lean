import MixedInteger.Model.Call
import MixedInteger.Engine.Solve
import MixedInteger.Session.Portrait

/-!
# Steps of a session

## What is here

* `Session.start`: the state at the beginning.
* `Run`: a step of a session.
* `Run.onModel`, `Run.onWorld`: the steps of a model and of the world as steps of a session.
* `Run.addModel` and its kin: new things and their handles.
-/

set_option autoImplicit false

namespace MixedInteger

/-- A step of a session, which may fail. -/
abbrev Run (K : Type) (α : Type) := ExceptT Fault (StateM (Session K)) α

variable {K : Type} [Arithmetic K]

/-- The answers of the engine that reads texts, unless other ones are given. -/
def Reply.standard : Reply K :=
  { rejected := [], read := .ok, status := .text "kOptimal", time := .real Arithmetic.zero
    nodes := .int (-1), gap := .real Arithmetic.infinity, primal := .int 0
    objective := .real Arithmetic.zero, names := .list [], values := .list [], clearFails := false
    missing := none }

/-- The answers of the engine that takes arrays, unless other ones are given. -/
def ArrayReply.standard : ArrayReply K :=
  { status := .int 0, point := .none, objective := .none, gap := .none, nodes := .none }

/-- The state before the first call. -/
def Session.start : Session K :=
  { models := [], records := [], tables := [], solutions := [], counter := 0
    world := { reply := .standard, arrayReply := .standard, files := [], temporaries := []
               released := [], trace := [] } }

namespace Run

/-- A part of the session that a handle refers to. -/
def part {α : Type} (x : Option α) : Run K α :=
  match x with
  | some a => return a
  | none => throw .missingProperty

/-- The model of a number. -/
def model (id : Nat) : Run K (Model K) := do part (← get).models[id]?

/-- The record that a handle refers to. -/
def record (h : Handle) : Run K (Record K) := do part ((← get).record? h)

/-- The solution of a number. -/
def solution (id : Nat) : Run K (Solution K) := do
  let s ← get
  let x ← part s.solutions[id]?
  return { x with values := Value.repaintEntries s.look [] x.values }

/-- A building step on the model of a number. -/
def onModel {α : Type} (id : Nat) (step : Build K α) : Run K α := do
  let m ← model id
  let (result, m') := (ExceptT.run step).run m
  modify fun s => { s with models := s.models.set id m' }
  liftM result

/-- A step around the engines. -/
def onWorld {α : Type} (step : Ask K α) : Run K α := do
  let (result, w) := (ExceptT.run step).run (← get).world
  modify fun s => { s with world := w }
  liftM result

/-- A value as it is handed over. -/
def settle (v : Value K) : Run K (Value K) := modifyGet fun s => s.settle v

/-- A handle as it is handed over. -/
def handleTo (h : Handle) : Run K (Value K) := do return .handle h ((← get).portrait h)

/-- A new model. -/
def addModel (name : Value K) : Run K (Value K) := do
  let id := (← get).models.length
  modify fun s => { s with models := s.models ++ [.empty id name] }
  handleTo (.model id)

/-- Gives the model of a number a new name. -/
def rename (id : Nat) (name : Value K) : Run K Unit :=
  modify fun s => { s with models := s.models.modify id fun m => { m with name } }

/-- Keeps the fields of a record, in a new table unless they are the entries of one, and answers the
number of the table. -/
def keepFields (r : Record K) : Run K Nat := do
  let s ← get
  let (fields, next) := Value.identifyEntries s.counter r.fields
  let table := r.home.getD next
  let others := s.tables.filter fun t => t.1 != table
  set { s with counter := next + 1, tables := (table, fields) :: others }
  return table

/-- A new record after assignments. -/
def addRecord (start : Record K) (filling : Filling K Unit) : Run K (Value K) := do
  let (result, r) := (ExceptT.run filling).run start
  let table ← keepFields r
  liftM result
  let id := (← get).records.length
  modify fun s => { s with records := s.records ++ [table] }
  match r.kind with
  | .settings => handleTo (.settings id)
  | .outcome => handleTo (.outcome id)

/-- A new record of an outcome. -/
def addOutcome (o : Outcome K) : Run K (Value K) := addRecord o.toRecord (return ())

/-- Assigns a name of a record. -/
def assign (id : Nat) (r : Record K) (name : String) (v : Value K) : Run K Unit := do
  let table ← keepFields (← r.assign name v)
  modify fun s => { s with records := s.records.set id table }

/-- The name of a value that has one. -/
def nameOf (v : Value K) : Run K (Option (Value K)) := do
  match v with
  | .handle (.model id) _ => return some (← model id).name
  | .handle h _ => return ((← get).record? h).bind fun r => r.field? "name"
  | v => return v.nameOf?

/-- A new solution, which reads a report. -/
def addSolution (report : Handle) (vars : Value K) : Run K (Value K) := do
  let raw ← (← record report).read "solution"
  let values ←
    if raw.isPresent then do
      let named ← (← vars.elements).mapM fun v => do return (v, ← nameOf v)
      Solution.collect raw named
    else pure []
  let id := (← get).solutions.length
  modify fun s => { s with solutions := s.solutions ++ [⟨report, values⟩] }
  handleTo (.solution id)

/-- The status, the objective and the values by name of the solution of a number. -/
def solutionParts (id : Nat) : Run K (Value K × Value K × List (Value K × Value K)) := do
  let s ← solution id
  let r ← record s.report
  let status ← r.read "status"
  let objective ← r.read "objective"
  let values ← s.values.mapM fun e => do return (← part (← nameOf e.1), e.2)
  return (status, objective, values)

/-- The settings that an optional argument refers to, or the fault of reading something else as
settings. -/
def settingsOf (v : Value K) : Run K (Except Fault (Settings K)) := do
  match v with
  | .none => return .ok Settings.standard
  | .handle h _ =>
    match (← get).record? h with
    | some r => return .ok r
    | none => return .error .missingProperty
  | _ => return .error .missingProperty

/-- Solves a problem from its text and keeps the outcome. -/
def solveText (text format param : Value K) : Run K (Value K) := do
  addOutcome (← onWorld (Ask.solveText text format (← settingsOf param)))

/-- Solves a problem from a file and keeps the outcome. -/
def solveFile (filename param : Value K) : Run K (Value K) := do
  addOutcome (← onWorld (Ask.solveFile filename (← settingsOf param)))

/-- Solves a model and keeps the outcome and the solution. -/
def solveModel (id : Nat) (param format backend : Value K) : Run K (Value K) := do
  let m ← model id
  let o ← onWorld (Ask.solveModel m format backend (← settingsOf param))
  match ← addOutcome o with
  | .handle report _ => addSolution report (.list (m.vars.map .var))
  | _ => throw .missingProperty

/-- Solves a problem from its arrays and keeps the outcome. -/
def solveArrays (matrix rowLower rowUpper lower upper cost integrality names param : Value K) :
    Run K (Value K) := do
  let p ← ArrayProblem.ofValues matrix rowLower rowUpper lower upper cost integrality
  let names := match names with
    | .none => columnNames p.cost.length
    | v => v
  addOutcome (← onWorld (Ask.solveArrays p names (← settingsOf param)))

/-- The objective that the writers of texts take. -/
def toObjective : Value K → Except Fault (Option (LinearExpr K))
  | .none => .ok none
  | .expr e => .ok (some e)
  | _ => .error .missingProperty

/-- A constraint that the writers of texts take. -/
def toRow : Value K → Except Fault (Constraint K)
  | .constraint c _ => .ok c
  | _ => .error .missingProperty

/-- A variable that the writers of texts take. -/
def toColumn : Value K → Except Fault (Variable K)
  | .var v => .ok v
  | _ => .error .missingProperty

/-- The row-wise text of a problem given by its parts. -/
def lpTextOf (objective direction constraints vars : Value K) : Except Fault String := do
  let d ← direction.toDirection
  let e ← toObjective objective
  e.forM requireTextStart
  let cs ← (← constraints.elements).mapM toRow
  cs.forM fun c => requireTextStart c.expr
  let vs ← (← vars.elements).mapM toColumn
  (Problem.mk e d cs vs .none).lpText

/-- The column-wise text of a problem given by its parts. -/
def mpsTextOf (objective direction constraints vars name : Value K) :
    Except Fault String := do
  let title ← (Problem.mk none .minimize [] [] name).title
  let d ← direction.toDirection
  let cs ← (← constraints.elements).mapM toRow
  let columns ← vars.elements
  if columns.any fun v => !v.isKey then throw .unsupportedOperand
  let e ← toObjective objective
  (Problem.mk e d cs [] name).requireRowKeys
  let vs ← columns.mapM toColumn
  (Problem.mk e d cs vs name).mpsTextUnder title

end Run

end MixedInteger
