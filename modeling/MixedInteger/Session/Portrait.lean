import MixedInteger.Model.Basic
import MixedInteger.Engine.Solution
import MixedInteger.Engine.World
import MixedInteger.Value.Identity
import MixedInteger.Value.Look

/-!
# Sessions and how their parts look

A session holds everything that lives longer than one call: models, records, solutions and the world
of engines and files.  Values refer to them by handles, and a handle that is handed over carries the
texts of what it refers to at that time.  The fields of a record are the entries of a table, which a
caller may hold as a value too.

## What is here

* `Session`: the state.
* `Session.look`: how the parts of a session look.
* `Session.record?`, `Session.recordTable`: a record as it is now.
* `Session.refresh`, `Session.settle`: a model before it is called, and a value that is handed over.
-/

set_option autoImplicit false

namespace MixedInteger

/-- Everything that lives longer than one call. -/
structure Session (K : Type) where
  /-- The models by number. -/
  models : List (Model K)
  /-- For each record, the number of the table whose entries are its fields. -/
  records : List Nat
  /-- The tables that hold fields of records, by their numbers. -/
  tables : List (Nat × List (Value K × Value K))
  /-- The solutions by number. -/
  solutions : List (Solution K)
  /-- The next number by which a value is known again. -/
  counter : Nat
  /-- The engines and files. -/
  world : World K

variable {K : Type}

/-- The model in which names look as they do now. -/
def Model.repaint (look : Look K) (m : Model K) : Model K :=
  { m with
    name := m.name.repaint look []
    vars := m.vars.map (Value.repaintVariable look [])
    constraints := m.constraints.map (Value.repaintConstraint look [])
    rowNames := m.rowNames.map (Value.repaint look [])
    objective := m.objective.map (Value.repaintExpr look []) }

variable [Arithmetic K]

/-- The shown form of a solution with a given report. -/
def Solution.text (s : Solution K) (r : Report K) : Except Fault String := do
  let status ← (← r.read "status").display
  let objective ← (← r.read "objective").display
  return "Solution(status='" ++ status ++ "', objective=" ++ objective ++ ", n_vars=" ++
    toString s.values.length ++ ")"

/-- The texts of a record: settings have one, a report has a short and a long one. -/
def Record.portrait (r : Record K) : Portrait :=
  match r.kind with
  | .settings => .plain (Settings.text r)
  | .outcome => ⟨Report.text r, Report.summary r⟩

/-- The shown form of an engine handle. -/
def World.engineText (w : World K) (engine : Nat) : String :=
  if w.released.getD engine true then "<milpmodel.HighsSolver (freed)>"
  else "<milpmodel.HighsSolver>"

namespace Session

/-- The entries of the table of a number, if it holds fields. -/
def entries? (s : Session K) (table : Nat) : Option (List (Value K × Value K)) :=
  (s.tables.find? fun t => t.1 == table).map Prod.snd

/-- The record that a handle refers to, as it looks from within the given parts. -/
def recordWithin? (s : Session K) (look : Look K) (path : List Handle) (h : Handle) :
    Option (Record K) :=
  let ofKind := fun kind id => do
    let table ← s.records[id]?
    return ⟨kind, Value.repaintEntries look path (← s.entries? table), some table⟩
  match h with
  | .settings id => ofKind .settings id
  | .outcome id => ofKind .outcome id
  | _ => none

/-- The portrait of something that may be missing. -/
def portraitOf {α : Type} (part : Option α) (portrait : α → Portrait) : Portrait :=
  match part with
  | some a => portrait a
  | none => .plain (.error .missingProperty)

/-- How the parts of a session look, where parts within parts are looked through to a given depth.
What comes again within itself, with no list or table in between, has an endless text. -/
def lookWithin (s : Session K) : Nat → Look K
  | 0, _ => ⟨fun _ => .endless, fun _ => none⟩
  | depth + 1, path =>
    { portrait := fun h =>
        if (path.takeWhile fun part => !part.isInside).contains h then .endless
        else match h with
          | .model id => portraitOf s.models[id]? fun m => .plain (.ok m.text)
          | .solution id => portraitOf s.solutions[id]? fun x =>
            portraitOf (s.recordWithin? (s.lookWithin depth) (h :: path) x.report) fun r =>
              .plain (x.text r)
          | .engine id => .plain (.ok (s.world.engineText id))
          | h => portraitOf (s.recordWithin? (s.lookWithin depth) (h :: path) h) Record.portrait
      entries? := fun id =>
        (s.entries? id).map (Value.repaintEntries (s.lookWithin depth) (.inside id :: path)) }

/-- How the parts of a session look.  No record or solution comes twice between two lists or tables,
and no list or table comes twice at all. -/
def look (s : Session K) : Look K :=
  s.lookWithin ((s.counter + 1) * (s.records.length + s.solutions.length + 1) + 1)

/-- The texts of what a handle refers to. -/
def portrait (s : Session K) (h : Handle) : Portrait := (s.look []).portrait h

/-- The record that a handle refers to. -/
def record? (s : Session K) (h : Handle) : Option (Record K) := s.recordWithin? s.look [] h

/-- The fields of the record that a handle refers to, as a table. -/
def recordTable (s : Session K) (h : Handle) : Except Fault (Value K) :=
  match s.record? h with
  | some r =>
    match r.kind with
    | .settings => Settings.toTable r
    | .outcome => Report.toTable r
  | none => .error .missingProperty

/-- The state in which the names that a model holds look as they do now. -/
def refresh (s : Session K) (model : Nat) : Session K :=
  { s with models := s.models.modify model (Model.repaint s.look) }

/-- A value as it is handed over: handles and tables look as they do now, and all parts that need a
number have one. -/
def settle (s : Session K) (v : Value K) : Value K × Session K :=
  let (v, next) := (v.repaint s.look []).identify s.counter
  (v, { s with counter := next })

end Session

end MixedInteger
