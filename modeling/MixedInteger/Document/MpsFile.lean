import MixedInteger.Document.Problem

/-!
# The column-wise text of a model

A text that lists, variable by variable, the rows in which the variable occurs.  Continuous
variables come first, then the integer ones between two markers.  A variable that occurs nowhere is
not written at all.

## What is here

* `MpsFile`: the records of such a text.
* `Problem.columnEntries`: the coefficients of one variable, row by row.
* `MpsFile.ofProblem`: the records that describe a problem.
* `MpsFile.text`: the text.
-/

set_option autoImplicit false

namespace MixedInteger

/-- A coefficient of a column. -/
structure MpsEntry (K : Type) where
  /-- The name of the variable. -/
  column : String
  /-- The name of the row. -/
  row : String
  /-- The coefficient. -/
  value : K
  deriving DecidableEq, Repr

/-- A bound of a column. -/
inductive MpsBound (K : Type) where
  /-- Zero and one. -/
  | binary (name : String)
  /-- No bounds. -/
  | free (name : String)
  /-- One value. -/
  | fixed (name : String) (value : K)
  /-- No lower bound. -/
  | unboundedBelow (name : String)
  /-- A lower bound. -/
  | lower (name : String) (value : K)
  /-- No upper bound. -/
  | unboundedAbove (name : String)
  /-- An upper bound. -/
  | upper (name : String) (value : K)
  deriving DecidableEq, Repr

/-- The records of a column-wise text. -/
structure MpsFile (K : Type) where
  /-- The name of the problem. -/
  name : String
  /-- The direction. -/
  direction : Direction
  /-- The rows with their comparisons. -/
  rows : List (Relation × String)
  /-- The coefficients of the continuous columns. -/
  continuous : List (MpsEntry K)
  /-- The coefficients of the integer columns. -/
  integer : List (MpsEntry K)
  /-- The right-hand sides that are not zero; that of the objective is its constant negated. -/
  rhs : List (String × K)
  /-- The bounds. -/
  bounds : List (MpsBound K)
  deriving DecidableEq, Repr

variable {K : Type} [Arithmetic K]

open Arithmetic

/-- The name of the objective row. -/
def objectiveRow : String := "obj"

/-- Adds a number to the entry under a row name; a new name comes last, with the number added to
zero. -/
def addEntry (row : Value K) (c : K) : List (Value K × K) → List (Value K × K)
  | [] => [(row, zero + c)]
  | e :: rest => if e.1.sameKey row then (e.1, e.2 + c) :: rest else e :: addEntry row c rest

namespace Problem

/-- The expressions of a problem with the names of their rows, the objective first. -/
def namedExprs (p : Problem K) : List (Value K × LinearExpr K) :=
  (p.objective.toList.map fun e => (.text objectiveRow, e)) ++ p.rows.map fun r => (r.1, r.2.expr)

/-- The coefficients of one variable by row name, in the order of the rows. -/
def columnEntries (p : Problem K) (v : Variable K) : List (Value K × K) :=
  p.namedExprs.foldl (fun acc row =>
    (row.2.terms.filter fun t => t.1.id = v.id).foldl (fun acc t => addEntry row.1 t.2 acc) acc) []

/-- The coefficients of one variable that are not zero. -/
def nonzeroEntries (p : Problem K) (v : Variable K) : List (Value K × K) :=
  (p.columnEntries v).filter fun e => !eq e.2 zero

/-- The records of one column. -/
def columnRecords (p : Problem K) (v : Variable K) : List (MpsEntry K) :=
  (p.nonzeroEntries v).map fun e => ⟨v.name.label, e.1.label, e.2⟩

end Problem

namespace MpsBound

/-- The bounds of a variable as records. -/
def ofVariable (v : Variable K) : List (MpsBound K) :=
  if v.domain = .binary then [binary v.name.label]
  else if eq v.lower negInfinity && eq v.upper infinity then [free v.name.label]
  else if eq v.lower v.upper then [fixed v.name.label v.lower]
  else
    (if eq v.lower negInfinity then [unboundedBelow v.name.label]
      else if eq v.lower zero then [] else [lower v.name.label v.lower]) ++
    (if eq v.upper infinity then [unboundedAbove v.name.label] else [upper v.name.label v.upper])

/-- The line of a bound. -/
def line : MpsBound K → String
  | binary name => s!" BV bnd  {name}"
  | free name => s!" FR bnd  {name}"
  | fixed name x => s!" FX bnd  {name}  {numberText x}"
  | unboundedBelow name => s!" MI bnd  {name}"
  | lower name x => s!" LO bnd  {name}  {numberText x}"
  | unboundedAbove name => s!" PL bnd  {name}"
  | upper name x => s!" UP bnd  {name}  {numberText x}"

end MpsBound

/-- The line of a coefficient. -/
def MpsEntry.line (e : MpsEntry K) : String :=
  s!"    {e.column}  {e.row}  {numberText e.value}"

/-- The letter of a comparison. -/
def Relation.letter : Relation → String
  | .le => "L"
  | .ge => "G"
  | .eq => "E"

namespace MpsFile

/-- The records that describe a problem under a title. -/
def ofProblem (title : String) (p : Problem K) : MpsFile K :=
  let objectiveRhs := match p.objective with
    | some e => if eq e.constant zero then [] else [(objectiveRow, -e.constant)]
    | none => []
  { name := title
    direction := p.direction
    rows := p.rows.map fun r => (r.2.relation, r.1.label)
    continuous := (p.vars.filter fun v => v.domain = .continuous).flatMap p.columnRecords
    integer := (p.vars.filter fun v => v.domain ≠ .continuous).flatMap p.columnRecords
    rhs := objectiveRhs ++
      (p.rows.map fun r => (r.1.label, r.2.offset)).filter fun r => !eq r.2 zero
    bounds := (p.vars.filter fun v => !(p.nonzeroEntries v).isEmpty).flatMap
      MpsBound.ofVariable }

/-- The integer columns between their markers, if there are any. -/
def integerLines : List String → List String
  | [] => []
  | lines => "    MARKER    'MARKER'  'INTORG'" :: lines ++ ["    MARKER    'MARKER'  'INTEND'"]

/-- The lines of the text. -/
def lines (f : MpsFile K) : List String :=
  [s!"NAME          {f.name}"] ++
  (match f.direction with
    | .maximize => ["OBJSENSE", " MAX"]
    | .minimize => []) ++
  ["ROWS", s!" N  {objectiveRow}"] ++
  (f.rows.map fun r => s!" {r.1.letter}  {r.2}") ++
  ["COLUMNS"] ++
  f.continuous.map MpsEntry.line ++
  integerLines (f.integer.map MpsEntry.line) ++
  ["RHS"] ++
  (f.rhs.map fun r => s!"    rhs  {r.1}  {numberText r.2}") ++
  (match f.bounds with
    | [] => []
    | bs => "BOUNDS" :: bs.map MpsBound.line) ++
  ["ENDATA"]

/-- The text. -/
def text (f : MpsFile K) : String := linesText f.lines

end MpsFile

namespace Problem

/-- The name under which a problem is written. -/
def title (p : Problem K) : Except Fault String := do
  if ← p.name.truth then p.name.display else return "problem"

/-- Fails if a row with a term has a name under which nothing can be looked up. -/
def requireRowKeys (p : Problem K) : Except Fault Unit :=
  p.constraints.forM fun c =>
    if c.name.isKey || c.expr.isConstant then .ok () else .error .unsupportedOperand

/-- The names that the column-wise text of a problem mentions. -/
def mpsNames (p : Problem K) : List (Value K) :=
  p.rowNames ++ (p.vars.filter fun v => !(p.nonzeroEntries v).isEmpty).map Variable.name

/-- The column-wise text of a problem under a title. -/
def mpsTextUnder (title : String) (p : Problem K) : Except Fault String := do
  requireTexts p.mpsNames
  return (MpsFile.ofProblem title p).text

/-- The column-wise text of a problem. -/
def mpsText (p : Problem K) : Except Fault String := do
  let title ← p.title
  p.requireRowKeys
  p.mpsTextUnder title

end Problem

end MixedInteger
