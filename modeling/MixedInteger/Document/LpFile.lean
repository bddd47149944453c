import MixedInteger.Document.Problem

/-!
# The row-wise text of a model

A text in which each constraint stands on a line of its own, as it would be written by hand, with
sections for bounds, integer variables and binary variables after them.

## What is here

* `LpFile`: the statements of such a text.
* `LpFile.ofProblem`: the statements that describe a problem.
* `LpFile.text`: the text.
-/

set_option autoImplicit false

namespace MixedInteger

/-- A signed term: a magnitude times a named variable. -/
structure LpTerm (K : Type) where
  /-- Whether the term is subtracted. -/
  negative : Bool
  /-- The magnitude of the coefficient. -/
  magnitude : K
  /-- The name of the variable. -/
  name : String
  deriving DecidableEq, Repr

/-- A signed constant. -/
structure LpConstant (K : Type) where
  /-- Whether the constant is subtracted. -/
  negative : Bool
  /-- The constant itself. -/
  value : K
  /-- Its magnitude. -/
  magnitude : K
  deriving DecidableEq, Repr

/-- A statement about the bounds of a variable. -/
inductive LpBound (K : Type) where
  /-- No bounds. -/
  | free (name : String)
  /-- One value. -/
  | fixed (name : String) (value : K)
  /-- A lower bound only. -/
  | above (name : String) (lower : K)
  /-- Two bounds. -/
  | between (name : String) (lower upper : K)
  deriving DecidableEq, Repr

/-- A named row. -/
structure LpRow (K : Type) where
  /-- The name. -/
  name : String
  /-- The terms. -/
  terms : List (LpTerm K)
  /-- The comparison. -/
  relation : Relation
  /-- The right-hand side. -/
  rhs : K
  deriving DecidableEq, Repr

/-- The statements of a row-wise text. -/
structure LpFile (K : Type) where
  /-- The direction. -/
  direction : Direction
  /-- The terms of the objective. -/
  objective : List (LpTerm K)
  /-- The constant of the objective, unless it is zero. -/
  constant : Option (LpConstant K)
  /-- The rows. -/
  rows : List (LpRow K)
  /-- The bounds. -/
  bounds : List (LpBound K)
  /-- The names of the integer variables. -/
  general : List String
  /-- The names of the binary variables. -/
  binary : List String
  deriving DecidableEq, Repr

variable {K : Type} [Arithmetic K]

open Arithmetic

namespace LpTerm

/-- A coefficient and a variable as a signed term. -/
def ofTerm (t : Variable K × K) : LpTerm K := ⟨lt t.2 zero, abs t.2, t.1.name.label⟩

/-- The terms of an expression, apart from those that are zero. -/
def ofExpr (e : LinearExpr K) : List (LpTerm K) :=
  (e.terms.filter fun t => !eq t.2 zero).map ofTerm

/-- A term without its sign; a magnitude of one is not written. -/
def body (t : LpTerm K) : String :=
  if eq t.magnitude one then t.name else numberText t.magnitude ++ " " ++ t.name

/-- A term in front of all others. -/
def leadingText (t : LpTerm K) : String := (if t.negative then "-" else "") ++ t.body

/-- A term after another one. -/
def followingText (t : LpTerm K) : String := (if t.negative then " - " else " + ") ++ t.body

/-- A sum of terms. -/
def sumText : List (LpTerm K) → String
  | [] => ""
  | t :: rest => t.leadingText ++ String.join (rest.map followingText)

end LpTerm

/-- A constant as a signed one, unless it is zero. -/
def LpConstant.ofNumber (c : K) : Option (LpConstant K) :=
  if eq c zero then none else some ⟨lt c zero, c, abs c⟩

namespace LpBound

/-- The statement that a variable needs, if its bounds are not zero and infinity. -/
def ofVariable (v : Variable K) : Option (LpBound K) :=
  if eq v.lower zero && eq v.upper infinity then none
  else if eq v.lower negInfinity && eq v.upper infinity then some (free v.name.label)
  else if eq v.lower v.upper then some (fixed v.name.label v.lower)
  else if eq v.upper infinity then some (above v.name.label v.lower)
  else some (between v.name.label v.lower v.upper)

/-- The line of a statement. -/
def line : LpBound K → String
  | free name => s!" {name} free"
  | fixed name x => s!" {name} = {numberText x}"
  | above name l => s!" {name} >= {numberText l}"
  | between name l u => s!" {numberText l} <= {name} <= {numberText u}"

end LpBound

namespace LpRow

/-- A constraint under its written name. -/
def ofConstraint (r : Value K × Constraint K) : LpRow K :=
  ⟨r.1.label, LpTerm.ofExpr r.2.expr, r.2.relation, r.2.offset⟩

/-- The line of a row; a zero stands in place of an empty sum. -/
def line (r : LpRow K) : String :=
  let sum := LpTerm.sumText r.terms
  let terms := if sum = "" then "0" else sum
  s!" {r.name}: {terms} {r.relation.tag} {numberText r.rhs}"

end LpRow

namespace LpFile

/-- The statements that describe a problem. -/
def ofProblem (p : Problem K) : LpFile K :=
  let wide := p.vars.filter fun v => v.domain ≠ .binary
  { direction := p.direction
    objective := (p.objective.map LpTerm.ofExpr).getD []
    constant := p.objective.bind fun e => LpConstant.ofNumber e.constant
    rows := p.rows.map LpRow.ofConstraint
    bounds := wide.filterMap LpBound.ofVariable
    general := (p.vars.filter fun v => v.domain = .integer).map fun v => v.name.label
    binary := (p.vars.filter fun v => v.domain = .binary).map fun v => v.name.label }

/-- The line of the objective: a sum, which may be empty, and a constant after it or in its
place. -/
def objectiveLine (f : LpFile K) : String :=
  let sum := LpTerm.sumText f.objective
  match f.constant with
  | none => if sum = "" then " obj:" else " obj: " ++ sum
  | some c =>
    if sum = "" then " obj: " ++ numberText c.value
    else " obj: " ++ sum ++ (if c.negative then " - " else " + ") ++ numberText c.magnitude

/-- A section under its heading, left out when it is empty. -/
def sectionLines (heading : String) : List String → List String
  | [] => []
  | lines => heading :: lines

/-- The lines of the text. -/
def lines (f : LpFile K) : List String :=
  [match f.direction with
    | .maximize => "Maximize"
    | .minimize => "Minimize",
   f.objectiveLine, "Subject To"] ++
  f.rows.map LpRow.line ++
  sectionLines "Bounds" (f.bounds.map LpBound.line) ++
  sectionLines "General" (f.general.map fun n => " " ++ n) ++
  sectionLines "Binary" (f.binary.map fun n => " " ++ n) ++
  ["End"]

/-- The text. -/
def text (f : LpFile K) : String := linesText f.lines

end LpFile

/-- Fails if an expression starts with a name on its own that is no text, which nothing can be
joined to. -/
def requireTextStart (e : LinearExpr K) : Except Fault Unit :=
  match e.terms.find? fun t => !eq t.2 zero with
  | none => .ok ()
  | some t =>
    if lt t.2 zero || !eq (abs t.2) one || t.1.name.text?.isSome then .ok ()
    else .error .unsupportedOperand

/-- The names that the row-wise text of a problem mentions. -/
def Problem.lpNames (p : Problem K) : List (Value K) :=
  let exprs := p.objective.toList ++ p.constraints.map Constraint.expr
  let listed := p.vars.filter fun v =>
    v.domain ≠ .continuous || (LpBound.ofVariable v).isSome
  p.rowNames ++ (exprs.flatMap LinearExpr.vars ++ listed).map Variable.name

/-- The row-wise text of a problem. -/
def Problem.lpText (p : Problem K) : Except Fault String := do
  p.objective.forM requireTextStart
  p.constraints.forM fun c => requireTextStart c.expr
  requireTexts p.lpNames
  return (LpFile.ofProblem p).text

end MixedInteger
