import MixedInteger.Document.MpsFile
import MixedInteger.Linear.Interval
import MixedInteger.Proofs.Number.Printed

/-!
# Reading the column-wise text

A reader of the column-wise text, which knows nothing of the model behind it: it takes the text
apart into sections, and each section into its lines.  What it finds in the text of a file are the
records of this file, with the numbers that are printed.

## What is here

* `MpsReading` — what a reader finds, and what this says about rows and columns.
* `MpsReading.read` — the reader.
* `MpsFile.HasWords` — files whose names can be written.
* `MpsFile.read_text` — the reader finds what has been written.
-/

set_option autoImplicit false

namespace MixedInteger

/-! ## What is found -/

/-- An entry with another number. -/
def MpsEntry.map {K L : Type} (f : K → L) (e : MpsEntry K) : MpsEntry L :=
  ⟨e.column, e.row, f e.value⟩

namespace MpsBound

variable {K L : Type}

/-- The column of a bound. -/
def name : MpsBound K → String
  | binary n | free n | fixed n _ | unboundedBelow n | lower n _ | unboundedAbove n | upper n _ => n

/-- A bound with another number. -/
def map (f : K → L) : MpsBound K → MpsBound L
  | binary n => binary n
  | free n => free n
  | fixed n x => fixed n (f x)
  | unboundedBelow n => unboundedBelow n
  | lower n x => lower n (f x)
  | unboundedAbove n => unboundedAbove n
  | upper n x => upper n (f x)

@[simp] theorem name_map (f : K → L) (b : MpsBound K) : (b.map f).name = b.name := by
  cases b <;> rfl

/-- The bounds of a column after a bound, given those before it. -/
def apply (i : Interval (Extended ℚ)) : MpsBound (Extended ℚ) → Interval (Extended ℚ)
  | binary _ => ⟨.finite 0, .finite 1⟩
  | free _ => ⟨.infinite true, .infinite false⟩
  | fixed _ x => ⟨x, x⟩
  | unboundedBelow _ => ⟨.infinite true, i.upper⟩
  | lower _ x => ⟨x, i.upper⟩
  | unboundedAbove _ => ⟨i.lower, .infinite false⟩
  | upper _ x => ⟨i.lower, x⟩

end MpsBound

/-- What a reader finds in a column-wise text. -/
structure MpsReading where
  /-- The direction. -/
  direction : Direction
  /-- The name of the objective row. -/
  objective : String
  /-- The other rows. -/
  rows : List (Relation × String)
  /-- The coefficients, and whether their column is an integer one. -/
  columns : List (MpsEntry (Extended ℚ) × Bool)
  /-- The right-hand sides. -/
  rhs : List (String × Extended ℚ)
  /-- The bounds. -/
  bounds : List (MpsBound (Extended ℚ))
  deriving DecidableEq

namespace MpsReading

/-- The columns, once for each coefficient. -/
def columnNames (r : MpsReading) : List String := r.columns.map fun e => e.1.column

/-- The coefficient of a column in a row, zero if there is none. -/
def coefficient (r : MpsReading) (column row : String) : Extended ℚ :=
  ((r.columns.filter fun e => e.1.column = column ∧ e.1.row = row).map fun e => e.1.value).sum

/-- Whether a column is an integer one. -/
def isInteger (r : MpsReading) (column : String) : Bool :=
  r.columns.any fun e => e.1.column = column && e.2

/-- The right-hand side of a row, zero if there is none. -/
def rhsOf (r : MpsReading) (row : String) : Extended ℚ :=
  ((r.rhs.filter fun e => e.1 = row).map Prod.snd).sum

/-- The constant of the objective. -/
def offset (r : MpsReading) : Extended ℚ := -r.rhsOf r.objective

/-- The bounds of a column: zero and infinity, until another bound is given. -/
def interval (r : MpsReading) (column : String) : Interval (Extended ℚ) :=
  (r.bounds.filter fun b => b.name = column).foldl MpsBound.apply ⟨.finite 0, .infinite false⟩

/-! ## The reader -/

/-- The row of a line; the objective has no comparison. -/
def readRow : List String → Option (Option Relation × String)
  | [kind, name] =>
    ([("N", none), ("L", some .le), ("G", some .ge), ("E", some .eq)].lookup kind).map (·, name)
  | _ => none

/-- The entry of a line among the columns, or the marker that the columns after it are integer ones,
or no longer are. -/
def readColumn : List String → Option (MpsEntry (Extended ℚ) ⊕ Bool)
  | [column, row, value] =>
    if row = "'MARKER'" then
      ([("'INTORG'", true), ("'INTEND'", false)].lookup value).map .inr
    else (readNumber value).map fun x => .inl ⟨column, row, x⟩
  | _ => none

/-- The entries, each with the last marker before it. -/
def mark : Bool → List (MpsEntry (Extended ℚ) ⊕ Bool) → List (MpsEntry (Extended ℚ) × Bool)
  | _, [] => []
  | integer, .inl e :: rest => (e, integer) :: mark integer rest
  | _, .inr integer :: rest => mark integer rest

/-- The right-hand side of a line. -/
def readRhs : List String → Option (String × Extended ℚ)
  | [_, row, value] => (readNumber value).map fun x => (row, x)
  | _ => none

/-- The bound of a line. -/
def readBound : List String → Option (MpsBound (Extended ℚ))
  | ["BV", _, name] => some (.binary name)
  | ["FR", _, name] => some (.free name)
  | ["MI", _, name] => some (.unboundedBelow name)
  | ["PL", _, name] => some (.unboundedAbove name)
  | ["FX", _, name, value] => (readNumber value).map (.fixed name)
  | ["LO", _, name, value] => (readNumber value).map (.lower name)
  | ["UP", _, name, value] => (readNumber value).map (.upper name)
  | _ => none

/-- What is found in the sections of a text. -/
def ofSections (ss : List Section) : Option MpsReading := do
  let rows ← (bodyOf "ROWS" ss).mapM readRow
  let objective ← rows.find? fun r => r.1 = none
  let columns ← (bodyOf "COLUMNS" ss).mapM readColumn
  let rhs ← (bodyOf "RHS" ss).mapM readRhs
  let bounds ← (bodyOf "BOUNDS" ss).mapM readBound
  some
    { direction := if bodyOf "OBJSENSE" ss = [["MAX"]] then .maximize else .minimize
      objective := objective.2
      rows := rows.filterMap fun r => r.1.map (·, r.2)
      columns := mark false columns
      rhs, bounds }

/-- **The reader.** -/
def read (text : String) : Option MpsReading := ofSections (sections text)

end MpsReading

variable {K : Type} [Arithmetic K]

open Arithmetic

/-! ## The lines of a file -/

namespace MpsEntry

/-- The words of an entry. -/
def words (e : MpsEntry K) : List String := [e.column, e.row, numberText e.value]

end MpsEntry

/-- The words of a bound. -/
def MpsBound.words : MpsBound K → List String
  | binary n => ["BV", "bnd", n]
  | free n => ["FR", "bnd", n]
  | fixed n x => ["FX", "bnd", n, numberText x]
  | unboundedBelow n => ["MI", "bnd", n]
  | lower n x => ["LO", "bnd", n, numberText x]
  | unboundedAbove n => ["PL", "bnd", n]
  | upper n x => ["UP", "bnd", n, numberText x]

namespace MpsFile

/-- The names of a file are words, and no row is named like a marker. -/
structure HasWords (f : MpsFile K) : Prop where
  name : IsWord f.name
  rows : ∀ r ∈ f.rows, IsWord r.2
  column : ∀ e ∈ f.continuous ++ f.integer, IsWord e.column
  row : ∀ e ∈ f.continuous ++ f.integer, IsWord e.row
  noMarker : ∀ e ∈ f.continuous ++ f.integer, e.row ≠ "'MARKER'"
  rhs : ∀ r ∈ f.rhs, IsWord r.1
  bounds : ∀ b ∈ f.bounds, IsWord b.name

/-- The parts of the text. -/
def parts (f : MpsFile K) : List (String × List String) :=
  [(s!"NAME          {f.name}", [])] ++
  (match f.direction with
    | .maximize => [("OBJSENSE", [" MAX"])]
    | .minimize => []) ++
  [("ROWS", s!" N  {objectiveRow}" :: f.rows.map fun r => s!" {r.1.letter}  {r.2}"),
   ("COLUMNS", f.continuous.map MpsEntry.line ++ integerLines (f.integer.map MpsEntry.line)),
   ("RHS", f.rhs.map fun r => s!"    rhs  {r.1}  {numberText r.2}")] ++
  (match f.bounds with
    | [] => []
    | bs => [("BOUNDS", bs.map MpsBound.line)]) ++
  [("ENDATA", [])]

/-- The words of the integer columns between their markers, if there are any. -/
def integerWords : List (List String) → List (List String)
  | [] => []
  | ws => ["MARKER", "'MARKER'", "'INTORG'"] :: ws ++ [["MARKER", "'MARKER'", "'INTEND'"]]

/-- The sections of the text. -/
def sections (f : MpsFile K) : List Section :=
  [(["NAME", f.name], [])] ++
  (match f.direction with
    | .maximize => [(["OBJSENSE"], [["MAX"]])]
    | .minimize => []) ++
  [(["ROWS"], ["N", objectiveRow] :: f.rows.map fun r => [r.1.letter, r.2]),
   (["COLUMNS"], f.continuous.map MpsEntry.words ++ integerWords (f.integer.map MpsEntry.words)),
   (["RHS"], f.rhs.map fun r => ["rhs", r.1, numberText r.2])] ++
  (match f.bounds with
    | [] => []
    | bs => [(["BOUNDS"], bs.map MpsBound.words)]) ++
  [(["ENDATA"], [])]

theorem lines_eq (f : MpsFile K) : f.lines = f.parts.flatMap fun s => s.1 :: s.2 := by
  rw [lines, parts]
  cases f.direction <;> cases f.bounds <;> simp

end MpsFile

/-! ## Lines and their words -/

section Lines

variable [Printed K]

/-- A line that goes on with a number. -/
theorem IsLine.number {s : String} {ws : List String} (h : IsLine true s ws) (x : K) :
    IsLine true (s ++ "  " ++ numberText x) (ws ++ [numberText x]) := by
  have hnext := h.next isGap_spaces (isWord_numberText x)
  rwa [List.append_nil] at hnext

theorem MpsEntry.isLine {e : MpsEntry K} (hc : IsWord e.column) (hr : IsWord e.row) :
    IsLine true e.line e.words :=
  ((IsLine.of_start "    " [] (by decide) (by decide) hc).next isGap_spaces hr).number e.value

theorem MpsBound.isLine {b : MpsBound K} (h : IsWord b.name) : IsLine true b.line b.words := by
  cases b with
  | binary n => exact .of_start " BV bnd  " ["BV", "bnd"] (by decide) (by decide) h
  | free n => exact .of_start " FR bnd  " ["FR", "bnd"] (by decide) (by decide) h
  | fixed n x =>
    exact (IsLine.of_start " FX bnd  " ["FX", "bnd"] (by decide) (by decide) h).number x
  | unboundedBelow n => exact .of_start " MI bnd  " ["MI", "bnd"] (by decide) (by decide) h
  | lower n x =>
    exact (IsLine.of_start " LO bnd  " ["LO", "bnd"] (by decide) (by decide) h).number x
  | unboundedAbove n => exact .of_start " PL bnd  " ["PL", "bnd"] (by decide) (by decide) h
  | upper n x =>
    exact (IsLine.of_start " UP bnd  " ["UP", "bnd"] (by decide) (by decide) h).number x

/-- The line of a row. -/
theorem isLine_row (r : Relation × String) (h : IsWord r.2) :
    IsLine true s!" {r.1.letter}  {r.2}" [r.1.letter, r.2] := by
  obtain ⟨r, name⟩ := r
  cases r with
  | le => exact .of_start " L  " ["L"] (by decide) (by decide) h
  | ge => exact .of_start " G  " ["G"] (by decide) (by decide) h
  | eq => exact .of_start " E  " ["E"] (by decide) (by decide) h

namespace MpsFile

theorem isLine_integer {ss : List String} {ws : List (List String)}
    (h : List.Forall₂ (IsLine true) ss ws) :
    List.Forall₂ (IsLine true) (integerLines ss) (integerWords ws) := by
  have horg : IsLine true "    MARKER    'MARKER'  'INTORG'" ["MARKER", "'MARKER'", "'INTORG'"] := by
    decide
  have hend : IsLine true "    MARKER    'MARKER'  'INTEND'" ["MARKER", "'MARKER'", "'INTEND'"] := by
    decide
  cases h with
  | nil => exact .nil
  | cons h hs => exact .cons horg (List.rel_append (.cons h hs) (.cons hend .nil))

/-- **The sections of the text of a file.** -/
theorem isSection_parts {f : MpsFile K} (hf : f.HasWords) :
    List.Forall₂ IsSection f.parts f.sections := by
  have hcontinuous : List.Forall₂ (IsLine true) (f.continuous.map MpsEntry.line)
      (f.continuous.map MpsEntry.words) := forall₂_map fun e he =>
    MpsEntry.isLine (hf.column e (List.mem_append_left _ he)) (hf.row e (List.mem_append_left _ he))
  have hinteger : List.Forall₂ (IsLine true) (f.integer.map MpsEntry.line)
      (f.integer.map MpsEntry.words) := forall₂_map fun e he =>
    MpsEntry.isLine (hf.column e (List.mem_append_right _ he))
      (hf.row e (List.mem_append_right _ he))
  have hname : List.Forall₂ IsSection [(s!"NAME          {f.name}", [])] [(["NAME", f.name], [])] :=
    .cons (.of_body (.of_start "NAME          " ["NAME"] (by decide) (by decide) hf.name) .nil) .nil
  have hrows : IsSection
      ("ROWS", s!" N  {objectiveRow}" :: f.rows.map fun r => s!" {r.1.letter}  {r.2}")
      (["ROWS"], ["N", objectiveRow] :: f.rows.map fun r => [r.1.letter, r.2]) :=
    .of_body (by decide) (.cons (by decide)
      (forall₂_map fun r hr => isLine_row r (hf.rows r hr)))
  have hcolumns : IsSection
      ("COLUMNS", f.continuous.map MpsEntry.line ++ integerLines (f.integer.map MpsEntry.line))
      (["COLUMNS"],
        f.continuous.map MpsEntry.words ++ integerWords (f.integer.map MpsEntry.words)) :=
    .of_body (by decide) (List.rel_append hcontinuous (isLine_integer hinteger))
  have hrhs : IsSection ("RHS", f.rhs.map fun r => s!"    rhs  {r.1}  {numberText r.2}")
      (["RHS"], f.rhs.map fun r => ["rhs", r.1, numberText r.2]) :=
    .of_body (by decide) (forall₂_map fun r hr =>
      (IsLine.of_start "    rhs  " ["rhs"] (by decide) (by decide) (hf.rhs r hr)).number r.2)
  refine List.rel_append (List.rel_append (List.rel_append (List.rel_append hname ?_)
    (.cons hrows (.cons hcolumns (.cons hrhs .nil)))) ?_) ?_
  · cases f.direction with
    | maximize =>
      exact .cons (.of_body (by decide) (.cons (by decide) .nil)) .nil
    | minimize => exact .nil
  · have hbounds : List.Forall₂ (IsLine true) (f.bounds.map MpsBound.line)
        (f.bounds.map MpsBound.words) := forall₂_map fun b hb => MpsBound.isLine (hf.bounds b hb)
    rcases hb : f.bounds with _ | ⟨b, bs⟩
    · exact .nil
    · rw [hb] at hbounds
      exact .cons (.of_body (by decide) hbounds) .nil
  · exact .cons (.of_body (by decide) .nil) .nil

end MpsFile

end Lines

/-! ## Reading the lines -/

namespace MpsReading

theorem readRow_letter (r : Relation × String) :
    readRow [r.1.letter, r.2] = some (some r.1, r.2) := by
  obtain ⟨r, name⟩ := r
  cases r <;> rfl

variable [Printed K]

theorem readColumn_words {e : MpsEntry K} (he : e.row ≠ "'MARKER'") :
    readColumn e.words = some (.inl (e.map Printed.printed)) := by
  rw [MpsEntry.words, readColumn, if_neg he, Printed.readNumber_numberText]
  rfl

theorem readRhs_words (r : String × K) :
    readRhs ["rhs", r.1, numberText r.2] = some (r.1, Printed.printed r.2) := by
  rw [readRhs, Printed.readNumber_numberText]
  rfl

theorem readBound_words (b : MpsBound K) :
    readBound b.words = some (b.map Printed.printed) := by
  cases b <;> simp [MpsBound.words, readBound, MpsBound.map, Printed.readNumber_numberText]

omit [Arithmetic K] [Printed K] in
theorem mark_map (integer : Bool) (es : List (MpsEntry (Extended ℚ)))
    (rest : List (MpsEntry (Extended ℚ) ⊕ Bool)) :
    mark integer (es.map .inl ++ rest) = es.map (·, integer) ++ mark integer rest := by
  induction es with
  | nil => rfl
  | cons e es ih => exact congrArg ((e, integer) :: ·) ih

end MpsReading

namespace MpsFile

variable [Printed K]

/-- What a reader finds in the text of a file. -/
def reading (f : MpsFile K) : MpsReading :=
  { direction := f.direction
    objective := objectiveRow
    rows := f.rows
    columns := (f.continuous.map fun e => (e.map Printed.printed, false)) ++
      f.integer.map fun e => (e.map Printed.printed, true)
    rhs := f.rhs.map fun r => (r.1, Printed.printed r.2)
    bounds := f.bounds.map (MpsBound.map Printed.printed) }

/-- The columns are read with their markers. -/
theorem readColumns {f : MpsFile K} (hf : f.HasWords) : ∃ cs,
    (f.continuous.map MpsEntry.words ++ integerWords (f.integer.map MpsEntry.words)).mapM
      MpsReading.readColumn = some cs ∧ MpsReading.mark false cs = f.reading.columns := by
  have hread : ∀ es : List (MpsEntry K), (∀ e ∈ es, e.row ≠ "'MARKER'") →
      (es.map MpsEntry.words).mapM MpsReading.readColumn =
        some ((es.map (MpsEntry.map Printed.printed)).map .inl) := by
    intro es hes
    rw [List.map_map]
    exact mapM_map_eq_some fun e he => MpsReading.readColumn_words (hes e he)
  have hcontinuous := hread f.continuous fun e he => hf.noMarker e (List.mem_append_left _ he)
  have hinteger := hread f.integer fun e he => hf.noMarker e (List.mem_append_right _ he)
  have hcolumns : f.reading.columns =
      (f.continuous.map (MpsEntry.map Printed.printed)).map (·, false) ++
      (f.integer.map (MpsEntry.map Printed.printed)).map (·, true) := by
    rw [reading, List.map_map, List.map_map]
    rfl
  rw [hcolumns]
  rcases hi : f.integer with _ | ⟨e, es⟩
  · refine ⟨_, mapM_append_eq_some hcontinuous rfl, ?_⟩
    rw [MpsReading.mark_map]
    rfl
  · rw [hi] at hinteger
    have horg : [["MARKER", "'MARKER'", "'INTORG'"]].mapM MpsReading.readColumn =
        some [.inr true] := rfl
    have hend : [["MARKER", "'MARKER'", "'INTEND'"]].mapM MpsReading.readColumn =
        some [.inr false] := rfl
    refine ⟨_, mapM_append_eq_some hcontinuous
      (mapM_append_eq_some (mapM_append_eq_some horg hinteger) hend), ?_⟩
    rw [MpsReading.mark_map, List.singleton_append, List.cons_append, MpsReading.mark,
      MpsReading.mark_map]
    exact congrArg _ (List.append_nil _)

theorem ofSections_sections {f : MpsFile K} (hf : f.HasWords) :
    MpsReading.ofSections f.sections = some f.reading := by
  have hbodies : bodyOf "ROWS" f.sections =
        ["N", objectiveRow] :: f.rows.map (fun r => [r.1.letter, r.2]) ∧
      bodyOf "COLUMNS" f.sections =
        f.continuous.map MpsEntry.words ++ integerWords (f.integer.map MpsEntry.words) ∧
      bodyOf "RHS" f.sections = f.rhs.map (fun r => ["rhs", r.1, numberText r.2]) ∧
      bodyOf "BOUNDS" f.sections = f.bounds.map MpsBound.words ∧
      bodyOf "OBJSENSE" f.sections =
        (match f.direction with | .maximize => [["MAX"]] | .minimize => []) := by
    rw [sections]
    cases f.direction <;> cases f.bounds <;> simp [bodyOf]
  obtain ⟨hrows, hcolumns, hrhs, hbounds, hsense⟩ := hbodies
  have hreadRows : (f.rows.map fun r => [r.1.letter, r.2]).mapM MpsReading.readRow =
      some (f.rows.map fun r => (some r.1, r.2)) :=
    mapM_map_eq_some fun r _ => MpsReading.readRow_letter r
  have hreadRhs : (f.rhs.map fun r => ["rhs", r.1, numberText r.2]).mapM MpsReading.readRhs =
      some f.reading.rhs := mapM_map_eq_some fun r _ => MpsReading.readRhs_words r
  have hreadBounds : (f.bounds.map MpsBound.words).mapM MpsReading.readBound =
      some f.reading.bounds := mapM_map_eq_some fun b _ => MpsReading.readBound_words b
  obtain ⟨cs, hreadColumns, hmark⟩ := readColumns hf
  have hdirection :
      (if (match f.direction with | .maximize => [["MAX"]] | .minimize => []) = [["MAX"]]
        then Direction.maximize else .minimize) = f.direction := by
    cases f.direction <;> rfl
  have hcompared : (((none : Option Relation), objectiveRow) ::
      f.rows.map fun r => (some r.1, r.2)).filterMap (fun r => r.1.map (·, r.2)) = f.rows := by
    simp
  rw [MpsReading.ofSections, hrows, hcolumns, hrhs, hbounds, hsense, List.mapM_cons, hreadRows,
    hreadColumns, hreadRhs, hreadBounds]
  change some (MpsReading.mk _ objectiveRow (List.filterMap _ (_ :: _))
    (MpsReading.mark false cs) _ _) = _
  rw [hdirection, hcompared, hmark]
  rfl

/-- **The reader finds what has been written.** -/
theorem read_text {f : MpsFile K} (hf : f.HasWords) : MpsReading.read f.text = some f.reading := by
  rw [MpsReading.read, text, lines_eq, sections_linesText (isSection_parts hf),
    ofSections_sections hf]

end MpsFile

end MixedInteger
