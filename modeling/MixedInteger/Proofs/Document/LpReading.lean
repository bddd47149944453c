import MixedInteger.Linear.Interval
import MixedInteger.Proofs.Document.LpSum

/-!
# Reading the row-wise text

A reader of the row-wise text, which knows nothing of the model behind it.  What it finds in the
text of a file are the statements of this file, with the numbers that are printed and with each
constant moved to the right-hand side.

## What is here

* `LpReading` — what a reader finds, and what this says about a variable.
* `LpReading.read` — the reader.
* `LpFile.IsPlain` — files that can be written.
* `LpFile.read_text` — the reader finds what has been written.
-/

set_option autoImplicit false

namespace MixedInteger

/-! ## What is found -/

namespace LpBound

variable {K L : Type}

/-- The variable of a bound. -/
def name : LpBound K → String
  | free n | fixed n _ | above n _ | between n _ _ => n

/-- A bound with other numbers. -/
def map (f : K → L) : LpBound K → LpBound L
  | free n => free n
  | fixed n x => fixed n (f x)
  | above n l => above n (f l)
  | between n l u => between n (f l) (f u)

@[simp] theorem name_map (f : K → L) (b : LpBound K) : (b.map f).name = b.name := by
  cases b <;> rfl

/-- The bounds of a variable after a statement, given those before it. -/
def apply (i : Interval (Extended ℚ)) : LpBound (Extended ℚ) → Interval (Extended ℚ)
  | free _ => ⟨.infinite true, .infinite false⟩
  | fixed _ x => ⟨x, x⟩
  | above _ l => ⟨l, i.upper⟩
  | between _ l u => ⟨l, u⟩

end LpBound

/-- A row as a reader finds it. -/
structure LpReadRow where
  /-- The name. -/
  name : String
  /-- The coefficients and the names of the variables. -/
  terms : List (Extended ℚ × String)
  /-- The comparison. -/
  relation : Relation
  /-- The right-hand side without the constants of the left one. -/
  rhs : Extended ℚ
  deriving DecidableEq

/-- What a reader finds in a row-wise text. -/
structure LpReading where
  /-- The direction. -/
  direction : Direction
  /-- The terms of the objective. -/
  objective : List (Extended ℚ × String)
  /-- The constant of the objective. -/
  offset : Extended ℚ
  /-- The rows. -/
  rows : List LpReadRow
  /-- The bounds. -/
  bounds : List (LpBound (Extended ℚ))
  /-- The integer variables. -/
  general : List String
  /-- The binary variables. -/
  binary : List String
  deriving DecidableEq

namespace LpReading

/-- The bounds of a variable: zero and one for a binary variable, zero and infinity for another one
until a statement changes them. -/
def interval (r : LpReading) (name : String) : Interval (Extended ℚ) :=
  if name ∈ r.binary then ⟨.finite 0, .finite 1⟩
  else (r.bounds.filter fun b => b.name = name).foldl LpBound.apply ⟨.finite 0, .infinite false⟩

/-- The kind of a variable. -/
def domain (r : LpReading) (name : String) : Domain :=
  if name ∈ r.binary then .binary else if name ∈ r.general then .integer else .continuous

/-! ## The reader -/

/-- The name in front of a colon. -/
def readLabel (w : String) : Option String :=
  if w.toList.getLast? = some ':' then some (String.ofList w.toList.dropLast) else none

/-- The terms and the constant of the objective. -/
def readObjective : List String → Option (List Summand)
  | _ :: ws => readSum ws
  | [] => none

/-- The row of a line, which ends in its comparison and its right-hand side. -/
def readRow : List String → Option LpReadRow
  | [] => none
  | label :: ws =>
    match ws.reverse with
    | value :: tag :: left => do
      let name ← readLabel label
      let relation ← [("<=", .le), (">=", .ge), ("=", .eq)].lookup tag
      let sum ← readSum left.reverse
      let x ← readNumber value
      some ⟨name, termsOf sum, relation, x - constantOf sum⟩
    | _ => none

/-- The statement of a line. -/
def readBound : List String → Option (LpBound (Extended ℚ))
  | [name, "free"] => some (.free name)
  | [name, "=", x] => (readNumber x).map (.fixed name)
  | [name, ">=", l] => (readNumber l).map (.above name)
  | [l, "<=", name, "<=", u] => do
    let l ← readNumber l
    let u ← readNumber u
    some (.between name l u)
  | _ => none

/-- The name on a line. -/
def readName : List String → Option String
  | [name] => some name
  | _ => none

/-- The heading of the objective. -/
def headingOf : Direction → String
  | .maximize => "Maximize"
  | .minimize => "Minimize"

/-- What is found in the sections of a text. -/
def ofSections (ss : List Section) : Option LpReading := do
  let direction := if ss.any fun s => s.1 = ["Maximize"] then .maximize else .minimize
  let objective ← (bodyOf (headingOf direction) ss).head?
  let sum ← readObjective objective
  let rows ← (bodyOf "Subject" ss).mapM readRow
  let bounds ← (bodyOf "Bounds" ss).mapM readBound
  let general ← (bodyOf "General" ss).mapM readName
  let binary ← (bodyOf "Binary" ss).mapM readName
  some
    { direction, rows, bounds, general, binary
      objective := termsOf sum
      offset := constantOf sum }

/-- **The reader.** -/
def read (text : String) : Option LpReading := ofSections (sections text)

end LpReading

variable {K : Type} [Arithmetic K]

open Arithmetic

/-! ## The lines of a file -/

/-- A section that is left out when it is empty. -/
def optionalSection {α β : Type} (heading : α) : List β → List (α × List β)
  | [] => []
  | lines => [(heading, lines)]

theorem forall₂_optionalSection {s : String} {w : List String} (h : IsLine false s w)
    {ss : List String} {ws : List (List String)} (hs : List.Forall₂ (IsLine true) ss ws) :
    List.Forall₂ IsSection (optionalSection s ss) (optionalSection w ws) := by
  cases hs with
  | nil => exact .nil
  | cons h' hs => exact .cons (.of_body h (.cons h' hs)) .nil

/-- The text of the left-hand side of a row, where a zero stands in place of an empty sum. -/
def LpRow.sumText (r : LpRow K) : String :=
  if LpTerm.sumText r.terms = "" then "0" else LpTerm.sumText r.terms

/-- The words of a row. -/
def LpRow.words (r : LpRow K) : List String :=
  [r.name ++ ":"] ++ MixedInteger.words r.sumText.toList ++ [r.relation.tag] ++ [numberText r.rhs]

/-- The words of a bound. -/
def LpBound.words : LpBound K → List String
  | free n => [n, "free"]
  | fixed n x => [n, "=", numberText x]
  | above n l => [n, ">=", numberText l]
  | between n l u => [numberText l, "<=", n, "<=", numberText u]

section Lines

variable [Printed K]

/-- A constant that is not taken for a name: its magnitude is finite and its own up to the sign. -/
structure LpConstant.IsPlain (c : LpConstant K) : Prop where
  value : signed c.negative (Printed.printed c.magnitude) = Printed.printed c.value
  finite : ∃ q, Printed.printed c.value = .finite q

/-- A file that can be written: names are words, and magnitudes have no sign. -/
structure LpFile.IsPlain (f : LpFile K) : Prop where
  objective : ∀ t ∈ f.objective, t.IsPlain
  constant : ∀ c ∈ f.constant, IsBare (numberText c.magnitude)
  rows : ∀ r ∈ f.rows, IsWord r.name
  terms : ∀ r ∈ f.rows, ∀ t ∈ r.terms, t.IsPlain
  bounds : ∀ b ∈ f.bounds, IsWord b.name
  general : ∀ n ∈ f.general, IsWord n
  binary : ∀ n ∈ f.binary, IsWord n

theorem isLine_name {n : String} (h : IsWord n) : IsLine true (" " ++ n) [n] :=
  .of_start " " [] (by decide) (by decide) h

theorem LpBound.isLine {b : LpBound K} (h : IsWord b.name) : IsLine true b.line b.words := by
  cases b with
  | free n =>
    have hfree : MixedInteger.words " free".toList = ["free"] := by decide
    have hline := (isLine_name h).toSpells.append (t := " free") (.inr (by decide)) (by decide)
    rw [hfree] at hline
    exact ⟨hline, List.cons_ne_nil _ _⟩
  | fixed n x => exact (isLine_name h).next (by decide : IsGap " = " ["="]) (isWord_numberText x)
  | above n l => exact (isLine_name h).next (by decide : IsGap " >= " [">="]) (isWord_numberText l)
  | between n l u =>
    exact ((isLine_name (isWord_numberText l)).next (by decide : IsGap " <= " ["<="]) h).next
      (by decide : IsGap " <= " ["<="]) (isWord_numberText u)

theorem isGap_tag (r : Relation) : IsGap (" " ++ r.tag ++ " ") [r.tag] := by
  cases r <;> decide

/-- A name with a colon after it is a word. -/
theorem IsWord.label {n : String} (h : IsWord n) : IsWord (n ++ ":") := by
  refine ⟨by simp, ?_, ?_⟩
  · simpa using h.noSpace
  · simpa using h.noBreak

namespace LpRow

variable {r : LpRow K}

theorem noBreak_sumText (h : ∀ t ∈ r.terms, t.IsPlain) : '\n' ∉ r.sumText.toList := by
  unfold sumText
  split
  · decide
  · exact LpTerm.noBreak_sumText fun t ht => (h t ht).isWord

theorem isLine (hname : IsWord r.name) (h : ∀ t ∈ r.terms, t.IsPlain) :
    IsLine true r.line r.words := by
  have hline : r.line = " " ++ (r.name ++ ":") ++ (" " ++ r.sumText) ++
      (" " ++ r.relation.tag ++ " ") ++ numberText r.rhs := by
    have hparts : r.line = " " ++ r.name ++ ": " ++ r.sumText ++ " " ++ r.relation.tag ++ " " ++
      numberText r.rhs := rfl
    rw [hparts, ← String.toList_inj]
    simp
  have hbreak : '\n' ∉ (" " ++ r.sumText).toList := by simpa using noBreak_sumText h
  have hsum := (isLine_name hname.label).toSpells.append (t := " " ++ r.sumText) (.inr (by simp))
    hbreak
  have hwords : MixedInteger.words (" " ++ r.sumText).toList =
      MixedInteger.words r.sumText.toList := by
    simp
  rw [hwords] at hsum
  rw [hline, words]
  exact ⟨hsum.next (isGap_tag r.relation) (isWord_numberText r.rhs), by simp⟩

/-- The left-hand side is read as its terms, without a constant. -/
theorem readSum_words (h : ∀ t ∈ r.terms, t.IsPlain) : ∃ ss,
    readSum (MixedInteger.words r.sumText.toList) = some ss ∧
      termsOf ss =
        r.terms.map (fun t => (signed t.negative (Printed.printed t.magnitude), t.name)) ∧
      constantOf ss = 0 := by
  unfold sumText
  split
  next hempty =>
    have hnil : r.terms = [] := LpTerm.sumText_eq_empty (fun t ht => (h t ht).isWord) hempty
    obtain ⟨s, hs, hzero⟩ := exists_readSum_number readNumber_zero
    rw [hzero 0 rfl] at hs
    exact ⟨_, hs, by rw [hnil]; rfl, add_zero 0⟩
  next hne =>
    have hterms : r.terms ≠ [] := fun hnil => hne (by rw [hnil]; rfl)
    exact LpTerm.exists_readSum_sumText h hterms

end LpRow

theorem spells_objective : Spells true " obj: " ["obj:"] := by decide

/-- A constant after a sum, as a part of the sum. -/
def LpConstant.part (c : LpConstant K) : Bool × List String :=
  (c.negative, [numberText c.magnitude])

/-- **A constant after a sum is read**, as what it is if it is not taken for a name. -/
theorem LpConstant.exists_readSummand (c : LpConstant K) (h : IsBare (numberText c.magnitude)) :
    ∃ s, readSummand c.part = some s ∧ (c.IsPlain → s = (Printed.printed c.value, none)) := by
  have hread := Printed.readNumber_numberText c.magnitude
  obtain ⟨s, hs, hnumeric⟩ := MixedInteger.exists_readSummand hread c.negative
  refine ⟨s, hs, fun hc => ?_⟩
  obtain ⟨q, hq⟩ := hc.finite
  have hfinite : ∃ r, Printed.printed c.magnitude = .finite r := by
    have hvalue := hc.value.trans hq
    unfold signed at hvalue
    split at hvalue
    · exact ⟨-q, by rw [← neg_neg (Printed.printed c.magnitude), hvalue, Extended.neg_finite]⟩
    · exact ⟨q, hvalue⟩
  obtain ⟨r, hr⟩ := hfinite
  rw [hr] at hread
  rw [hnumeric (h.isNumeric hread), hc.value]

namespace LpFile

/-- The constant of the objective, as a reader finds it. -/
def offset (f : LpFile K) : Extended ℚ :=
  (f.constant.map fun c => Printed.printed c.value).getD (.finite 0)

theorem isGap_sign (negative : Bool) :
    IsGap (if negative then " - " else " + ") [signWord negative] := by
  cases negative <;> decide

/-- **The objective is read**, as its terms and its constant if this is not taken for a name. -/
theorem exists_objective {f : LpFile K} (hf : f.IsPlain) : ∃ ws ss,
    IsLine true f.objectiveLine ws ∧ LpReading.readObjective ws = some ss ∧
      ((∀ c ∈ f.constant, c.IsPlain) → termsOf ss = f.objective.map
        (fun t => (signed t.negative (Printed.printed t.magnitude), t.name)) ∧
      constantOf ss = f.offset) := by
  have hwords : ∀ t ∈ f.objective, IsWord t.name := fun t ht => (hf.objective t ht).isWord
  have hsum := spells_objective.append (t := LpTerm.sumText f.objective) (.inl (by decide))
    (LpTerm.noBreak_sumText hwords)
  unfold objectiveLine offset
  dsimp only
  cases hc : f.constant with
  | none =>
    dsimp only
    split
    next hempty =>
      have hnil := LpTerm.sumText_eq_empty hwords hempty
      exact ⟨["obj:"], [], by decide, rfl, fun _ => ⟨by rw [hnil]; rfl, rfl⟩⟩
    next hne =>
      have hterms : f.objective ≠ [] := fun hnil => hne (by rw [hnil]; rfl)
      obtain ⟨ss, hread, hreads⟩ := LpTerm.exists_readSum_sumText hf.objective hterms
      exact ⟨_, ss, ⟨hsum, List.cons_ne_nil _ _⟩, hread, fun _ => hreads⟩
  | some c =>
    have hbare := hf.constant c hc
    dsimp only
    split
    next hempty =>
      have hnil := LpTerm.sumText_eq_empty hwords hempty
      obtain ⟨s, hread, hs⟩ := exists_readSum_number (Printed.readNumber_numberText c.value)
      have hword := isWord_numberText c.value
      refine ⟨_, [s], .of_start " obj: " ["obj:"] (by decide) (by decide) hword, hread,
        fun hplain => ?_⟩
      obtain ⟨q, hq⟩ := (hplain c rfl).finite
      rw [hs q hq, hnil]
      exact ⟨rfl, add_zero _⟩
    next hne =>
      have hterms : f.objective ≠ [] := fun hnil => hne (by rw [hnil]; rfl)
      obtain ⟨s, hs, hplain⟩ := c.exists_readSummand hbare
      have hconstant : [c.part].mapM readSummand = some [s] := by
        rw [List.mapM_cons, hs]
        rfl
      have hpart : IsPart c.part := ⟨List.cons_ne_nil _ _, List.forall_mem_singleton.2 hbare⟩
      have hread := LpTerm.readSum_sumText hf.objective hterms
        (List.forall_mem_singleton.2 hpart) hconstant
      have hline := hsum.next (isGap_sign c.negative) (isWord_numberText c.magnitude)
      rw [List.append_assoc, List.append_assoc] at hline
      refine ⟨_, _, ⟨hline, List.cons_ne_nil _ _⟩, hread, fun h => ?_⟩
      rw [hplain (h c rfl), termsOf_append, termsOf_map_summand, constantOf_append,
        constantOf_map_summand]
      exact ⟨List.append_nil _, (zero_add _).trans (add_zero _)⟩

/-- The parts of the text. -/
def parts (f : LpFile K) : List (String × List String) :=
  [(LpReading.headingOf f.direction, [f.objectiveLine]), ("Subject To", f.rows.map LpRow.line)] ++
  optionalSection "Bounds" (f.bounds.map LpBound.line) ++
  optionalSection "General" (f.general.map fun n => " " ++ n) ++
  optionalSection "Binary" (f.binary.map fun n => " " ++ n) ++ [("End", [])]

/-- The sections of the text, given the words of the objective. -/
def sections (f : LpFile K) (objective : List String) : List Section :=
  [([LpReading.headingOf f.direction], [objective]), (["Subject", "To"], f.rows.map LpRow.words)] ++
  optionalSection ["Bounds"] (f.bounds.map LpBound.words) ++
  optionalSection ["General"] (f.general.map fun n => [n]) ++
  optionalSection ["Binary"] (f.binary.map fun n => [n]) ++ [(["End"], [])]

omit [Printed K] in
theorem lines_eq (f : LpFile K) : f.lines = f.parts.flatMap fun s => s.1 :: s.2 := by
  have hoptional : ∀ (heading : String) (ls : List String),
      (optionalSection heading ls).flatMap (fun s => s.1 :: s.2) = sectionLines heading ls := by
    intro heading ls
    cases ls with
    | nil => rfl
    | cons l ls => exact List.append_nil _
  rw [lines, parts, List.flatMap_append, List.flatMap_append, List.flatMap_append,
    List.flatMap_append, hoptional, hoptional, hoptional]
  cases f.direction <;> simp [LpReading.headingOf]

/-- **The sections of the text of a file.** -/
theorem isSection_parts {f : LpFile K} (hf : f.IsPlain) {ws : List String}
    (hws : IsLine true f.objectiveLine ws) : List.Forall₂ IsSection f.parts (f.sections ws) := by
  have hheading : IsLine false (LpReading.headingOf f.direction)
      [LpReading.headingOf f.direction] := by
    cases f.direction <;> decide
  have hrows : List.Forall₂ (IsLine true) (f.rows.map LpRow.line) (f.rows.map LpRow.words) :=
    forall₂_map fun r hr => LpRow.isLine (hf.rows r hr) (hf.terms r hr)
  have hnames : ∀ ns : List String, (∀ n ∈ ns, IsWord n) →
      List.Forall₂ (IsLine true) (ns.map fun n => " " ++ n) (ns.map fun n => [n]) :=
    fun ns hns => forall₂_map fun n hn => isLine_name (hns n hn)
  refine List.rel_append (List.rel_append (List.rel_append (List.rel_append
    (.cons (.of_body hheading (.cons hws .nil)) (.cons (.of_body (by decide) hrows) .nil))
    ?_) ?_) ?_) (.cons (.of_body (by decide) .nil) .nil)
  · exact forall₂_optionalSection (by decide)
      (forall₂_map fun b hb => LpBound.isLine (hf.bounds b hb))
  · exact forall₂_optionalSection (by decide) (hnames f.general hf.general)
  · exact forall₂_optionalSection (by decide) (hnames f.binary hf.binary)

/-! ## Reading the lines -/

/-- What a reader finds in the text of a file. -/
def reading (f : LpFile K) : LpReading :=
  { direction := f.direction
    objective := f.objective.map fun t =>
      (signed t.negative (Printed.printed t.magnitude), t.name)
    offset := f.offset
    rows := f.rows.map fun r =>
      ⟨r.name, r.terms.map fun t => (signed t.negative (Printed.printed t.magnitude), t.name),
        r.relation, Printed.printed r.rhs⟩
    bounds := f.bounds.map (LpBound.map Printed.printed)
    general := f.general
    binary := f.binary }

theorem readRow_words {r : LpRow K} (h : ∀ t ∈ r.terms, t.IsPlain) :
    LpReading.readRow r.words = some ⟨r.name,
      r.terms.map fun t => (signed t.negative (Printed.printed t.magnitude), t.name),
      r.relation, Printed.printed r.rhs⟩ := by
  obtain ⟨ss, hread, hterms, hconstant⟩ := LpRow.readSum_words h
  have hlabel : LpReading.readLabel (r.name ++ ":") = some r.name := by
    simp [LpReading.readLabel]
  have htag : [("<=", Relation.le), (">=", .ge), ("=", .eq)].lookup r.relation.tag =
      some r.relation := by
    cases r.relation <;> rfl
  have hreverse : (MixedInteger.words r.sumText.toList ++ [r.relation.tag] ++
      [numberText r.rhs]).reverse =
      numberText r.rhs :: r.relation.tag :: (MixedInteger.words r.sumText.toList).reverse := by
    simp
  change LpReading.readRow ((r.name ++ ":") :: (MixedInteger.words r.sumText.toList ++
    [r.relation.tag] ++ [numberText r.rhs])) = _
  rw [LpReading.readRow, hreverse]
  dsimp only
  rw [hlabel, htag, List.reverse_reverse, hread, Printed.readNumber_numberText]
  change some (LpReadRow.mk _ (termsOf ss) _ (_ - constantOf ss)) = _
  rw [hterms, hconstant, Extended.sub_finite_zero]

theorem readBound_words (b : LpBound K) :
    LpReading.readBound b.words = some (b.map Printed.printed) := by
  cases b <;> simp [LpBound.words, LpReading.readBound, LpBound.map, Printed.readNumber_numberText]

theorem ofSections_sections {f : LpFile K} (hf : f.IsPlain) {ws : List String} {ss : List Summand}
    (hread : LpReading.readObjective ws = some ss) :
    LpReading.ofSections (f.sections ws) =
      some { f.reading with objective := termsOf ss, offset := constantOf ss } := by
  have hdirection : (if (f.sections ws).any fun s => s.1 = ["Maximize"] then Direction.maximize
      else .minimize) = f.direction := by
    rw [sections]
    cases f.direction <;> cases f.bounds <;> cases f.general <;> cases f.binary <;>
      simp [LpReading.headingOf, optionalSection]
  have hbodies : bodyOf (LpReading.headingOf f.direction) (f.sections ws) = [ws] ∧
      bodyOf "Subject" (f.sections ws) = f.rows.map LpRow.words ∧
      bodyOf "Bounds" (f.sections ws) = f.bounds.map LpBound.words ∧
      bodyOf "General" (f.sections ws) = f.general.map (fun n => [n]) ∧
      bodyOf "Binary" (f.sections ws) = f.binary.map fun n => [n] := by
    rw [sections]
    cases f.direction <;> cases f.bounds <;> cases f.general <;> cases f.binary <;>
      simp [bodyOf, LpReading.headingOf, optionalSection]
  obtain ⟨hobjective, hrows, hbounds, hgeneral, hbinary⟩ := hbodies
  have hreadRows : (f.rows.map LpRow.words).mapM LpReading.readRow = some f.reading.rows :=
    mapM_map_eq_some fun r hr => readRow_words (hf.terms r hr)
  have hreadBounds : (f.bounds.map LpBound.words).mapM LpReading.readBound =
      some f.reading.bounds := mapM_map_eq_some fun b _ => readBound_words b
  have hreadNames : ∀ ns : List String,
      (ns.map fun n => [n]).mapM LpReading.readName = some ns := by
    intro ns
    have hread := mapM_map_eq_some (f := LpReading.readName) (w := fun n => [n]) (g := id) (l := ns)
      fun n _ => rfl
    rwa [List.map_id] at hread
  rw [LpReading.ofSections, hdirection, hobjective, hrows, hbounds, hgeneral, hbinary, hreadRows,
    hreadBounds, hreadNames, hreadNames]
  change (LpReading.readObjective ws >>= fun sum => some (LpReading.mk f.direction (termsOf sum)
    (constantOf sum) f.reading.rows f.reading.bounds f.general f.binary)) = _
  rw [hread]
  rfl

/-- **The reader finds what has been written**: all of it if the constant of the objective is not
taken for a name, and otherwise all but the objective. -/
theorem read_text {f : LpFile K} (hf : f.IsPlain) : ∃ terms offset,
    LpReading.read f.text = some { f.reading with objective := terms, offset := offset } ∧
    ((∀ c ∈ f.constant, c.IsPlain) →
      terms = f.reading.objective ∧ offset = f.reading.offset) := by
  obtain ⟨ws, ss, hline, hread, hplain⟩ := exists_objective hf
  refine ⟨_, _, ?_, hplain⟩
  rw [LpReading.read, text, lines_eq, sections_linesText (isSection_parts hf hline)]
  exact ofSections_sections hf hread

end LpFile

end Lines

end MixedInteger
