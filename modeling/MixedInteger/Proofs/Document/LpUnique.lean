import MixedInteger.Proofs.Document.LpReading
import MixedInteger.Proofs.Document.SumWords

/-!
# The row-wise text determines what it says

The reader of the row-wise text expects identifiers.  A text says only one thing about the objective
and the rows even where names are not identifiers, so two files with the same text agree there.  The
name of a row may be anything that stays on its line, since a cut at another colon leaves no sum.

## What is here

* `exists_words_of_label` — where two labels differ, one of them ends inside the sum of the other.
* `LpRow.eq_of_line_eq` — the line of a row determines its name, its sum and its right-hand side.
* `LpFile.parts_eq_of_objectiveLine_eq` — the line of the objective determines the objective.
* `LpFile.IsLegible` — files whose names and numbers are found again.
* `LpFile.reading_eq_of_text_eq` — files with the same text have the same objective and rows.
-/

set_option autoImplicit false

namespace MixedInteger

open Arithmetic

/-! ## Labels -/

/-- The last word of a label ends in a colon. -/
theorem exists_words_colon (cs : List Char) :
    ∃ ws w, words (cs ++ [':']) = ws ++ [w] ∧ EndsInColon w := by
  by_cases hspace : ' ' ∈ cs
  · obtain ⟨xs, ys, hcs⟩ := List.append_of_mem hspace
    have hlength : ys.length < cs.length := by
      rw [hcs, List.length_append, List.length_cons]
      omega
    obtain ⟨ws, w, hwords, hw⟩ := exists_words_colon ys
    refine ⟨words xs ++ ws, w, ?_, hw⟩
    rw [hcs, List.append_assoc, List.cons_append, words_append_space, hwords, List.append_assoc]
  · refine ⟨[], String.ofList (cs ++ [':']), ?_, by simp [EndsInColon]⟩
    have hnone : ' ' ∉ cs ++ [':'] := by simpa using hspace
    rw [words, List.splitOn_eq_singleton hnone]
    simp
termination_by cs.length

/-- **Where a label is longer than another one, it ends inside the text after that one.** -/
theorem exists_words_of_label {n c xs ys : List Char} (hc : c ≠ [])
    (h : n ++ ':' :: ' ' :: xs = n ++ c ++ ':' :: ' ' :: ys) :
    ∃ ws w, words xs = ws ++ w :: words ys ∧ EndsInColon w := by
  rw [List.append_assoc] at h
  have hrest := List.append_cancel_left h
  cases c with
  | nil => exact absurd rfl hc
  | cons a c =>
    have hspace := (List.cons.inj hrest).2
    cases c with
    | nil => cases hspace
    | cons b c =>
      obtain ⟨rfl, hxs⟩ := List.cons.inj hspace
      obtain ⟨ws, w, hwords, hw⟩ := exists_words_colon c
      refine ⟨ws, w, ?_, hw⟩
      have hcolon : xs = (c ++ [':']) ++ ' ' :: ys := by simpa using hxs
      rw [hcolon, words_append_space, hwords, List.append_assoc, List.singleton_append]

/-! ## Rows -/

namespace LpRow

variable {K : Type} [Arithmetic K]

/-- The signed parts of the sum in a row, where a zero stands in place of an empty sum. -/
def parts (r : LpRow K) : List (Bool × List String) :=
  if r.terms = [] then [(false, ["0"])] else r.terms.map LpTerm.part

/-- What stands after the label of a row. -/
def content (r : LpRow K) : String :=
  r.sumText ++ (" " ++ r.relation.tag ++ " ") ++ numberText r.rhs

theorem toList_line (r : LpRow K) :
    r.line.toList = ' ' :: (r.name.toList ++ ':' :: ' ' :: r.content.toList) := by
  have hline : r.line = " " ++ r.name ++ ": " ++ r.sumText ++ " " ++ r.relation.tag ++ " " ++
    numberText r.rhs := rfl
  rw [hline, content]
  simp

theorem parts_ne_nil (r : LpRow K) : r.parts ≠ [] := by
  unfold parts
  split
  · exact List.cons_ne_nil _ _
  next h => simpa using h

variable [Printed K]

theorem words_sumText {r : LpRow K} (h : ∀ t ∈ r.terms, IsWord t.name) :
    MixedInteger.words r.sumText.toList = joined r.parts := by
  unfold sumText parts
  split
  next hempty =>
    rw [if_pos (LpTerm.sumText_eq_empty h hempty)]
    decide
  next hne =>
    have hterms : r.terms ≠ [] := fun hnil => hne (by rw [hnil]; rfl)
    rw [if_neg hterms]
    exact LpTerm.words_sumText h

theorem words_content {r : LpRow K} (h : ∀ t ∈ r.terms, IsWord t.name) :
    MixedInteger.words r.content.toList = joined r.parts ++ [r.relation.tag, numberText r.rhs] := by
  have hgap := isGap_tag r.relation
  have hnumber := words_of_isWord (isWord_numberText r.rhs)
  have hlast : (r.sumText ++ (" " ++ r.relation.tag ++ " ")).toList.getLast? = some ' ' := by
    rw [String.toList_append, List.getLast?_append, hgap.last, Option.some_or]
  rw [content, String.toList_append, words_append_of_getLast? hlast, hnumber, String.toList_append,
    words_append_of_head? hgap.head, hgap.words_eq, words_sumText h, List.append_assoc]
  rfl

/-- A row that is found again. -/
structure IsLegible (r : LpRow Float) : Prop where
  name : '\n' ∉ r.name.toList
  terms : ∀ t ∈ r.terms, t.IsLegible

variable {r s : LpRow Float}

theorem IsLegible.isWord (h : r.IsLegible) : ∀ t ∈ r.terms, IsWord t.name :=
  fun t ht => (h.terms t ht).name.toIsWord

theorem IsLegible.isSum (h : r.IsLegible) : IsSum r.parts := by
  unfold parts
  split
  · exact .constant false isNumeral_zero
  · exact LpTerm.isSum_map_part h.terms

/-- The label of a row does not reach into its sum. -/
theorem IsLegible.content_ne_append (hr : r.IsLegible) (hs : s.IsLegible) {w : String}
    (hw : EndsInColon w) (ws : List String) :
    MixedInteger.words r.content.toList ≠ ws ++ w :: MixedInteger.words s.content.toList := by
  rw [words_content hr.isWord, words_content hs.isWord, ← List.cons_append, ← List.append_assoc]
  intro h
  exact hr.isSum.joined_ne_append hs.isSum s.parts_ne_nil hw ws (List.append_inj_left' h rfl)

/-- A name that begins with the name of a row with the same line is this name. -/
theorem IsLegible.eq_nil_of_label (hr : r.IsLegible) (hs : s.IsLegible) {c : List Char}
    (hname : s.name.toList = r.name.toList ++ c)
    (h : r.name.toList ++ ':' :: ' ' :: r.content.toList =
      s.name.toList ++ ':' :: ' ' :: s.content.toList) : c = [] := by
  by_contra hc
  rw [hname] at h
  obtain ⟨ws, w, hwords, hw⟩ := exists_words_of_label hc h
  exact hr.content_ne_append hs hw ws hwords

/-- **The line of a row determines the row** as it is written. -/
theorem eq_of_line_eq (hr : r.IsLegible) (hs : s.IsLegible) (h : r.line = s.line) :
    r.name = s.name ∧ r.parts = s.parts ∧ r.relation = s.relation ∧
      numberText r.rhs = numberText s.rhs := by
  have hchars := congrArg String.toList h
  rw [toList_line, toList_line] at hchars
  have hlabel := (List.cons.inj hchars).2
  have hname : r.name.toList = s.name.toList := by
    rcases List.append_eq_append_iff.1 hlabel with ⟨c, hc, -⟩ | ⟨c, hc, -⟩
    · rw [hc, hr.eq_nil_of_label hs hc hlabel, List.append_nil]
    · rw [hc, hs.eq_nil_of_label hr hc hlabel.symm, List.append_nil]
  rw [hname] at hlabel
  have hcontent := (List.cons.inj (List.cons.inj (List.append_cancel_left hlabel)).2).2
  have hwords := congrArg MixedInteger.words hcontent
  rw [words_content hr.isWord, words_content hs.isWord] at hwords
  obtain ⟨hsum, hend⟩ := List.append_inj' hwords rfl
  obtain ⟨htag, hnumber⟩ := List.cons.inj hend
  refine ⟨String.toList_inj.1 hname, hr.isSum.eq_of_joined_eq hs.isSum hsum, ?_,
    (List.cons.inj hnumber).1⟩
  revert htag
  cases r.relation <;> cases s.relation <;> decide

/-- The zero of an empty sum is no term. -/
theorem IsLegible.parts_ne_of_ne_nil (h : r.IsLegible) (hne : r.terms ≠ []) :
    r.terms.map LpTerm.part ≠ [(false, ["0"])] := by
  intro hparts
  obtain ⟨t, ht⟩ := List.exists_mem_of_ne_nil _ hne
  have hpart := List.mem_map_of_mem (f := LpTerm.part) ht
  rw [hparts, List.mem_singleton] at hpart
  have hwords := (h.terms t ht).isTermWords
  exact hwords.append_ne_singleton isNumeral_zero [] (by
    rw [List.append_nil]; exact congrArg Prod.snd hpart)

/-- Rows with the same sum have the same terms. -/
theorem summands_eq_of_parts_eq (hr : r.IsLegible) (hs : s.IsLegible) (h : r.parts = s.parts) :
    r.terms.map LpTerm.summand = s.terms.map LpTerm.summand := by
  unfold parts at h
  split at h
  next hnil =>
    split at h
    next hnil' => rw [hnil, hnil']
    next hne => exact absurd h.symm (hs.parts_ne_of_ne_nil hne)
  next hne =>
    split at h
    next => exact absurd h (hr.parts_ne_of_ne_nil hne)
    next => exact LpTerm.map_summand_eq h

theorem IsLegible.noBreak (h : r.IsLegible) : '\n' ∉ r.line.toList := by
  have hsum : '\n' ∉ r.sumText.toList := by
    unfold sumText
    split
    · decide
    · exact LpTerm.noBreak_sumText h.isWord
  have hgap := (isGap_tag r.relation).noBreak
  have hnumber := (isWord_numberText r.rhs).noBreak
  rw [toList_line, content, String.toList_append, String.toList_append]
  simp_all [h.name]

/-- A row as a reader finds it. -/
def reading (r : LpRow K) : LpReadRow :=
  ⟨r.name, r.terms.map fun t => (signed t.negative (Printed.printed t.magnitude), t.name),
    r.relation, Printed.printed r.rhs⟩

/-- **The line of a row determines what a reader finds.** -/
theorem reading_eq_of_line_eq (hr : r.IsLegible) (hs : s.IsLegible) (h : r.line = s.line) :
    r.reading = s.reading := by
  obtain ⟨hname, hparts, hrelation, hrhs⟩ := eq_of_line_eq hr hs h
  rw [reading, reading, ← termsOf_map_summand, ← termsOf_map_summand, hname,
    summands_eq_of_parts_eq hr hs hparts, hrelation, printed_eq_of_numberText_eq hrhs]

end LpRow

/-! ## The objective -/

/-- A constant that is found again. -/
structure LpConstant.IsLegible (c : LpConstant Float) : Prop where
  value : numberText c.value = (if c.negative then "-" else "") ++ numberText c.magnitude
  magnitude : IsNumeral (numberText c.magnitude)

theorem LpConstant.IsLegible.joined_part {c : LpConstant Float} (h : c.IsLegible) :
    joined [c.part] = [numberText c.value] := by
  rw [h.value, part]
  cases c.negative with
  | false => exact congrArg ([·]) String.empty_append.symm
  | true => rfl

/-- Constants with the same words are printed alike. -/
theorem LpConstant.IsLegible.printed_eq_of_part_eq {c d : LpConstant Float} (hc : c.IsLegible)
    (hd : d.IsLegible) (h : c.part = d.part) :
    (Printed.printed c.value : Extended ℚ) = Printed.printed d.value := by
  have hjoined := hc.joined_part
  rw [h, hd.joined_part] at hjoined
  exact printed_eq_of_numberText_eq (List.cons.inj hjoined).1.symm

namespace LpFile

/-- The signed parts of the objective. -/
def objectiveParts {K : Type} [Arithmetic K] (f : LpFile K) : List (Bool × List String) :=
  f.objective.map LpTerm.part ++ (f.constant.map LpConstant.part).toList

/-- A file whose names and numbers are found again. -/
structure IsLegible (f : LpFile Float) : Prop where
  objective : ∀ t ∈ f.objective, t.IsLegible
  constant : ∀ c ∈ f.constant, c.IsLegible
  rows : ∀ r ∈ f.rows, r.IsLegible

variable {f g : LpFile Float}

theorem IsLegible.isWord (h : f.IsLegible) : ∀ t ∈ f.objective, IsWord t.name :=
  fun t ht => (h.objective t ht).name.toIsWord

theorem IsLegible.isSum (h : f.IsLegible) : IsSum f.objectiveParts := by
  refine LpTerm.isSum_append h.objective ?_
  cases hc : f.constant with
  | none => exact .nil
  | some c => exact .constant c.negative (h.constant c hc).magnitude

/-- **The words of the objective.** -/
theorem IsLegible.spells_objectiveLine (h : f.IsLegible) :
    Spells true f.objectiveLine ("obj:" :: joined f.objectiveParts) := by
  have hsum : Spells true (" obj: " ++ LpTerm.sumText f.objective)
      ("obj:" :: joined (f.objective.map LpTerm.part)) := by
    rw [← LpTerm.words_sumText h.isWord]
    exact spells_objective.append (.inl (by decide)) (LpTerm.noBreak_sumText h.isWord)
  unfold objectiveLine objectiveParts
  dsimp only
  cases hc : f.constant with
  | none =>
    rw [Option.map_none, Option.toList_none, List.append_nil]
    dsimp only
    split
    next hempty =>
      rw [LpTerm.sumText_eq_empty h.isWord hempty]
      decide
    next => exact hsum
  | some c =>
    dsimp only
    rw [Option.map_some, Option.toList_some]
    split
    next hempty =>
      have hvalue := (h.constant c hc).joined_part
      rw [LpTerm.sumText_eq_empty h.isWord hempty, List.map_nil, List.nil_append, hvalue]
      exact spells_objective.word (by decide) (isWord_numberText c.value)
    next hne =>
      have hterms : f.objective.map LpTerm.part ≠ [] := by
        rw [ne_eq, List.map_eq_nil_iff]
        exact fun hnil => hne (by rw [hnil]; rfl)
      have hline := hsum.next (isGap_sign c.negative) (isWord_numberText c.magnitude)
      rw [joined_append hterms]
      rwa [List.append_assoc] at hline

/-- **The line of the objective determines its parts.** -/
theorem parts_eq_of_objectiveLine_eq (hf : f.IsLegible) (hg : g.IsLegible)
    (h : f.objectiveLine = g.objectiveLine) : f.objectiveParts = g.objectiveParts := by
  have hwords := hf.spells_objectiveLine.words_eq
  rw [h, hg.spells_objectiveLine.words_eq] at hwords
  exact hf.isSum.eq_of_joined_eq hg.isSum (List.cons.inj hwords).2.symm

/-- A constant is no term. -/
theorem IsLegible.part_notMem (h : f.IsLegible) {c : LpConstant Float} (hc : c.IsLegible) :
    c.part ∉ f.objective.map LpTerm.part := by
  intro hmem
  obtain ⟨t, ht, hpart⟩ := List.mem_map.1 hmem
  refine (h.objective t ht).isTermWords.append_ne_singleton hc.magnitude [] ?_
  rw [List.append_nil]
  exact congrArg Prod.snd hpart

/-- An objective with the parts of one without a constant has no constant. -/
theorem constant_eq_none (hf : f.IsLegible) (hg : g.IsLegible)
    (h : f.objectiveParts = g.objectiveParts) (hnone : g.constant = none) : f.constant = none := by
  cases hc : f.constant with
  | none => rfl
  | some c =>
    refine absurd ?_ (hg.part_notMem (hf.constant c hc))
    have hmem : c.part ∈ f.objectiveParts := by
      rw [objectiveParts, hc]
      exact List.mem_append_right _ (List.mem_singleton.2 rfl)
    rw [h, objectiveParts, hnone] at hmem
    simpa using hmem

/-- The parts of the objective determine its terms and its constant. -/
theorem eq_of_objectiveParts_eq (hf : f.IsLegible) (hg : g.IsLegible)
    (h : f.objectiveParts = g.objectiveParts) :
    f.objective.map LpTerm.part = g.objective.map LpTerm.part ∧
      f.constant.map LpConstant.part = g.constant.map LpConstant.part := by
  have hparts := h
  unfold objectiveParts at hparts
  cases hcf : f.constant with
  | none =>
    rw [hcf, constant_eq_none hg hf h.symm hcf] at hparts
    rw [constant_eq_none hg hf h.symm hcf]
    simpa using hparts
  | some c =>
    cases hcg : g.constant with
    | none => cases hcf.symm.trans (constant_eq_none hf hg h hcg)
    | some d =>
      rw [hcf, hcg] at hparts
      obtain ⟨hterms, hconstant⟩ := List.append_inj' hparts rfl
      exact ⟨hterms, congrArg some (List.cons.inj hconstant).1⟩

/-- Objectives with the same parts are the same to a reader. -/
theorem reading_eq_of_objectiveParts_eq (hf : f.IsLegible) (hg : g.IsLegible)
    (h : f.objectiveParts = g.objectiveParts) :
    f.reading.objective = g.reading.objective ∧ f.offset = g.offset := by
  obtain ⟨hterms, hconstant⟩ := eq_of_objectiveParts_eq hf hg h
  constructor
  · change f.objective.map _ = g.objective.map _
    rw [← termsOf_map_summand, ← termsOf_map_summand, LpTerm.map_summand_eq hterms]
  · unfold offset
    cases hcf : f.constant with
    | none =>
      rw [hcf] at hconstant
      rw [Option.map_eq_none_iff.1 hconstant.symm]
    | some c =>
      rw [hcf] at hconstant
      obtain ⟨d, hd, hpart⟩ := Option.map_eq_some_iff.1 hconstant.symm
      rw [hd, Option.map_some, Option.map_some,
        (hf.constant c hcf).printed_eq_of_part_eq (hg.constant d hd) hpart.symm]

/-! ## Lines -/

theorem toList_linesText_cons (s : String) (ls : List String) :
    (linesText (s :: ls)).toList = s.toList ++ '\n' :: (linesText ls).toList := by
  simp [linesText, String.toList_join]

/-- **The first line of a text**, and what comes after it. -/
theorem linesText_cons_inj {s t : String} {ls ks : List String} (hs : '\n' ∉ s.toList)
    (ht : '\n' ∉ t.toList) (h : linesText (s :: ls) = linesText (t :: ks)) :
    s = t ∧ linesText ls = linesText ks := by
  have hchars := congrArg String.toList h
  rw [toList_linesText_cons, toList_linesText_cons] at hchars
  have hsplit := congrArg (List.splitOn '\n') hchars
  rw [List.splitOn_append_cons_self_of_not_mem hs, List.splitOn_append_cons_self_of_not_mem ht]
    at hsplit
  have hfirst := (List.cons.inj hsplit).1
  rw [hfirst] at hchars
  exact ⟨String.toList_inj.1 hfirst,
    String.toList_inj.1 (List.cons.inj (List.append_cancel_left hchars)).2⟩

/-- A line that begins with a space, and ends where it seems to. -/
structure IsIndented (l : String) : Prop where
  head : l.toList.head? = some ' '
  noBreak : '\n' ∉ l.toList

/-- The text of some lines does not begin with a space. -/
def IsFlush (ls : List String) : Prop := (linesText ls).toList.head? ≠ some ' '

theorem isFlush_cons {l : String} (h : l.toList.head? ≠ some ' ') (ls : List String) :
    IsFlush (l :: ls) := by
  rw [IsFlush, toList_linesText_cons]
  cases hl : l.toList with
  | nil => exact nofun
  | cons c cs =>
    rw [hl] at h
    exact h

theorem isFlush_sectionLines {heading : String} (h : heading.toList.head? ≠ some ' ')
    (ls : List String) {rest : List String} (hrest : IsFlush rest) :
    IsFlush (sectionLines heading ls ++ rest) := by
  cases ls with
  | nil => exact hrest
  | cons l ls => exact isFlush_cons h _

/-- **Indented lines are known from the text** that they begin. -/
theorem eq_of_linesText_append {ls ks rest rest' : List String} (hls : ∀ l ∈ ls, IsIndented l)
    (hks : ∀ k ∈ ks, IsIndented k) (hrest : IsFlush rest) (hrest' : IsFlush rest')
    (h : linesText (ls ++ rest) = linesText (ks ++ rest')) : ls = ks := by
  have hindented : ∀ {l : String} {ls rest : List String}, IsIndented l →
      (linesText (l :: ls ++ rest)).toList.head? = some ' ' := by
    intro l ls rest hl
    obtain ⟨cs, hcs⟩ := List.head?_eq_some_iff.1 hl.head
    rw [List.cons_append, toList_linesText_cons, hcs]
    rfl
  induction ls generalizing ks with
  | nil =>
    cases ks with
    | nil => rfl
    | cons k ks =>
      refine absurd ?_ hrest
      rw [← List.nil_append rest, h]
      exact hindented (hks k List.mem_cons_self)
  | cons l ls ih =>
    obtain ⟨hl, hls⟩ := List.forall_mem_cons.1 hls
    cases ks with
    | nil =>
      refine absurd ?_ hrest'
      rw [← List.nil_append rest', ← h]
      exact hindented hl
    | cons k ks =>
      obtain ⟨hk, hrestk⟩ := List.forall_mem_cons.1 hks
      obtain ⟨rfl, htext⟩ := linesText_cons_inj hl.noBreak hk.noBreak h
      rw [ih hls hrestk htext]

/-! ## Files -/

/-- The sections after the rows. -/
def sectionsAfterRows {K : Type} [Arithmetic K] (f : LpFile K) : List String :=
  sectionLines "Bounds" (f.bounds.map LpBound.line) ++
  (sectionLines "General" (f.general.map fun n => " " ++ n) ++
  (sectionLines "Binary" (f.binary.map fun n => " " ++ n) ++ ["End"]))

theorem isFlush_sectionsAfterRows (f : LpFile Float) : IsFlush f.sectionsAfterRows :=
  isFlush_sectionLines (by decide) _ <| isFlush_sectionLines (by decide) _ <|
    isFlush_sectionLines (by decide) _ <| isFlush_cons (by decide) []

theorem text_eq (f : LpFile Float) : f.text = linesText (LpReading.headingOf f.direction ::
    f.objectiveLine :: "Subject To" :: (f.rows.map LpRow.line ++ f.sectionsAfterRows)) := by
  rw [text, lines, sectionsAfterRows]
  cases f.direction <;> simp [LpReading.headingOf]

/-- **Files with the same text have the same objective and the same rows**, as a reader finds
them. -/
theorem reading_eq_of_text_eq (hf : f.IsLegible) (hg : g.IsLegible) (h : f.text = g.text) :
    f.direction = g.direction ∧ f.reading.objective = g.reading.objective ∧
      f.offset = g.offset ∧ f.reading.rows = g.reading.rows := by
  have hheading : ∀ d, '\n' ∉ (LpReading.headingOf d).toList := by
    rintro ⟨⟩ <;> decide
  have hindented : ∀ {f : LpFile Float}, f.IsLegible → ∀ l ∈ f.rows.map LpRow.line,
      IsIndented l := by
    intro f hf
    refine List.forall_mem_map.2 fun r hr => ⟨?_, (hf.rows r hr).noBreak⟩
    rw [LpRow.toList_line]
    rfl
  rw [text_eq, text_eq] at h
  obtain ⟨hdirection, h⟩ := linesText_cons_inj (hheading _) (hheading _) h
  obtain ⟨hobjective, h⟩ := linesText_cons_inj hf.spells_objectiveLine.noBreak
    hg.spells_objectiveLine.noBreak h
  obtain ⟨-, h⟩ := linesText_cons_inj (by decide) (by decide) h
  have hrows := eq_of_linesText_append (hindented hf) (hindented hg) (isFlush_sectionsAfterRows f)
    (isFlush_sectionsAfterRows g) h
  obtain ⟨hterms, hoffset⟩ := reading_eq_of_objectiveParts_eq hf hg
    (parts_eq_of_objectiveLine_eq hf hg hobjective)
  refine ⟨?_, hterms, hoffset, ?_⟩
  · revert hdirection
    cases f.direction <;> cases g.direction <;> decide
  · exact map_eq_of_map_eq (fun r hr s hs => LpRow.reading_eq_of_line_eq (hf.rows r hr)
      (hg.rows s hs)) hrows

end LpFile

end MixedInteger
