import MixedInteger.Document.Problem
import Mathlib

/-!
# Words, lines and sections

Both written forms of a model are lines of words, separated by spaces.  A line that does not begin
with a space is the heading of a section, and the lines after it that do are its body.  This file
takes a text apart into sections, and proves that the sections of a text are those that it was put
together from.

## What is here

* `words` — the words of a line.
* `isIdentifier` — names that are always one word.
* `chunks` — a list taken apart before each element that is a key.
* `sections` — the sections of a text.
* `sections_linesText` — a text that is put together from sections has these sections.
-/

set_option autoImplicit false

namespace MixedInteger

/-! ## Words -/

/-- The words of a line. -/
def words (cs : List Char) : List String :=
  ((cs.splitOn ' ').filter fun w => w ≠ []).map String.ofList

/-- A text that can stand as one word on a line. -/
structure IsWord (s : String) : Prop where
  ne_nil : s.toList ≠ []
  noSpace : ' ' ∉ s.toList
  noBreak : '\n' ∉ s.toList

@[simp] theorem words_nil : words [] = [] := by simp [words]

/-- **Words end at a space.** -/
@[simp] theorem words_append_space (xs ys : List Char) :
    words (xs ++ ' ' :: ys) = words xs ++ words ys := by
  rw [words, words, words, List.splitOn_append_cons_self, List.filter_append, List.map_append]

@[simp] theorem words_cons_space (cs : List Char) : words (' ' :: cs) = words cs := by
  simpa using words_append_space [] cs

theorem words_of_isWord {s : String} (h : IsWord s) : words s.toList = [s] := by
  rw [words, List.splitOn_eq_singleton h.noSpace]
  simp [h.ne_nil]

/-- A space at the end of the first part separates it from the second. -/
theorem words_append_of_getLast? {xs ys : List Char} (h : xs.getLast? = some ' ') :
    words (xs ++ ys) = words xs ++ words ys := by
  obtain ⟨zs, rfl⟩ := List.getLast?_eq_some_iff.1 h
  rw [List.append_assoc, List.singleton_append, words_append_space, words_append_space, words_nil,
    List.append_nil]

/-- A space at the start of the second part separates it from the first. -/
theorem words_append_of_head? {xs ys : List Char} (h : ys.head? = some ' ') :
    words (xs ++ ys) = words xs ++ words ys := by
  obtain ⟨zs, rfl⟩ := List.head?_eq_some_iff.1 h
  rw [words_append_space, words_cons_space]

/-! ## Identifiers -/

/-- Whether an identifier may begin with a character: a letter or an underscore.  All characters
beyond ASCII count as letters, since nothing depends on which of them are. -/
def isLetter (c : Char) : Bool := c.isAlpha || c == '_' || decide (127 < c.toNat)

/-- Whether a name is made of letters, digits and underscores and does not begin with a digit. -/
def isIdentifier (s : String) : Bool :=
  match s.toList with
  | [] => false
  | c :: cs => isLetter c && cs.all fun d => isLetter d || d.isDigit

/-- A letter is not a digit. -/
theorem isDigit_of_isLetter {c : Char} (h : isLetter c = true) : c.isDigit = false := by
  have hdigit : c.isDigit = (decide (48 ≤ c.toNat) && decide (c.toNat ≤ 57)) := rfl
  have hupper : c.isUpper = decide (65 ≤ c.toNat ∧ c.toNat ≤ 90) := rfl
  have hlower : c.isLower = (decide (97 ≤ c.toNat) && decide (c.toNat ≤ 122)) := rfl
  rw [isLetter, Char.isAlpha, hupper, hlower] at h
  simp only [Bool.or_eq_true, Bool.and_eq_true, decide_eq_true_iff, beq_iff_eq] at h
  rw [hdigit, ← Bool.decide_and, decide_eq_false_iff_not]
  rcases h with ((h | h) | rfl) | h
  · omega
  · omega
  · decide
  · omega

/-- An identifier begins with a letter. -/
theorem head_of_isIdentifier {s : String} (h : isIdentifier s = true) :
    ∃ c cs, s.toList = c :: cs ∧ isLetter c = true := by
  unfold isIdentifier at h
  split at h
  · cases h
  next c cs hs => exact ⟨c, cs, hs, (Bool.and_eq_true_iff.1 h).1⟩

/-- A character that is neither a letter nor a digit does not occur in an identifier. -/
theorem not_mem_of_isIdentifier {s : String} (h : isIdentifier s = true) {c : Char}
    (hc : isLetter c = false) (hd : c.isDigit = false) : c ∉ s.toList := by
  unfold isIdentifier at h
  split at h
  · cases h
  next a cs hs =>
    rw [hs, List.mem_cons]
    rw [Bool.and_eq_true, List.all_eq_true] at h
    rintro (rfl | hmem)
    · exact absurd h.1 (by rw [hc]; decide)
    · have := h.2 c hmem
      rw [hc, hd] at this
      cases this

/-- **An identifier is one word.** -/
theorem isWord_of_isIdentifier {s : String} (h : isIdentifier s = true) : IsWord s := by
  obtain ⟨c, cs, hs, -⟩ := head_of_isIdentifier h
  exact ⟨by simp [hs], not_mem_of_isIdentifier h (by decide) (by decide),
    not_mem_of_isIdentifier h (by decide) (by decide)⟩

/-! ## Chunks -/

section Chunks

variable {α β : Type}

/-- A list taken apart before each element that is a key: what stands before the first key, and
each key with what stands after it. -/
def chunks (key : α → Option β) (l : List α) : List α × List (β × List α) :=
  l.foldr (fun a acc =>
    match key a with
    | some b => ([], (b, acc.1) :: acc.2)
    | none => (a :: acc.1, acc.2)) ([], [])

theorem chunks_cons_some {key : α → Option β} {a : α} {b : β} (h : key a = some b) (l : List α) :
    chunks key (a :: l) = ([], (b, (chunks key l).1) :: (chunks key l).2) := by
  simp only [chunks, List.foldr_cons, h]

theorem chunks_append {key : α → Option β} {xs : List α} (h : ∀ a ∈ xs, key a = none) (l : List α) :
    chunks key (xs ++ l) = (xs ++ (chunks key l).1, (chunks key l).2) := by
  induction xs with
  | nil => rfl
  | cons a xs ih =>
    have hstep : chunks key (a :: (xs ++ l)) =
        (a :: (chunks key (xs ++ l)).1, (chunks key (xs ++ l)).2) := by
      simp only [chunks, List.foldr_cons, h a List.mem_cons_self]
    rw [List.cons_append, hstep, ih fun b hb => h b (List.mem_cons_of_mem _ hb)]
    rfl

/-- **A list that is put together from chunks is taken apart into these.** -/
theorem chunks_flatMap {γ : Type} (key : α → Option β) (head : γ → α) (name : γ → β)
    {body : γ → List α} {cs : List γ} (hhead : ∀ c ∈ cs, key (head c) = some (name c))
    (hbody : ∀ c ∈ cs, ∀ a ∈ body c, key a = none) :
    chunks key (cs.flatMap fun c => head c :: body c) = ([], cs.map fun c => (name c, body c)) := by
  induction cs with
  | nil => rfl
  | cons c cs ih =>
    rw [List.flatMap_cons, List.cons_append, chunks_cons_some (hhead c List.mem_cons_self),
      chunks_append (hbody c List.mem_cons_self),
      ih (fun d hd => hhead d (List.mem_cons_of_mem _ hd))
        fun d hd => hbody d (List.mem_cons_of_mem _ hd), List.append_nil, List.map_cons]

end Chunks

/-! ## Lists of lines -/

section Reading

variable {α β γ : Type} {f : β → Option γ}

/-- A list that is written element by element is read so. -/
theorem mapM_map_eq_some {w : α → β} {g : α → γ} {l : List α}
    (h : ∀ a ∈ l, f (w a) = some (g a)) : (l.map w).mapM f = some (l.map g) := by
  induction l with
  | nil => rfl
  | cons a l ih =>
    rw [List.map_cons, List.mapM_cons, h a List.mem_cons_self,
      ih fun b hb => h b (List.mem_cons_of_mem a hb)]
    rfl

theorem mapM_append_eq_some {xs ys : List β} {us vs : List γ} (hx : xs.mapM f = some us)
    (hy : ys.mapM f = some vs) : (xs ++ ys).mapM f = some (us ++ vs) := by
  rw [List.mapM_append, hx, hy]
  rfl

end Reading

/-! ## Lines -/

/-- A line in its words. -/
structure Line where
  /-- Whether it begins with a space. -/
  indented : Bool
  /-- Its words. -/
  words : List String
  deriving DecidableEq

/-- A text as a line. -/
def Line.ofChars (cs : List Char) : Line := ⟨cs.head? = some ' ', MixedInteger.words cs⟩

/-- The lines of a text, apart from those without words. -/
def readLines (text : String) : List Line :=
  ((text.toList.splitOn '\n').map Line.ofChars).filter fun l => l.words ≠ []

/-- A text is a line, or the beginning of one, that is made of these words. -/
structure Spells (indented : Bool) (s : String) (ws : List String) : Prop where
  head : decide (s.toList.head? = some ' ') = indented
  ne_nil : s.toList ≠ []
  noBreak : '\n' ∉ s.toList
  words_eq : words s.toList = ws

/-- A text between two words, with its own words. -/
structure IsGap (s : String) (ws : List String) : Prop where
  head : s.toList.head? = some ' '
  last : s.toList.getLast? = some ' '
  noBreak : '\n' ∉ s.toList
  words_eq : words s.toList = ws

/-- A text is one line, which has words. -/
structure IsLine (indented : Bool) (s : String) (ws : List String) : Prop extends
  Spells indented s ws where
  words_ne_nil : ws ≠ []

instance (b : Bool) (s : String) (ws : List String) : Decidable (Spells b s ws) :=
  decidable_of_iff (decide (s.toList.head? = some ' ') = b ∧ s.toList ≠ [] ∧ '\n' ∉ s.toList ∧
      words s.toList = ws)
    ⟨fun h => ⟨h.1, h.2.1, h.2.2.1, h.2.2.2⟩, fun h => ⟨h.head, h.ne_nil, h.noBreak, h.words_eq⟩⟩

instance (s : String) (ws : List String) : Decidable (IsGap s ws) :=
  decidable_of_iff (s.toList.head? = some ' ' ∧ s.toList.getLast? = some ' ' ∧ '\n' ∉ s.toList ∧
      words s.toList = ws)
    ⟨fun h => ⟨h.1, h.2.1, h.2.2.1, h.2.2.2⟩, fun h => ⟨h.head, h.last, h.noBreak, h.words_eq⟩⟩

instance (b : Bool) (s : String) (ws : List String) : Decidable (IsLine b s ws) :=
  decidable_of_iff (Spells b s ws ∧ ws ≠ [])
    ⟨fun h => ⟨h.1, h.2⟩, fun h => ⟨h.toSpells, h.words_ne_nil⟩⟩

namespace Spells

variable {b : Bool} {s t w : String} {ws gs : List String}

/-- **A line goes on** after a space, or with a space. -/
theorem append (h : Spells b s ws)
    (hsep : s.toList.getLast? = some ' ' ∨ t.toList.head? = some ' ') (ht : '\n' ∉ t.toList) :
    Spells b (s ++ t) (ws ++ words t.toList) := by
  refine ⟨?_, ?_, ?_, ?_⟩
  · rw [String.toList_append, List.head?_append_of_ne_nil _ h.ne_nil]
    exact h.head
  · rw [String.toList_append]
    exact List.append_ne_nil_of_left_ne_nil h.ne_nil _
  · rw [String.toList_append, List.mem_append]
    exact fun hn => hn.elim h.noBreak ht
  · rw [String.toList_append, ← h.words_eq]
    exact hsep.elim words_append_of_getLast? words_append_of_head?

/-- A word after a space. -/
theorem word (h : Spells b s ws) (hs : s.toList.getLast? = some ' ') (hw : IsWord w) :
    Spells b (s ++ w) (ws ++ [w]) := by
  rw [← words_of_isWord hw]
  exact h.append (.inl hs) hw.noBreak

/-- A word after a gap. -/
theorem next (h : Spells b s ws) (ht : IsGap t gs) (hw : IsWord w) :
    Spells b (s ++ t ++ w) (ws ++ gs ++ [w]) := by
  refine word (ht.words_eq ▸ h.append (.inr ht.head) ht.noBreak) ?_ hw
  rw [String.toList_append, List.getLast?_append, ht.last, Option.some_or]

end Spells

theorem isGap_spaces : IsGap "  " [] := by decide

namespace IsLine

variable {b : Bool} {s t w : String} {ws gs : List String}

/-- A line that ends in a word. -/
theorem of_start (s : String) (ws : List String) (hs : Spells b s ws)
    (hlast : s.toList.getLast? = some ' ') (hw : IsWord w) : IsLine b (s ++ w) (ws ++ [w]) :=
  ⟨hs.word hlast hw, List.append_ne_nil_of_right_ne_nil _ (List.cons_ne_nil _ _)⟩

/-- A line that goes on with a gap and a word. -/
theorem next (h : IsLine b s ws) (ht : IsGap t gs) (hw : IsWord w) :
    IsLine b (s ++ t ++ w) (ws ++ gs ++ [w]) :=
  ⟨h.toSpells.next ht hw, List.append_ne_nil_of_right_ne_nil _ (List.cons_ne_nil _ _)⟩

end IsLine

theorem readLines_cons {b : Bool} {s : String} {ws : List String} (h : IsLine b s ws)
    (ls : List String) : readLines (linesText (s :: ls)) = ⟨b, ws⟩ :: readLines (linesText ls) := by
  have hsplit : ((s ++ "\n") ++ linesText ls).toList.splitOn '\n' =
      s.toList :: (linesText ls).toList.splitOn '\n' := by
    rw [String.toList_append, String.toList_append]
    change (s.toList ++ ['\n'] ++ (linesText ls).toList).splitOn '\n' = _
    rw [List.append_assoc, List.singleton_append,
      List.splitOn_append_cons_self_of_not_mem h.noBreak]
  have htext : linesText (s :: ls) = (s ++ "\n") ++ linesText ls := by
    rw [← String.toList_inj]
    simp [linesText, String.toList_join]
  have hline : Line.ofChars s.toList = ⟨b, ws⟩ := by rw [Line.ofChars, h.head, h.words_eq]
  rw [readLines, htext, hsplit, List.map_cons, List.filter_cons_of_pos, hline]
  · rfl
  · rw [hline]
    exact decide_eq_true h.words_ne_nil

theorem readLines_nil : readLines (linesText []) = [] := by
  decide

/-! ## Sections -/

/-- A heading and the lines below it. -/
abbrev Section := List String × List (List String)

/-- The words of a line that is a heading. -/
def Line.heading? (l : Line) : Option (List String) := if l.indented then none else some l.words

/-- The sections of a text. -/
def sections (text : String) : List Section :=
  (chunks Line.heading? (readLines text)).2.map fun s => (s.1, s.2.map Line.words)

/-- The lines below a heading that begins with a word. -/
def bodyOf (heading : String) (ss : List Section) : List (List String) :=
  ((ss.find? fun s => s.1.head? = some heading).map Prod.snd).getD []

/-- A heading and the lines below it, as they stand in a text, are a section. -/
structure IsSection (s : String × List String) (w : Section) : Prop where
  heading : IsLine false s.1 w.1
  body : List.Forall₂ (IsLine true) s.2 w.2

theorem IsSection.of_body {s : String} {w : List String} (h : IsLine false s w) {ss : List String}
    {ws : List (List String)} (hs : List.Forall₂ (IsLine true) ss ws) : IsSection (s, ss) (w, ws) :=
  ⟨h, hs⟩

theorem readLines_append {b : Bool} {ss : List String} {ws : List (List String)}
    (h : List.Forall₂ (IsLine b) ss ws) (ls : List String) :
    readLines (linesText (ss ++ ls)) = ws.map (Line.mk b) ++ readLines (linesText ls) := by
  induction h with
  | nil => rfl
  | cons h _ ih => rw [List.cons_append, readLines_cons h, ih, List.map_cons, List.cons_append]

theorem forall₂_map {α β γ : Type} {R : β → γ → Prop} {f : α → β} {g : α → γ} {l : List α}
    (h : ∀ a ∈ l, R (f a) (g a)) : List.Forall₂ R (l.map f) (l.map g) := by
  rw [List.forall₂_map_left_iff, List.forall₂_map_right_iff]
  exact List.forall₂_same.2 h

/-- **A text that is put together from sections has these sections.** -/
theorem sections_linesText {ss : List (String × List String)} {ws : List Section}
    (h : List.Forall₂ IsSection ss ws) :
    sections (linesText (ss.flatMap fun s => s.1 :: s.2)) = ws := by
  have hlines : readLines (linesText (ss.flatMap fun s => s.1 :: s.2)) =
      ws.flatMap fun w => Line.mk false w.1 :: w.2.map (Line.mk true) := by
    induction h with
    | nil => exact readLines_nil
    | cons h _ ih =>
      rw [List.flatMap_cons, List.flatMap_cons, List.cons_append, readLines_cons h.heading,
        readLines_append h.body, ih, List.cons_append]
  have hbody : ∀ w ∈ ws, ∀ l ∈ w.2.map (Line.mk true), l.heading? = none := by
    intro w _ l hl
    obtain ⟨_, _, rfl⟩ := List.mem_map.1 hl
    rfl
  have hchunks := chunks_flatMap Line.heading? (fun w => Line.mk false w.1) Prod.fst
    (fun _ _ => rfl) hbody
  rw [sections, hlines, hchunks, List.map_map]
  conv_rhs => rw [← List.map_id ws]
  refine List.map_congr_left fun w _ => ?_
  simp [Function.comp_def]

end MixedInteger
