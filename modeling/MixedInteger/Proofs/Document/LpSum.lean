import MixedInteger.Document.LpFile
import MixedInteger.Proofs.Number.Printed

/-!
# Reading signed sums

In the row-wise text a sum is a line of words.  A sign stands on its own between two terms and is
joined to the first one, a magnitude of one is left out, and a number without a name is a constant.
This file reads such sums, and proves that the terms of a written sum are found again in their
order.

## What is here

* `tokens` — a sign in front of a word becomes a word of its own.
* `readSum` — the terms and constants of a sum.
* `leading` — a part of a sum whose sign is joined to its first word.
* `LpTerm.IsPlain` — terms that can be written.
* `LpTerm.readSum_sumText` — a written sum is read term by term, whatever sign comes first.
-/

set_option autoImplicit false

namespace MixedInteger

/-! ## The reader -/

/-- A word, with a sign in front of it as a word of its own. -/
def splitSign (w : String) : List String :=
  match w.toList with
  | '-' :: c :: cs => ["-", String.ofList (c :: cs)]
  | _ => [w]

/-- Words, with the signs in front of them as words of their own. -/
def tokens (ws : List String) : List String := ws.flatMap splitSign

/-- Whether a word is a sign, and whether it is the negative one. -/
def sign? (w : String) : Option Bool :=
  if w = "+" then some false else if w = "-" then some true else none

/-- Whether a word is a number and not a name. -/
def isNumeric (w : String) : Bool :=
  match w.toList with
  | c :: _ => c.isDigit
  | [] => false

/-- A number with a sign. -/
def signed (negative : Bool) (x : Extended ℚ) : Extended ℚ := if negative then -x else x

/-- A number, and the name that it is the coefficient of, if it is one. -/
abbrev Summand := Extended ℚ × Option String

/-- The term or the constant after a sign. -/
def readSummand : Bool × List String → Option Summand
  | (negative, [w]) =>
    if isNumeric w then (readNumber w).map fun x => (signed negative x, none)
    else some (signed negative (.finite 1), some w)
  | (negative, [number, name]) => (readNumber number).map fun x => (signed negative x, some name)
  | _ => none

/-- The terms and the constants of a sum; what stands before the first sign is positive. -/
def readSum (ws : List String) : Option (List Summand) :=
  let parts := chunks sign? (tokens ws)
  ((if parts.1 = [] then [] else [(false, parts.1)]) ++ parts.2).mapM readSummand

/-- The terms of a sum. -/
def termsOf (ss : List Summand) : List (Extended ℚ × String) :=
  ss.filterMap fun s => s.2.map (s.1, ·)

/-- The constant of a sum. -/
def constantOf (ss : List Summand) : Extended ℚ :=
  ((ss.filter fun s => s.2 = none).map Prod.fst).sum

/-! ## Signs and words -/

/-- A word without a sign in front of it, and no sign itself. -/
structure IsBare (w : String) : Prop extends IsWord w where
  head : ∃ c cs, w.toList = c :: cs ∧ (isLetter c = true ∨ c.isDigit = true)

theorem IsBare.ne_minus {w : String} (h : IsBare w) {c : Char} {cs : List Char}
    (hw : w.toList = c :: cs) : c ≠ '-' ∧ c ≠ '+' := by
  obtain ⟨d, ds, hd, hor⟩ := h.head
  obtain ⟨rfl, -⟩ := List.cons.inj (hw.symm.trans hd)
  constructor
  all_goals
    rintro rfl
    revert hor
    decide

theorem IsBare.splitSign {w : String} (h : IsBare w) : splitSign w = [w] := by
  unfold MixedInteger.splitSign
  split
  next c cs hw => exact absurd rfl (h.ne_minus hw).1
  next => rfl

theorem IsBare.sign? {w : String} (h : IsBare w) : sign? w = none := by
  obtain ⟨c, cs, hw, -⟩ := h.head
  have hne := h.ne_minus hw
  have hplus : w ≠ "+" := by
    rintro rfl
    exact hne.2 (List.cons.inj hw).1.symm
  have hminus : w ≠ "-" := by
    rintro rfl
    exact hne.1 (List.cons.inj hw).1.symm
  rw [MixedInteger.sign?, if_neg hplus, if_neg hminus]

/-- A word with a minus in front of it is a word. -/
theorem IsWord.minus {w : String} (h : IsWord w) : IsWord ("-" ++ w) := by
  refine ⟨by simp, ?_, ?_⟩
  · simpa using h.noSpace
  · simpa using h.noBreak

theorem IsBare.splitSign_minus {w : String} (h : IsBare w) :
    MixedInteger.splitSign ("-" ++ w) = ["-", w] := by
  obtain ⟨c, cs, hw, -⟩ := h.head
  have hminus : ("-" ++ w).toList = '-' :: c :: cs := by rw [String.toList_append, hw]; rfl
  rw [MixedInteger.splitSign, hminus]
  exact congrArg (fun s => ["-", s]) (by rw [← hw, String.ofList_toList])

theorem isBare_of_isIdentifier {s : String} (h : isIdentifier s = true) : IsBare s := by
  obtain ⟨c, cs, hs, hc⟩ := head_of_isIdentifier h
  exact ⟨isWord_of_isIdentifier h, c, cs, hs, .inl hc⟩

/-- An identifier is a name and not a number. -/
theorem isNumeric_of_isIdentifier {s : String} (h : isIdentifier s = true) :
    isNumeric s = false := by
  obtain ⟨c, cs, hs, hc⟩ := head_of_isIdentifier h
  rw [isNumeric, hs]
  exact isDigit_of_isLetter hc

/-- A number is a word without a sign, or such a word after a minus. -/
theorem splitSign_number {w : String} {x : Extended ℚ} (h : readNumber w = some x) :
    IsBare w ∨ ∃ u, w = "-" ++ u ∧ IsBare u ∧ readNumber u = some (-x) := by
  have hword := isWord_of_readNumber h
  unfold readNumber readChars at h
  split at h
  next cs hs =>
    right
    obtain ⟨y, hy, rfl⟩ := Option.map_eq_some_iff.1 h
    obtain ⟨c, ds, rfl, hc⟩ := head_of_readMagnitude hy
    have hread : readNumber (String.ofList (c :: ds)) = some (- -y) := by
      rw [readNumber, String.toList_ofList, readChars, hy, neg_neg]
      rintro es ⟨⟩
      revert hc
      decide
    refine ⟨_, ?_, ⟨isWord_of_readNumber hread, c, ds, String.toList_ofList, hc⟩, hread⟩
    rw [← String.toList_inj, String.toList_append, hs]
    exact congrArg ('-' :: ·) String.toList_ofList.symm
  next =>
    obtain ⟨c, ds, hs, hc⟩ := head_of_readMagnitude h
    exact .inl ⟨hword, c, ds, hs, hc⟩

/-- A finite number without a sign is not taken for a name. -/
theorem IsBare.isNumeric {w : String} (hw : IsBare w) {q : ℚ}
    (h : readNumber w = some (.finite q)) : isNumeric w = true := by
  unfold readNumber readChars at h
  split at h
  next cs hs => exact absurd rfl (hw.ne_minus hs).1
  next =>
    obtain ⟨c, ds, hs, hc⟩ := head_isDigit_of_readMagnitude h
    rw [MixedInteger.isNumeric, hs]
    exact hc

/-! ## Parts of a sum -/

/-- The word of a sign. -/
def signWord (negative : Bool) : String := if negative then "-" else "+"

theorem sign?_signWord (negative : Bool) : sign? (signWord negative) = some negative := by
  cases negative <;> rfl

theorem splitSign_signWord (negative : Bool) :
    splitSign (signWord negative) = [signWord negative] := by
  cases negative <;> decide

/-- Parts of a sum with the words of their signs. -/
def spelled (parts : List (Bool × List String)) : List String :=
  parts.flatMap fun p => signWord p.1 :: p.2

/-- The words of a signed part in front of all others. -/
def leading : Bool × List String → List String
  | (true, w :: ws) => ("-" ++ w) :: ws
  | (_, ws) => ws

/-- Words are the signed parts of a sum, where the first part may do without a plus. -/
def AreParts (ws : List String) (parts : List (Bool × List String)) : Prop :=
  ws = spelled parts ∨ ∃ first rest, parts = (false, first) :: rest ∧ ws = first ++ spelled rest

/-- The words of a part have no sign. -/
def IsPart (p : Bool × List String) : Prop := p.2 ≠ [] ∧ ∀ w ∈ p.2, IsBare w

/-- **A sum is read part by part.** -/
theorem readSum_eq {ws : List String} {parts : List (Bool × List String)}
    (hws : AreParts (tokens ws) parts) (hparts : ∀ p ∈ parts, IsPart p) :
    readSum ws = parts.mapM readSummand := by
  have hchunks : ∀ ps : List (Bool × List String), (∀ p ∈ ps, IsPart p) →
      chunks sign? (spelled ps) = ([], ps) := by
    intro ps hps
    have hflat := chunks_flatMap sign? (fun p : Bool × List String => signWord p.1) Prod.fst
      (fun p _ => sign?_signWord p.1) fun p hp w hw => ((hps p hp).2 w hw).sign?
    rw [spelled, hflat, List.map_id'' fun _ => rfl]
  rcases hws with hws | ⟨first, rest, rfl, hws⟩
  · rw [readSum, hws, hchunks parts hparts]
    rfl
  · have hfirst := hparts _ List.mem_cons_self
    have hrest := hchunks rest fun p hp => hparts p (List.mem_cons_of_mem _ hp)
    rw [readSum, hws, chunks_append fun w hw => (hfirst.2 w hw).sign?, hrest, List.append_nil]
    dsimp only
    rw [if_neg hfirst.1]
    rfl

theorem readNumber_zero : readNumber "0" = some (.finite 0) := by
  have hread : Decimal.read "0".toList = some ⟨0, 0⟩ := by decide
  rw [readNumber, readChars_of_read hread]
  simp [Decimal.value]

/-- A number after a sign is a constant, unless it is taken for a name. -/
theorem exists_readSummand {w : String} {x : Extended ℚ} (h : readNumber w = some x)
    (negative : Bool) : ∃ s, readSummand (negative, [w]) = some s ∧
      (isNumeric w = true → s = (signed negative x, none)) := by
  rw [readSummand]
  split
  next => exact ⟨_, by rw [h]; rfl, fun _ => rfl⟩
  next hw => exact ⟨_, rfl, fun hnumeric => absurd hnumeric hw⟩

/-- A number on its own is a constant, unless it is taken for a name. -/
theorem exists_readSum_number {w : String} {x : Extended ℚ} (h : readNumber w = some x) :
    ∃ s, readSum [w] = some [s] ∧ ∀ q, x = .finite q → s = (x, none) := by
  have hread : ∀ {p : Bool × List String} {u : String} {s : Summand}, IsBare u → p.2 = [u] →
      AreParts (tokens [w]) [p] → readSummand p = some s → readSum [w] = some [s] := by
    intro p u s hu hp hparts hs
    have hpart : IsPart p := ⟨by simp [hp], by rw [hp]; exact List.forall_mem_singleton.2 hu⟩
    rw [readSum_eq hparts (List.forall_mem_singleton.2 hpart), List.mapM_cons, hs]
    rfl
  rcases splitSign_number h with hbare | ⟨u, rfl, hbare, hu⟩
  · obtain ⟨s, hs, hnumeric⟩ := exists_readSummand h false
    refine ⟨s, hread hbare rfl (.inr ⟨[w], [], rfl, ?_⟩) hs, ?_⟩
    · rw [tokens, List.flatMap_singleton, hbare.splitSign]
      rfl
    · rintro q rfl
      exact hnumeric (hbare.isNumeric h)
  · obtain ⟨s, hs, hnumeric⟩ := exists_readSummand hu true
    refine ⟨s, hread hbare rfl (.inl ?_) hs, ?_⟩
    · rw [tokens, List.flatMap_singleton, hbare.splitSign_minus]
      rfl
    · rintro q rfl
      rw [hnumeric (hbare.isNumeric hu), signed, if_pos rfl, neg_neg]

theorem tokens_append (ws vs : List String) : tokens (ws ++ vs) = tokens ws ++ tokens vs :=
  List.flatMap_append

/-- Words without signs in front of them stay as they are. -/
theorem tokens_of_isBare {ws : List String} (h : ∀ w ∈ ws, IsBare w) : tokens ws = ws := by
  have hsplit : ∀ w ∈ ws, splitSign w = [w] := fun w hw => (h w hw).splitSign
  rw [tokens, List.flatMap_congr hsplit, List.flatMap_singleton']

/-- The sign that is joined to a word becomes a word again. -/
theorem tokens_leading {p : Bool × List String} (h : IsPart p) :
    tokens (leading p) = (if p.1 then ["-"] else []) ++ p.2 := by
  obtain ⟨negative, ws⟩ := p
  cases ws with
  | nil => exact absurd rfl h.1
  | cons w ws =>
    cases negative with
    | false => exact tokens_of_isBare h.2
    | true =>
      obtain ⟨hw, hws⟩ := List.forall_mem_cons.1 h.2
      rw [leading, tokens, List.flatMap_cons, hw.splitSign_minus]
      exact congrArg (["-", w] ++ ·) (tokens_of_isBare hws)

theorem tokens_spelled {parts : List (Bool × List String)} (h : ∀ p ∈ parts, IsPart p) :
    tokens (spelled parts) = spelled parts := by
  have hpart : ∀ p ∈ parts, tokens (signWord p.1 :: p.2) = signWord p.1 :: p.2 := by
    intro p hp
    rw [tokens, List.flatMap_cons, splitSign_signWord]
    exact congrArg (signWord p.1 :: ·) (tokens_of_isBare (h p hp).2)
  rw [tokens, spelled, List.flatMap_assoc]
  exact List.flatMap_congr hpart

/-! ## Terms -/

variable {K : Type} [Arithmetic K]

open Arithmetic

namespace LpTerm

/-- A term that can be written: its name is an identifier, and its magnitude has no sign. -/
structure IsPlain (t : LpTerm K) : Prop where
  name : isIdentifier t.name = true
  magnitude : IsBare (numberText t.magnitude)

/-- The words of a term without its sign. -/
def words (t : LpTerm K) : List String :=
  if eq t.magnitude one then [t.name] else [numberText t.magnitude, t.name]

/-- A term as a part of a sum. -/
def part (t : LpTerm K) : Bool × List String := (t.negative, t.words)

variable [Printed K]

/-- A term as a reader finds it. -/
def summand (t : LpTerm K) : Summand :=
  (signed t.negative (Printed.printed t.magnitude), some t.name)

/-! ### The words of a term -/

section Words

variable {t : LpTerm K} (h : IsWord t.name)

include h

theorem words_body : MixedInteger.words t.body.toList = t.words := by
  unfold body words
  split
  · exact words_of_isWord h
  · have hchars : (numberText t.magnitude ++ " " ++ t.name).toList =
        (numberText t.magnitude).toList ++ ' ' :: t.name.toList := by simp
    rw [hchars, words_append_space, words_of_isWord (isWord_numberText _), words_of_isWord h,
      List.singleton_append]

theorem noBreak_body : '\n' ∉ t.body.toList := by
  unfold body
  split
  · exact h.noBreak
  · simp [h.noBreak, (isWord_numberText t.magnitude).noBreak]

omit h [Printed K] in
theorem toList_followingText (t : LpTerm K) : t.followingText.toList =
    (if t.negative then [' ', '-'] else [' ', '+']) ++ ' ' :: t.body.toList := by
  unfold followingText
  cases t.negative <;> simp

/-- The sign of a term after another one is a word of its own. -/
theorem words_followingText :
    MixedInteger.words t.followingText.toList = signWord t.negative :: t.words := by
  rw [toList_followingText, words_append_space, words_body h]
  cases t.negative <;> rfl

/-- The sign of the first term is joined to its first word. -/
theorem words_leadingText :
    MixedInteger.words t.leadingText.toList = leading t.part := by
  unfold leadingText part
  cases t.negative with
  | false =>
    rw [if_neg Bool.false_ne_true, String.empty_append, words_body h]
    rfl
  | true =>
    rw [if_pos rfl]
    unfold body words
    split
    · rw [words_of_isWord h.minus]
      rfl
    · have hchars : ("-" ++ (numberText t.magnitude ++ " " ++ t.name)).toList =
          ("-" ++ numberText t.magnitude).toList ++ ' ' :: t.name.toList := by simp
      rw [hchars, words_append_space, words_of_isWord (isWord_numberText _).minus,
        words_of_isWord h]
      rfl

theorem noBreak_leadingText : '\n' ∉ t.leadingText.toList := by
  unfold leadingText
  cases t.negative <;> simp [noBreak_body h]

theorem noBreak_followingText : '\n' ∉ t.followingText.toList := by
  rw [toList_followingText]
  cases t.negative <;> simp [noBreak_body h]

end Words

namespace IsPlain

variable {t : LpTerm K}

omit [Printed K] in
theorem isWord (h : t.IsPlain) : IsWord t.name := isWord_of_isIdentifier h.name

omit [Printed K] in
theorem isBare (h : t.IsPlain) : ∀ w ∈ t.words, IsBare w := by
  have hname := isBare_of_isIdentifier h.name
  unfold words
  split
  · exact List.forall_mem_singleton.2 hname
  · exact List.forall_mem_cons.2 ⟨h.magnitude, List.forall_mem_singleton.2 hname⟩

omit [Printed K] in
theorem isPart (h : t.IsPlain) : IsPart t.part := by
  refine ⟨?_, h.isBare⟩
  unfold part words
  split <;> exact List.cons_ne_nil _ _

/-- **A term is read as it is**; a magnitude of one is understood. -/
theorem readSummand (h : t.IsPlain) : MixedInteger.readSummand t.part = some t.summand := by
  unfold part words
  split
  next hone =>
    simp [MixedInteger.readSummand, isNumeric_of_isIdentifier h.name, summand,
      Printed.printed_of_eq hone, Printed.printed_one]
  next => simp [MixedInteger.readSummand, Printed.readNumber_numberText, summand]

/-- The sign of the first term is joined to it. -/
theorem tokens_leadingText (h : t.IsPlain) :
    tokens (MixedInteger.words t.leadingText.toList) =
      (if t.negative then ["-"] else []) ++ t.words := by
  rw [words_leadingText h.isWord]
  exact tokens_leading h.isPart

end IsPlain

/-! ## Sums of terms -/

variable {ts : List (LpTerm K)}

theorem noBreak_sumText (h : ∀ t ∈ ts, IsWord t.name) : '\n' ∉ (sumText ts).toList := by
  cases ts with
  | nil => simp [sumText]
  | cons t ts =>
    have hrest : ∀ u ∈ ts, '\n' ∉ u.followingText.toList := fun u hu =>
      noBreak_followingText (h u (List.mem_cons_of_mem t hu))
    simpa [sumText, String.toList_join, noBreak_leadingText (h t List.mem_cons_self)] using hrest

/-- The words of the terms after what stands before them. -/
theorem words_append_join (h : ∀ t ∈ ts, IsWord t.name) (cs : List Char) :
    MixedInteger.words (cs ++ (String.join (ts.map followingText)).toList) =
      MixedInteger.words cs ++ spelled (ts.map part) := by
  induction ts generalizing cs with
  | nil => simp [String.join, spelled]
  | cons t ts ih =>
    have ht := h t List.mem_cons_self
    have hjoin : (String.join ((t :: ts).map followingText)).toList =
        t.followingText.toList ++ (String.join (ts.map followingText)).toList := by
      simp [String.toList_join]
    have hhead : t.followingText.toList.head? = some ' ' := by
      rw [toList_followingText]
      cases t.negative <;> rfl
    rw [hjoin, ← List.append_assoc, ih (fun u hu => h u (List.mem_cons_of_mem t hu)),
      words_append_of_head? hhead, words_followingText ht, List.append_assoc]
    rfl

/-- **A written sum is its terms**, followed by whatever else is added. -/
theorem areParts_sumText (h : ∀ t ∈ ts, t.IsPlain) (hne : ts ≠ [])
    {extra : List (Bool × List String)} (hextra : ∀ p ∈ extra, IsPart p) :
    AreParts (tokens (MixedInteger.words (sumText ts).toList ++ spelled extra))
      (ts.map part ++ extra) := by
  cases ts with
  | nil => exact absurd rfl hne
  | cons t ts =>
    have ht := h t List.mem_cons_self
    have hrest : ∀ p ∈ ts.map part, IsPart p := List.forall_mem_map.2 fun u hu =>
      (h u (List.mem_cons_of_mem t hu)).isPart
    have htokens : tokens (MixedInteger.words (sumText (t :: ts)).toList ++ spelled extra) =
        (if t.negative then ["-"] else []) ++ t.words ++ spelled (ts.map part ++ extra) := by
      rw [sumText, String.toList_append,
        words_append_join fun u hu => (h u (List.mem_cons_of_mem t hu)).isWord, tokens_append,
        tokens_append, ht.tokens_leadingText, tokens_spelled hrest, tokens_spelled hextra,
        List.append_assoc, spelled, spelled, spelled, List.flatMap_append]
    rw [htokens]
    cases hn : t.negative with
    | false => exact .inr ⟨t.words, ts.map part ++ extra, by rw [List.map_cons, part, hn]; rfl, rfl⟩
    | true => exact .inl (by rw [List.map_cons, part, hn]; rfl)

/-- **A written sum is read term by term.** -/
theorem readSum_sumText (h : ∀ t ∈ ts, t.IsPlain) (hne : ts ≠ [])
    {extra : List (Bool × List String)} (hextra : ∀ p ∈ extra, IsPart p) {ss : List Summand}
    (hss : extra.mapM MixedInteger.readSummand = some ss) :
    readSum (MixedInteger.words (sumText ts).toList ++ spelled extra) =
      some (ts.map summand ++ ss) := by
  have hparts : ∀ p ∈ ts.map part ++ extra, IsPart p :=
    List.forall_mem_append.2 ⟨List.forall_mem_map.2 fun t ht => (h t ht).isPart, hextra⟩
  rw [readSum_eq (areParts_sumText h hne hextra) hparts]
  exact mapM_append_eq_some (mapM_map_eq_some fun t ht => (h t ht).readSummand) hss

omit [Printed K] in
/-- Only a sum without terms is empty. -/
theorem sumText_eq_empty (h : ∀ t ∈ ts, IsWord t.name) (hempty : sumText ts = "") : ts = [] := by
  cases ts with
  | nil => rfl
  | cons t ts =>
    have hbody : t.body.toList = [] := by simp_all [sumText, leadingText]
    unfold body at hbody
    split at hbody
    · exact absurd hbody (h t List.mem_cons_self).ne_nil
    · simp at hbody

end LpTerm

/-! ## What a sum says -/

theorem termsOf_append (ss us : List Summand) : termsOf (ss ++ us) = termsOf ss ++ termsOf us :=
  List.filterMap_append

theorem constantOf_append (ss us : List Summand) :
    constantOf (ss ++ us) = constantOf ss + constantOf us := by
  rw [constantOf, constantOf, constantOf, List.filter_append, List.map_append, List.sum_append]

variable [Printed K]

theorem termsOf_map_summand (ts : List (LpTerm K)) :
    termsOf (ts.map LpTerm.summand) =
      ts.map fun t => (signed t.negative (Printed.printed t.magnitude), t.name) := by
  rw [termsOf, List.filterMap_map]
  exact congrFun List.filterMap_eq_map ts

theorem constantOf_map_summand (ts : List (LpTerm K)) : constantOf (ts.map LpTerm.summand) = 0 := by
  have hnone : (ts.map LpTerm.summand).filter (fun s => s.2 = none) = [] :=
    List.filter_eq_nil_iff.2 fun s hs => by
      obtain ⟨t, -, rfl⟩ := List.mem_map.1 hs
      simp [LpTerm.summand]
  rw [constantOf, hnone]
  rfl

/-- Terms alone are read as these terms, without a constant. -/
theorem LpTerm.exists_readSum_sumText {ts : List (LpTerm K)} (h : ∀ t ∈ ts, t.IsPlain)
    (hne : ts ≠ []) : ∃ ss, readSum (MixedInteger.words (sumText ts).toList) = some ss ∧
      termsOf ss = ts.map (fun t => (signed t.negative (Printed.printed t.magnitude), t.name)) ∧
      constantOf ss = 0 := by
  have hread := readSum_sumText h hne (List.forall_mem_nil IsPart)
    (rfl : [].mapM MixedInteger.readSummand = some [])
  rw [spelled, List.flatMap_nil, List.append_nil, List.reverse_nil, List.append_nil] at hread
  exact ⟨_, hread, termsOf_map_summand ts, constantOf_map_summand ts⟩

/-- The sign and the magnitude of a number are the number. -/
theorem signed_printed_abs (x : K) :
    signed (lt x zero) (Printed.printed (abs x)) = Printed.printed x := by
  rw [signed, Printed.printed_abs]
  cases lt x zero with
  | false => rfl
  | true => exact neg_neg _

end MixedInteger
