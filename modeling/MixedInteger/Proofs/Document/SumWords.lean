import MixedInteger.Proofs.Document.LpSum
import MixedInteger.Proofs.Number.SmallInteger

/-!
# The words of a sum determine its terms

Nothing but its position tells a name from a sign in the row-wise text: `+` and `a:` can be names.
As long as no name is a number or begins with a minus, the words of a sum still have one reading
only, and a sum that is cut after a colon leaves something that is not a sum.

## What is here

* `IsNumeral`, `IsTermName` — words for magnitudes, and names that are not taken for anything else.
* `IsSum` — the signed parts of a sum.
* `joined` — the words of a sum, where the sign in front is joined to the first word.
* `IsSum.eq_of_spelled_eq`, `IsSum.eq_of_joined_eq` — the words of a sum determine its parts.
* `IsSum.joined_ne_append` — what comes after a word with a colon is not a sum.
* `LpTerm.words_sumText` — the words of a written sum.
-/

set_option autoImplicit false

namespace MixedInteger

open Arithmetic

/-! ## Numerals and names -/

/-- A word that a small integer is written as, without its sign. -/
def IsNumeral (w : String) : Prop :=
  ∃ x : Float, Double.IsSmallInteger x ∧ numberText (abs x) = w

/-- A name that is one word, without a minus in front of it, and no numeral. -/
structure IsTermName (s : String) : Prop extends IsWord s where
  noMinus : s.toList.head? ≠ some '-'
  notNumeral : ¬IsNumeral s

theorem IsNumeral.readMagnitude {w : String} (h : IsNumeral w) :
    ∃ q, MixedInteger.readMagnitude w.toList = some (.finite q) := by
  obtain ⟨x, hx, rfl⟩ := h
  obtain ⟨n, -, hn⟩ := hx.abs
  refine ⟨n, ?_⟩
  rw [Printed.readMagnitude_numberText (Printed.lt_abs_zero x), hx.abs.printed_eq, hn]

/-- A numeral begins with a digit. -/
theorem IsNumeral.head {w : String} (h : IsNumeral w) :
    ∃ c cs, w.toList = c :: cs ∧ c.isDigit = true :=
  have ⟨_, hq⟩ := h.readMagnitude
  head_isDigit_of_readMagnitude hq

theorem IsNumeral.noMinus {w : String} (h : IsNumeral w) : w.toList.head? ≠ some '-' := by
  obtain ⟨c, cs, hw, hc⟩ := h.head
  rw [hw]
  rintro ⟨⟩
  cases hc

theorem IsNumeral.ne_empty {w : String} (h : IsNumeral w) : w ≠ "" := by
  obtain ⟨c, cs, hw, -⟩ := h.head
  rintro rfl
  cases hw

/-- A numeral is no sign. -/
theorem IsNumeral.ne_signWord {w : String} (h : IsNumeral w) (negative : Bool) :
    w ≠ signWord negative := by
  obtain ⟨c, cs, hw, hc⟩ := h.head
  rintro rfl
  cases negative <;> cases hw <;> cases hc

theorem IsNumeral.minus_ne_signWord {w : String} (h : IsNumeral w) (negative : Bool) :
    "-" ++ w ≠ signWord negative := by
  obtain ⟨c, cs, hw, -⟩ := h.head
  intro hsign
  have hchars := congrArg String.toList hsign
  rw [String.toList_append, hw] at hchars
  cases negative <;> cases hchars

/-- A word that ends in a colon. -/
def EndsInColon (w : String) : Prop := w.toList.getLast? = some ':'

theorem not_endsInColon_signWord (negative : Bool) : ¬EndsInColon (signWord negative) := by
  cases negative <;> exact nofun

theorem IsNumeral.not_endsInColon {w : String} (h : IsNumeral w) : ¬EndsInColon w := by
  obtain ⟨q, hq⟩ := h.readMagnitude
  intro hcolon
  have hmem := List.mem_of_getLast? hcolon
  unfold MixedInteger.readMagnitude at hq
  split at hq
  · cases hq
  split at hq
  · cases hq
  obtain ⟨d, hd, -⟩ := Option.map_eq_some_iff.1 hq
  cases Decimal.isNumeral_of_read hd hmem

theorem isNumeral_zero : IsNumeral "0" :=
  ⟨(zero : Float), ⟨0, by decide, Printed.exact_zero.trans (by simp)⟩, by decide +kernel⟩

/-- A word that begins with neither a minus nor a digit is not taken for anything else. -/
theorem IsWord.isTermName {s : String} (h : IsWord s) (hminus : s.toList.head? ≠ some '-')
    (hnumeric : isNumeric s = false) : IsTermName s := by
  refine ⟨h, hminus, fun hnumeral => ?_⟩
  obtain ⟨c, cs, hs, hc⟩ := hnumeral.head
  rw [isNumeric, hs] at hnumeric
  exact absurd hc (by simp [hnumeric])

/-! ## Sums -/

/-- The words of a term: a name, perhaps after a numeral. -/
inductive IsTermWords : List String → Prop where
  | name {name : String} (hn : IsTermName name) : IsTermWords [name]
  | scaled {number name : String} (hx : IsNumeral number) (hn : IsTermName name) :
    IsTermWords [number, name]

/-- The signed parts of a sum: terms, and perhaps a numeral at the end. -/
inductive IsSum : List (Bool × List String) → Prop where
  | nil : IsSum []
  | constant (negative : Bool) {number : String} (hx : IsNumeral number) :
    IsSum [(negative, [number])]
  | term (negative : Bool) {ws : List String} (hws : IsTermWords ws)
    {ps : List (Bool × List String)} (h : IsSum ps) : IsSum ((negative, ws) :: ps)

/-- The words of a sum in which the first part has its sign joined to it, unless it is a plus. -/
def joined : List (Bool × List String) → List String
  | [] => []
  | p :: ps => leading p ++ spelled ps

theorem spelled_cons (p : Bool × List String) (ps : List (Bool × List String)) :
    spelled (p :: ps) = signWord p.1 :: (p.2 ++ spelled ps) := rfl

theorem spelled_append (ps qs : List (Bool × List String)) :
    spelled (ps ++ qs) = spelled ps ++ spelled qs := List.flatMap_append

theorem joined_append {ps : List (Bool × List String)} (h : ps ≠ [])
    (qs : List (Bool × List String)) : joined (ps ++ qs) = joined ps ++ spelled qs := by
  cases ps with
  | nil => exact absurd rfl h
  | cons p ps => rw [List.cons_append, joined, joined, spelled_append, List.append_assoc]

/-! ### One reading only -/

/-- The words of a term are known from what begins with them. -/
theorem IsTermWords.append_inj {ws vs xs ys : List String} (hws : IsTermWords ws)
    (hvs : IsTermWords vs) (h : ws ++ xs = vs ++ ys) : ws = vs ∧ xs = ys := by
  cases hws with
  | name hn =>
    cases hvs with
    | name _ =>
      obtain ⟨rfl, hxs⟩ := List.cons.inj h
      exact ⟨rfl, hxs⟩
    | scaled hx _ => exact absurd ((List.cons.inj h).1 ▸ hx) hn.notNumeral
  | scaled hx _ =>
    cases hvs with
    | name hn => exact absurd ((List.cons.inj h).1 ▸ hx) hn.notNumeral
    | scaled _ _ =>
      obtain ⟨rfl, hrest⟩ := List.cons.inj h
      obtain ⟨rfl, hxs⟩ := List.cons.inj hrest
      exact ⟨rfl, hxs⟩

/-- A term is no numeral, whatever comes after it. -/
theorem IsTermWords.append_ne_singleton {ws : List String} (hws : IsTermWords ws) {number : String}
    (hx : IsNumeral number) (xs : List String) : ws ++ xs ≠ [number] := by
  cases hws with
  | name hn =>
    rintro ⟨⟩
    exact hn.notNumeral hx
  | scaled _ _ => exact nofun

theorem signWord_inj {b c : Bool} (h : signWord b = signWord c) : b = c := by
  revert b c
  decide

variable {ps qs : List (Bool × List String)}

theorem spelled_cons_inj {p q : Bool × List String} (h : spelled (p :: ps) = spelled (q :: qs)) :
    p.1 = q.1 ∧ p.2 ++ spelled ps = q.2 ++ spelled qs :=
  have ⟨hsign, hwords⟩ := List.cons.inj h
  ⟨signWord_inj hsign, hwords⟩

/-- **A spelled sum has one reading.** -/
theorem IsSum.eq_of_spelled_eq (hp : IsSum ps) (hq : IsSum qs) (h : spelled ps = spelled qs) :
    ps = qs := by
  induction hp generalizing qs with
  | nil =>
    cases hq with
    | nil => rfl
    | constant _ _ | term _ _ _ => cases h
  | constant b hx =>
    cases hq with
    | nil => cases h
    | constant c _ =>
      obtain ⟨rfl, hwords⟩ := spelled_cons_inj h
      rw [(List.cons.inj hwords).1]
    | term _ hws _ => exact absurd (spelled_cons_inj h).2.symm (hws.append_ne_singleton hx _)
  | term b hws _ ih =>
    cases hq with
    | nil => cases h
    | constant _ hx => exact absurd (spelled_cons_inj h).2 (hws.append_ne_singleton hx _)
    | term c hvs hrest =>
      obtain ⟨rfl, hwords⟩ := spelled_cons_inj h
      obtain ⟨rfl, hspelled⟩ := hws.append_inj hvs hwords
      rw [ih hrest hspelled]

/-- The first word of a part has no sign in front of it. -/
theorem IsSum.exists_head {p : Bool × List String} (h : IsSum (p :: ps)) :
    ∃ w ws, p.2 = w :: ws ∧ w.toList.head? ≠ some '-' := by
  cases h with
  | constant b hx => exact ⟨_, _, rfl, hx.noMinus⟩
  | term b hws _ =>
    cases hws with
    | name hn => exact ⟨_, _, rfl, hn.noMinus⟩
    | scaled hx _ => exact ⟨_, _, rfl, hx.noMinus⟩

/-- A sign that is joined to a word can be told from the word. -/
theorem leading_inj {b c : Bool} {w v : String} {ws vs : List String}
    (hw : w.toList.head? ≠ some '-') (hv : v.toList.head? ≠ some '-')
    (h : leading (b, w :: ws) = leading (c, v :: vs)) : b = c ∧ w :: ws = v :: vs := by
  have hminus : ∀ s : String, ("-" ++ s).toList.head? = some '-' := fun s => by simp
  cases b with
  | false =>
    cases c with
    | false => exact ⟨rfl, h⟩
    | true => exact absurd ((List.cons.inj h).1 ▸ hminus v) hw
  | true =>
    cases c with
    | false => exact absurd ((List.cons.inj h).1 ▸ hminus w) hv
    | true =>
      obtain ⟨hhead, rfl⟩ := List.cons.inj h
      have htail := congrArg String.toList hhead
      simp only [String.toList_append, List.append_cancel_left_eq, String.toList_inj] at htail
      exact ⟨rfl, by rw [htail]⟩

theorem leading_append (b : Bool) (w : String) (ws xs : List String) :
    leading (b, w :: ws) ++ xs = leading (b, w :: (ws ++ xs)) := by
  cases b <;> rfl

/-- **A sum has one reading.** -/
theorem IsSum.eq_of_joined_eq (hp : IsSum ps) (hq : IsSum qs) (h : joined ps = joined qs) :
    ps = qs := by
  cases ps with
  | nil =>
    cases qs with
    | nil => rfl
    | cons q qs =>
      obtain ⟨c, vs⟩ := q
      obtain ⟨v, vs, rfl, -⟩ := hq.exists_head
      cases c <;> cases h
  | cons p ps =>
    obtain ⟨b, ws⟩ := p
    obtain ⟨w, ws, rfl, hw⟩ := hp.exists_head
    cases qs with
    | nil => cases b <;> cases h
    | cons q qs =>
      obtain ⟨c, vs⟩ := q
      obtain ⟨v, vs, rfl, hv⟩ := hq.exists_head
      rw [joined, joined, leading_append, leading_append] at h
      obtain ⟨rfl, hwords⟩ := leading_inj hw hv h
      refine hp.eq_of_spelled_eq hq ?_
      rw [spelled_cons, spelled_cons]
      exact congrArg (signWord b :: ·) hwords

/-! ### Nothing but the whole -/

/-- A spelled sum begins with a sign. -/
theorem IsNumeral.spelled_ne_cons {number : String} (hx : IsNumeral number)
    (ps : List (Bool × List String)) (ws : List String) : spelled ps ≠ number :: ws := by
  cases ps with
  | nil => exact nofun
  | cons p ps => exact fun h => hx.ne_signWord p.1 (List.cons.inj h).1.symm

/-- One word in front of a spelled sum makes it something else. -/
theorem IsSum.spelled_ne_cons (hp : IsSum ps) (hq : IsSum qs) (w : String) :
    spelled ps ≠ w :: spelled qs := by
  -- Without its sign the first sum is a name in front of a sum, and it is the second one: the two
  -- change places, and both have lost two words.
  induction hp generalizing qs w with
  | nil => exact nofun
  | constant b hx => exact fun h => hx.spelled_ne_cons qs [] (List.cons.inj h).2.symm
  | term b hws hrest ih =>
    intro h
    have hwords := (List.cons.inj h).2
    cases hws with
    | scaled hx _ => exact hx.spelled_ne_cons qs _ hwords.symm
    | name _ =>
      cases hq with
      | nil => cases hwords
      | constant c hx => exact hx.spelled_ne_cons _ [] (List.cons.inj hwords).2
      | term c hvs hqs =>
        have hspelled := (List.cons.inj hwords).2
        cases hvs with
        | scaled hx _ => exact hx.spelled_ne_cons _ _ hspelled
        | name _ => exact ih hqs _ hspelled

/-- A sum does not begin with a sign that stands on its own. -/
theorem IsSum.joined_ne_spelled (hp : IsSum ps) (hne : ps ≠ []) (hq : IsSum qs) :
    joined ps ≠ spelled qs := by
  have hnumeral : ∀ (b : Bool) {number : String} (xs : List String), IsNumeral number →
      leading (b, number :: xs) ≠ spelled qs := by
    intro b number xs hx h
    cases b with
    | false => exact hx.spelled_ne_cons qs xs h.symm
    | true =>
      cases qs with
      | nil => cases h
      | cons q qs => exact hx.minus_ne_signWord q.1 (List.cons.inj h).1
  cases hp with
  | nil => exact absurd rfl hne
  | constant b hx =>
    rw [joined, leading_append]
    exact hnumeral b _ hx
  | term b hws hrest =>
    rw [joined]
    cases hws with
    | name _ => cases b <;> exact fun h => hq.spelled_ne_cons hrest _ h.symm
    | scaled hx _ =>
      rw [leading_append]
      exact hnumeral b _ hx

/-! ### Cut after a colon -/

/-- Where only the last of some words may end in a colon, no cut after a colon comes before the end
of these words. -/
theorem cut_append {vs ls ws rest : List String} {w : String}
    (hvs : ∀ v ∈ vs.dropLast, ¬EndsInColon v) (hw : EndsInColon w)
    (h : vs ++ ls = ws ++ w :: rest) : rest = ls ∨ ∃ us, ls = us ++ w :: rest := by
  rcases List.append_eq_append_iff.1 h with ⟨us, -, hls⟩ | ⟨us, hus, hrest⟩
  · exact .inr ⟨us, hls⟩
  · cases us with
    | nil => exact .inr ⟨[], hrest.symm⟩
    | cons u us =>
      obtain ⟨rfl, rfl⟩ := List.cons.inj hrest
      cases us with
      | nil => exact .inl rfl
      | cons u us =>
        refine absurd hw (hvs w ?_)
        rw [hus, List.dropLast_append_of_ne_nil (List.cons_ne_nil _ _)]
        simp

theorem IsTermWords.dropLast {ws : List String} (h : IsTermWords ws) :
    ∀ w ∈ ws.dropLast, IsNumeral w := by
  cases h with
  | name _ => exact fun w hw => absurd hw List.not_mem_nil
  | scaled hx _ => exact List.forall_mem_singleton.2 hx

theorem IsNumeral.not_endsInColon_minus {w : String} (h : IsNumeral w) :
    ¬EndsInColon ("-" ++ w) := by
  intro hcolon
  rw [EndsInColon, String.toList_append,
    List.getLast?_append_of_ne_nil _ (by simpa using h.ne_empty)] at hcolon
  exact h.not_endsInColon hcolon

theorem IsSum.dropLast {p : Bool × List String} (h : IsSum (p :: ps)) :
    ∀ w ∈ p.2.dropLast, IsNumeral w := by
  cases h with
  | constant b _ => exact fun w hw => absurd hw List.not_mem_nil
  | term b hws _ => exact hws.dropLast

theorem IsSum.tail {p : Bool × List String} (h : IsSum (p :: ps)) : IsSum ps := by
  cases h with
  | constant b _ => exact .nil
  | term b _ h => exact h

/-- A spelled sum that is cut after a colon leaves a spelled sum. -/
theorem IsSum.exists_of_spelled_eq (hp : IsSum ps) {ws rest : List String} {w : String}
    (hw : EndsInColon w) (h : spelled ps = ws ++ w :: rest) :
    ∃ qs, IsSum qs ∧ rest = spelled qs := by
  induction ps generalizing ws with
  | nil => simp [spelled] at h
  | cons p ps ih =>
    have hlast : ∀ v ∈ (signWord p.1 :: p.2).dropLast, ¬EndsInColon v := by
      obtain ⟨v, vs, hp2, -⟩ := hp.exists_head
      have hnumeral := hp.dropLast
      rw [hp2] at hnumeral ⊢
      exact List.forall_mem_cons.2 ⟨not_endsInColon_signWord p.1, fun u hu =>
        (hnumeral u hu).not_endsInColon⟩
    rcases cut_append hlast hw h with rfl | ⟨us, hus⟩
    · exact ⟨ps, hp.tail, rfl⟩
    · exact ih hp.tail hus

/-- A sum that is cut after a colon leaves a spelled sum. -/
theorem IsSum.exists_of_joined_eq (hp : IsSum ps) {ws rest : List String} {w : String}
    (hw : EndsInColon w) (h : joined ps = ws ++ w :: rest) :
    ∃ qs, IsSum qs ∧ rest = spelled qs := by
  cases ps with
  | nil => simp [joined] at h
  | cons p ps =>
    have hlast : ∀ v ∈ (leading p).dropLast, ¬EndsInColon v := by
      obtain ⟨b, vs⟩ := p
      have hnumeral := hp.dropLast
      cases b with
      | false => exact fun u hu => (hnumeral u hu).not_endsInColon
      | true =>
        cases vs with
        | nil => exact fun u hu => absurd hu List.not_mem_nil
        | cons v vs =>
          cases vs with
          | nil => exact fun u hu => absurd hu List.not_mem_nil
          | cons u us =>
            obtain ⟨hv, hvs⟩ := List.forall_mem_cons.1 hnumeral
            exact List.forall_mem_cons.2 ⟨hv.not_endsInColon_minus, fun t ht =>
              (hvs t ht).not_endsInColon⟩
    rcases cut_append hlast hw h with rfl | ⟨us, hus⟩
    · exact ⟨ps, hp.tail, rfl⟩
    · exact hp.tail.exists_of_spelled_eq hw hus

/-- **What comes after a colon in a sum is not a sum itself.** -/
theorem IsSum.joined_ne_append (hp : IsSum ps) (hq : IsSum qs) (hne : qs ≠ []) {w : String}
    (hw : EndsInColon w) (ws : List String) : joined ps ≠ ws ++ w :: joined qs := by
  intro h
  obtain ⟨rs, hrs, hjoined⟩ := hp.exists_of_joined_eq hw h
  exact hq.joined_ne_spelled hne hrs hjoined

/-! ## Written terms -/

/-- Lists that look alike are alike where looks do not deceive. -/
theorem map_eq_of_map_eq {α β γ : Type} {f : α → β} {g : α → γ} {l k : List α}
    (h : ∀ a ∈ l, ∀ b ∈ k, f a = f b → g a = g b) (hf : l.map f = k.map f) :
    l.map g = k.map g := by
  induction l generalizing k with
  | nil => rw [List.map_eq_nil_iff.1 hf.symm]
  | cons a l ih =>
    cases k with
    | nil => cases hf
    | cons b k =>
      obtain ⟨hhead, htail⟩ := List.cons.inj hf
      rw [List.map_cons, List.map_cons, h a List.mem_cons_self b List.mem_cons_self hhead,
        ih (fun c hc d hd => h c (List.mem_cons_of_mem a hc) d (List.mem_cons_of_mem b hd)) htail]

namespace LpTerm

/-- A term that is found again in a sum. -/
structure IsLegible (t : LpTerm Float) : Prop where
  name : IsTermName t.name
  magnitude : IsNumeral (numberText t.magnitude)

theorem IsLegible.isTermWords {t : LpTerm Float} (h : t.IsLegible) : IsTermWords t.words := by
  unfold words
  split
  · exact .name h.name
  · exact .scaled h.magnitude h.name

/-- Terms and what can be added to them are the parts of a sum. -/
theorem isSum_append {ts : List (LpTerm Float)} (h : ∀ t ∈ ts, t.IsLegible)
    {ps : List (Bool × List String)} (hps : IsSum ps) : IsSum (ts.map part ++ ps) := by
  induction ts with
  | nil => exact hps
  | cons t ts ih =>
    exact .term t.negative (h t List.mem_cons_self).isTermWords
      (ih fun u hu => h u (List.mem_cons_of_mem t hu))

theorem isSum_map_part {ts : List (LpTerm Float)} (h : ∀ t ∈ ts, t.IsLegible) :
    IsSum (ts.map part) := List.append_nil (ts.map part) ▸ isSum_append h .nil

variable {K : Type} [Arithmetic K] [Printed K]

/-- **The words of a written sum.** -/
theorem words_sumText {ts : List (LpTerm K)} (h : ∀ t ∈ ts, IsWord t.name) :
    MixedInteger.words (sumText ts).toList = joined (ts.map part) := by
  cases ts with
  | nil => exact words_nil
  | cons t ts =>
    rw [sumText, String.toList_append,
      words_append_join fun u hu => h u (List.mem_cons_of_mem t hu),
      words_leadingText (h t List.mem_cons_self)]
    rfl

/-- Terms with the same words say the same. -/
theorem summand_eq_of_part_eq {t u : LpTerm K} (h : t.part = u.part) :
    (t.summand : Summand) = u.summand := by
  obtain ⟨hsign, hwords⟩ := Prod.mk.inj h
  unfold words at hwords
  unfold summand
  rw [hsign]
  split at hwords
  next ht =>
    split at hwords
    next hu =>
      rw [Printed.printed_of_eq ht, Printed.printed_of_eq hu, (List.cons.inj hwords).1]
    next => cases (List.cons.inj hwords).2
  next =>
    split at hwords
    next => cases (List.cons.inj hwords).2
    next =>
      obtain ⟨hnumber, hname⟩ := List.cons.inj hwords
      rw [printed_eq_of_numberText_eq hnumber, (List.cons.inj hname).1]

/-- Sums with the same words say the same. -/
theorem map_summand_eq {ts us : List (LpTerm K)} (h : ts.map part = us.map part) :
    (ts.map summand : List Summand) = us.map summand :=
  map_eq_of_map_eq (fun _ _ _ _ => summand_eq_of_part_eq) h

end LpTerm

end MixedInteger
