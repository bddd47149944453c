import MixedInteger.Proofs.Reformulation.Selection

/-!
# Magnitude, maximum and minimum are exact

The bounds of the new variables and the constants of the rows leave room for every piece, and the
selector leaves no other.

## What is here

* `Extremum.Measures` — the numbers of the two parts of a magnitude and of their sum.
* `Extremum.measures_of_magnitudeRows`, `Extremum.Measures.passes` — that the rows say this.
* `Model.magnitude_isExpressed` and its kin — that this is what the calls mean.
-/

set_option autoImplicit false

namespace MixedInteger

open Arithmetic

variable {F : Type} [Field F] [LinearOrder F] [FloorRing F] [ToString F] [Extended.Tolerance F]
  [IsStrictOrderedRing F]

/-! ## Magnitude -/

namespace Extremum

section Numbers

variable {x p q s l u : F}

omit [FloorRing F] [ToString F] [Extended.Tolerance F] in
/-- The selector leaves at most one of the two parts, and so they are what they should be. -/
theorem parts_of_numbers (hp : 0 ≤ p) (hq : 0 ≤ q) (hs : s = 0 ∨ s = 1) (hx : x - p + q = 0)
    (hpos : p ≤ max u 0 * s) (hneg : q + max (-l) 0 * s ≤ max (-l) 0) :
    p = max x 0 ∧ q = max (-x) 0 := by
  rcases hs with rfl | rfl
  · have hp : p = 0 := le_antisymm (by linarith) hp
    rw [max_eq_right (by linarith), max_eq_left (by linarith)]
    exact ⟨hp, by linarith⟩
  · have hq : q = 0 := le_antisymm (by linarith) hq
    rw [max_eq_left (by linarith), max_eq_right (by linarith)]
    exact ⟨by linarith, hq⟩

omit [FloorRing F] [ToString F] [Extended.Tolerance F] in
/-- The positive and the negative part of a number pass all rows. -/
theorem parts_numbers (hl : l ≤ x) (hu : x ≤ u) (hs : s = if 0 ≤ x then 1 else 0) :
    max x 0 ≤ max u 0 * s ∧ max (-x) 0 + max (-l) 0 * s ≤ max (-l) 0 := by
  have hU := max_le_max_right 0 hu
  have hL := max_le_max_right 0 (neg_le_neg hl)
  split at hs
  next h =>
    rw [hs, mul_one, mul_one, max_eq_right (neg_nonpos.2 h)]
    exact ⟨hU, by linarith⟩
  next h =>
    rw [hs, mul_zero, mul_zero, max_eq_right (not_le.1 h).le]
    exact ⟨le_rfl, by linarith⟩

end Numbers

/-- The variables of a magnitude have the numbers of the two parts of a number and of their sum. -/
structure Measures (p : MagnitudeParts (Extended F)) (a : Assignment F) (x : F) : Prop where
  positive : a p.positive.id = max x 0
  negative : a p.negative.id = max (-x) 0
  result : a p.result.id = |x|

variable [Extended.Tolerance.IsZero F] {a : Assignment F} {e : LinearExpr (Extended F)}
  [e.IsFinite] {p : MagnitudeParts (Extended F)} {l u : F}

theorem magnitudeRows_iff {M N : F} :
    (∀ c ∈ magnitudeRows e (.finite M) (.finite N) p, c.holds a.lift = true) ↔
      e.eval a - a p.positive.id + a p.negative.id = 0 ∧
        a p.positive.id + a p.negative.id = a p.result.id ∧
        a p.positive.id ≤ M * a p.sign.id ∧ a p.negative.id + N * a p.sign.id ≤ N := by
  simp [magnitudeRows, sub_eq_zero]

/-- The rows leave nothing but the two parts and the magnitude, whatever the two numbers in them
are. -/
theorem measures_of_magnitudeRows
    (hp : Build.MagnitudeBounds (.finite (max u 0)) (.finite (max (-l) 0)) p)
    (hvars : ∀ v ∈ [p.positive, p.negative, p.sign, p.result], v.Allows (a v.id))
    (hrows : ∀ c ∈ magnitudeRows e (.finite (max u 0)) (.finite (max (-l) 0)) p,
      c.holds a.lift = true) : Measures p a (e.eval a) := by
  obtain ⟨hx, hr, hpos, hneg⟩ := magnitudeRows_iff.1 hrows
  have hp₀ := (hp.positive.allows_continuous.1 (hvars p.positive (by simp))).1
  have hq₀ := (hp.negative.allows_continuous.1 (hvars p.negative (by simp))).1
  have hs := hp.sign.allows_binary.1 (hvars p.sign (by simp))
  obtain ⟨hmax, hmin⟩ := parts_of_numbers hp₀ hq₀ hs hx hpos hneg
  refine ⟨hmax, hmin, ?_⟩
  rw [← hr, hmax, hmin, max_zero_add_max_neg_zero_eq_abs_self]

/-- The two parts and the magnitude of a number within the bounds are allowed. -/
theorem Measures.passes
    (hp : Build.MagnitudeBounds (.finite (max u 0)) (.finite (max (-l) 0)) p)
    (hl : l ≤ e.eval a) (hu : e.eval a ≤ u) (h : Measures p a (e.eval a))
    (hs : a p.sign.id = if 0 ≤ e.eval a then 1 else 0) :
    (∀ v ∈ [p.positive, p.negative, p.sign, p.result], v.Allows (a v.id)) ∧
      ∀ c ∈ magnitudeRows e (.finite (max u 0)) (.finite (max (-l) 0)) p,
        c.holds a.lift = true := by
  have hU := max_le_max_right 0 hu
  have hL := max_le_max_right 0 (neg_le_neg hl)
  have hsign : a p.sign.id = 0 ∨ a p.sign.id = 1 := by
    rw [hs]
    exact (ite_eq_or_eq _ _ _).symm
  have hresult := hp.result
  rw [Extended.larger_finite] at hresult
  obtain ⟨hP, hN⟩ := parts_numbers hl hu hs
  constructor
  · simp only [List.forall_mem_cons, List.not_mem_nil, false_implies, implies_true, and_true]
    refine ⟨hp.positive.allows_continuous.2 ?_, hp.negative.allows_continuous.2 ?_,
      hp.sign.allows_binary.2 hsign, hresult.allows_continuous.2 ?_⟩
    · rw [h.positive]
      exact ⟨le_max_right _ _, hU⟩
    · rw [h.negative]
      exact ⟨le_max_right _ _, hL⟩
    · rw [h.result]
      refine ⟨abs_nonneg _, abs_le'.2 ⟨?_, ?_⟩⟩
      · exact (le_max_left _ _).trans (hU.trans (le_max_left _ _))
      · exact (le_max_left _ _).trans (hL.trans (le_max_right _ _))
  · rw [magnitudeRows_iff, h.positive, h.negative, h.result]
    refine ⟨?_, max_zero_add_max_neg_zero_eq_abs_self _, hP, hN⟩
    rw [sub_add, max_zero_sub_eq_self, sub_self]

end Extremum

/-! ## What the calls mean -/

namespace Value

variable {K : Type} [Arithmetic K]

omit [Arithmetic K] in
/-- A value that runs through something other than text runs through its parts. -/
theorem parts_of_elements {x v : Value K} {vs : List (Value K)} (h : x.elements = .ok vs)
    (hv : v ∈ vs) (hne : ∀ s, v ≠ .text s) : x.parts = vs := by
  cases x with
  | sequence shape items =>
    cases h
    rfl
  | table entries id =>
    cases h
    rfl
  | text s =>
    cases h
    obtain ⟨c, -, rfl⟩ := List.mem_map.1 hv
    exact absurd rfl (hne _)
  | handle a p => cases a <;> cases h
  | _ => cases h

theorem ne_text_of_toExpr {v : Value K} {e : LinearExpr K} (h : v.toExpr = .ok e) (s : String) :
    v ≠ .text s := by
  rintro rfl
  cases h

end Value

namespace Model

variable [Extended.Tolerance.IsZero F] {m n : Model (Extended F)} {answer : Value (Extended F)}

theorem Call.IsOver.part {c : Call (Extended F)} (hc : c.IsOver m.vars) {x p : Value (Extended F)}
    (hx : x ∈ c.arguments) (hp : p ∈ x.parts) {e : LinearExpr (Extended F)}
    (he : p.toExpr = .ok e) :
    e.IsFinite ∧ (∀ v ∈ e.vars, m.Has v) ∧ ∀ a, e.eval a = p.eval a := by
  obtain ⟨hfinite, hvars, heval⟩ := (hc.exact x hx p hp).toExpr he
  exact ⟨hfinite, fun v hv => hc.vars v (Variable.mem_vars_of_part hx hp (hvars v hv)), heval⟩

/-- The operands of a maximum or minimum, with the bounds that they are read with. -/
theorem Call.IsOver.operands {c : Call (Extended F)} (hc : c.IsOver m.vars)
    {x : Value (Extended F)} (hx : x ∈ c.arguments) {vs : List (Value (Extended F))}
    {es : List (LinearExpr (Extended F))} {os : List (BoundedExpr (Extended F))} {context : String}
    (hne : os ≠ []) (hvs : x.elements = .ok vs) (hes : vs.mapM (fun v => v.toExpr) = .ok es)
    (hos : es.mapM (Build.boundOperand context false) = .ok os) :
    (∀ o ∈ os, o.IsDerived m) ∧
      ∀ a : Assignment F, x.parts.map (fun p => p.eval a) = os.map fun o => o.expr.eval a := by
  have hread : List.Forall₂ (fun p o => ∃ e, p.toExpr = .ok e ∧
      Build.boundOperand context false e = .ok o) vs os := by
    have h₁ := forall₂_of_mapM_eq_ok hes
    have h₂ := forall₂_of_mapM_eq_ok hos
    clear hvs hes hos hne
    induction h₁ generalizing os with
    | nil =>
      cases h₂
      exact .nil
    | cons he _ ih =>
      cases h₂ with
      | cons ho h₂ => exact .cons ⟨_, he, ho⟩ (ih h₂)
  obtain ⟨o, ho⟩ := List.exists_mem_of_ne_nil os hne
  obtain ⟨p, hp, e, he, -⟩ := exists_of_forall₂ hread ho
  rw [Value.parts_of_elements hvs hp (Value.ne_text_of_toExpr he)]
  have hpart : ∀ p ∈ vs, p ∈ x.parts := fun q hq =>
    Value.parts_of_elements hvs hp (Value.ne_text_of_toExpr he) ▸ hq
  clear hvs hes hos hne ho hp he
  refine ⟨fun o ho => ?_, fun a => ?_⟩
  · obtain ⟨p, hp, e, he, ho⟩ := exists_of_forall₂ hread ho
    obtain ⟨hfinite, hv, -⟩ := hc.part hx (hpart p hp) he
    obtain ⟨i, hi, ho⟩ := bind_eq_ok.1 ho
    cases ho
    obtain ⟨rfl, l, u, hlu⟩ := LinearExpr.exists_of_finiteInterval hi
    exact ⟨hfinite, hv, rfl, l, u, hlu⟩
  · induction hread with
    | nil => rfl
    | @cons p o vs os h _ ih =>
      obtain ⟨e, he, ho⟩ := h
      obtain ⟨i, -, ho⟩ := bind_eq_ok.1 ho
      cases ho
      obtain ⟨-, -, heval⟩ := hc.part hx (hpart p List.mem_cons_self) he
      rw [List.map_cons, List.map_cons, ← heval a,
        ih fun q hq => hpart q (List.mem_cons_of_mem p hq)]

theorem magnitude_isExpressed {expr bigM : Value (Extended F)} (hm : m.WellFormed)
    (hc : (Call.magnitude expr bigM).IsOver m.vars)
    (he : (Call.magnitude expr bigM).Effect m n answer) :
    (Call.magnitude expr bigM).IsExpressed m n answer := by
  obtain ⟨e, k, i, p, he, hk, hi, rfl, hp, hg⟩ := he
  obtain rfl : bigM = .none := hc.bigM
  cases hk
  obtain ⟨hfinite, hvars, heval⟩ :=
    (hc.exact_arg (x := expr) (by simp [Call.arguments])).toExpr he
  have hv : ∀ v ∈ e.vars, m.Has v := fun v hv =>
    hc.has (x := expr) (by simp [Call.arguments]) (hvars v hv)
  obtain ⟨rfl, l, u, hlu⟩ := LinearExpr.exists_of_finiteInterval hi
  have hbounds : ∀ a : Assignment F, m.Feasible a → l ≤ e.eval a ∧ e.eval a ≤ u := by
    intro a ha
    have h := ha.interval_contains e hv
    rwa [hlu, Interval.contains_finite] at h
  have hpos : larger e.interval.upper zero = .finite (max u 0) := by simp [hlu]
  have hneg : larger (-e.interval.lower) zero = .finite (max (-l) 0) := by simp [hlu]
  rw [hpos, hneg] at hp hg
  refine hg.expresses_of_choice hm (fun a ha hall hrows => ?_) fun a ha hmean => ?_
  · have h := (Extremum.measures_of_magnitudeRows hp hall hrows).result
    rw [heval] at h
    simpa [Call.Meaning, Value.handedOver] using h
  · have hmean : a p.result.id = |e.eval a| := by
      rw [heval]
      simpa [Call.Meaning, Value.handedOver] using hmean
    refine ⟨[max (e.eval a) 0, max (-e.eval a) 0, if 0 ≤ e.eval a then 1 else 0, a p.result.id],
      rfl, fun b hmb hb hnew => ?_⟩
    obtain ⟨hbp, hbq, hbs, hbr⟩ : b p.positive.id = max (e.eval a) 0 ∧
      b p.negative.id = max (-e.eval a) 0 ∧ b p.sign.id = (if 0 ≤ e.eval a then 1 else 0) ∧
      b p.result.id = a p.result.id := by simpa using hnew
    have heq : e.eval b = e.eval a :=
      LinearExpr.eval_congr fun t ht => hb t.1 (hv t.1 (List.mem_map_of_mem ht)).knows
    rw [← heq] at hbp hbq hbs hmean
    obtain ⟨hl, hu⟩ := hbounds b hmb
    have hmeasures : Extremum.Measures p b (e.eval b) := ⟨hbp, hbq, hbr.trans hmean⟩
    exact ⟨List.forall_mem_singleton.2 hbr, hmeasures.passes hp hl hu hbs⟩

/-- **A maximum or minimum is exact.** -/
theorem extremum_expresses (d : Direction) {c : Call (Extended F)} (hm : m.WellFormed)
    (hc : c.IsOver m.vars) {exprs : Value (Extended F)} (hx : exprs ∈ c.arguments)
    {context : String} {t : Variable (Extended F)}
    (he : Build.ExtremumEffect context d.Parts exprs .none m t n) :
    m.Expresses n [t] fun a => d.IsBest (a t.id) (exprs.parts.map fun x => x.eval a) := by
  cases he with
  | single h hn =>
    subst hn
    rw [Value.parts_of_elements h List.mem_cons_self nofun]
    exact expresses_self n _ fun a _ => Direction.isBest_singleton.2 rfl
  | expression v e h he ht hg =>
    have hv : exprs.parts = [v] := 
      Value.parts_of_elements h List.mem_cons_self (Value.ne_text_of_toExpr he)
    obtain ⟨hfinite, hvars, heval⟩ := hc.part hx (hv ▸ List.mem_cons_self) he
    rw [hv]
    refine hg.expresses_iff hm _ fun a ha => ?_
    rw [List.forall_mem_singleton, List.forall_mem_singleton, Extended.zero_eq, holds_exactly,
      LinearExpr.eval_minus, LinearExpr.eval_ofVariable, sub_eq_zero, ht.allows_iff, List.map_cons,
      List.map_nil, Direction.isBest_singleton, ← heval]
    refine and_iff_right_of_imp fun heq => ⟨?_, fun h => absurd rfl h⟩
    rw [heq]
    exact ha.interval_contains e hvars
  | several vs es first rest k h hes hos hk hp =>
    cases hk
    obtain ⟨hderived, hmap⟩ := hc.operands hx (List.cons_ne_nil _ _) h hes hos
    exact Expresses.congr (fun a => by rw [hmap]) (hp.expresses hm hderived)

theorem maximum_isExpressed {exprs bigM : Value (Extended F)} (hm : m.WellFormed)
    (hc : (Call.maximum exprs bigM).IsOver m.vars)
    (he : (Call.maximum exprs bigM).Effect m n answer) :
    (Call.maximum exprs bigM).IsExpressed m n answer := by
  obtain ⟨t, rfl, he⟩ := he
  obtain rfl : bigM = .none := hc.bigM
  refine Expresses.congr (fun a => Direction.isBest_map.trans ?_)
    (extremum_expresses .maximize hm hc (by simp [Call.arguments]) he)
  constructor
  · exact fun h => ⟨a t.id, rfl, h⟩
  · rintro ⟨_, ⟨⟩, h⟩
    exact h

theorem minimum_isExpressed {exprs bigM : Value (Extended F)} (hm : m.WellFormed)
    (hc : (Call.minimum exprs bigM).IsOver m.vars)
    (he : (Call.minimum exprs bigM).Effect m n answer) :
    (Call.minimum exprs bigM).IsExpressed m n answer := by
  obtain ⟨t, rfl, he⟩ := he
  obtain rfl : bigM = .none := hc.bigM
  refine Expresses.congr (fun a => Direction.isBest_map.trans ?_)
    (extremum_expresses .minimize hm hc (by simp [Call.arguments]) he)
  constructor
  · exact fun h => ⟨a t.id, rfl, h⟩
  · rintro ⟨_, ⟨⟩, h⟩
    exact h

end Model

end MixedInteger
