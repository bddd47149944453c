import MixedInteger.Proofs.Linear.Retained
import MixedInteger.Proofs.Reformulation.Operands

/-!
# Connectives are exact

The rows of a connective hold for the right number of its result and for no other.

## What is here

* `Logic.conjunctionRows_iff` and its kin — what the rows of each connective say.
* `Logic.conjunction_exact` and its kin — that this is the truth table.
* `Model.conjunction_isExpressed` and its kin — that this is what the call means.
-/

set_option autoImplicit false

namespace MixedInteger

open Arithmetic

variable {F : Type} [Field F] [LinearOrder F] [FloorRing F] [ToString F] [Extended.Tolerance F]
  [IsStrictOrderedRing F]

/-! ## Rows -/

namespace Logic

open LinearExpr

variable {a : Assignment F} {z x y w : Variable (Extended F)} {vs : List (Variable (Extended F))}
  (ht : (Extended.Tolerance.tolerance : F) < 1)
include ht

theorem conjunctionRows_iff : (∀ c ∈ conjunctionRows z vs, c.holds a.lift = true) ↔
    (∀ v ∈ vs, a z.id ≤ a v.id) ∧ (vs.map fun v => a v.id).sum + 1 ≤ a z.id + vs.length := by
  rw [conjunctionRows, List.forall_mem_append, List.forall_mem_map, List.forall_mem_singleton]
  refine and_congr (forall₂_congr fun v _ => ?_) ?_
  · simp [eval_minus_of_isWhole _ _ ht, eval_ofVariable_of_lt ht]
  · simp [eval_minus_of_isWhole _ _ ht, eval_ofVariable_of_lt ht, eval_total_of_lt ht]
    constructor <;> intro h <;> linarith

theorem disjunctionRows_iff : (∀ c ∈ disjunctionRows z vs, c.holds a.lift = true) ↔
    (∀ v ∈ vs, a v.id ≤ a z.id) ∧ a z.id ≤ (vs.map fun v => a v.id).sum := by
  rw [disjunctionRows, List.forall_mem_append, List.forall_mem_map, List.forall_mem_singleton]
  refine and_congr (forall₂_congr fun v _ => ?_) ?_
  · simp [eval_minus_of_isWhole _ _ ht, eval_ofVariable_of_lt ht]
  · simp [eval_minus_of_isWhole _ _ ht, eval_ofVariable_of_lt ht, eval_total_of_lt ht]

theorem negationRows_iff : (∀ c ∈ negationRows z x, c.holds a.lift = true) ↔
    a z.id = 1 - a x.id := by
  simp [negationRows, eval_plus_of_isWhole _ _ ht, eval_ofVariable_of_lt ht, eq_sub_iff_add_eq]

theorem exclusiveRows_iff : (∀ c ∈ exclusiveRows z x y, c.holds a.lift = true) ↔
    a z.id ≤ a x.id + a y.id ∧ a x.id ≤ a z.id + a y.id ∧ a y.id ≤ a z.id + a x.id ∧
      a z.id + a x.id + a y.id ≤ 2 := by
  simp [exclusiveRows, eval_plus_of_isWhole _ _ ht, eval_minus_of_isWhole _ _ ht,
    eval_ofVariable_of_lt ht]
  constructor
  · rintro ⟨h₁, h₂, h₃, h₄⟩
    exact ⟨by linarith, by linarith, by linarith, by linarith⟩
  · rintro ⟨h₁, h₂, h₃, h₄⟩
    exact ⟨by linarith, by linarith, by linarith, by linarith⟩

theorem compactRows_iff : (∀ c ∈ compactRows z x y w, c.holds a.lift = true) ↔
    a z.id = a x.id + a y.id - 2 * a w.id := by
  rw [compactRows, List.forall_mem_singleton, Extended.ofInt_eq, Extended.zero_eq, holds_exactly,
    eval_plus_of_isWhole _ _ ht, eval_minus_of_isWhole _ _ ht, eval_minus_of_isWhole _ _ ht,
    eval_monomial_of_lt ht, eval_ofVariable_of_lt ht, eval_ofVariable_of_lt ht,
    eval_ofVariable_of_lt ht, Int.cast_ofNat]
  constructor <;> intro h <;> linarith

theorem implicationRow_iff : (implicationRow x y).holds a.lift = true ↔ a x.id ≤ a y.id := by
  simp [implicationRow, eval_minus_of_isWhole _ _ ht, eval_ofVariable_of_lt ht]

/-! ## What the rows mean -/

/-- **A conjunction is exact.** -/
theorem conjunction_exact (hz : z.IsOf .binary ⟨zero, one⟩)
    (hvs : ∀ v ∈ vs, a v.id = 0 ∨ a v.id = 1) :
    (z.Allows (a z.id) ∧ ∀ c ∈ conjunctionRows z vs, c.holds a.lift = true) ↔
      (a z.id = 1 ∧ ∀ v ∈ vs, a v.id = 1) ∨ (a z.id = 0 ∧ ∃ v ∈ vs, a v.id = 0) := by
  rw [hz.allows_binary, conjunctionRows_iff ht]
  constructor
  · rintro ⟨hz | hz, hle, hsum⟩
    · refine .inr ⟨hz, ?_⟩
      rcases sum_eq_length_or hvs with ⟨hs, -⟩ | ⟨-, hzero⟩
      · linarith
      · exact hzero
    · refine .inl ⟨hz, fun v hv => ?_⟩
      rcases hvs v hv with h | h
      · have := hle v hv
        linarith
      · exact h
  · rintro (⟨hz, hall⟩ | ⟨hz, v, hv, hzero⟩)
    · refine ⟨.inr hz, fun v hv => by rw [hz, hall v hv], ?_⟩
      rcases sum_eq_length_or hvs with ⟨hs, -⟩ | ⟨-, v, hv, hzero⟩
      · linarith
      · linarith [hall v hv]
    · refine ⟨.inl hz, fun u hu => ?_, ?_⟩
      · rcases hvs u hu with h | h <;> linarith
      · rcases sum_eq_length_or hvs with ⟨-, hall⟩ | ⟨hs, -⟩
        · linarith [hall v hv]
        · linarith

/-- **A disjunction is exact.** -/
theorem disjunction_exact (hz : z.IsOf .binary ⟨zero, one⟩)
    (hvs : ∀ v ∈ vs, a v.id = 0 ∨ a v.id = 1) :
    (z.Allows (a z.id) ∧ ∀ c ∈ disjunctionRows z vs, c.holds a.lift = true) ↔
      (a z.id = 1 ∧ ∃ v ∈ vs, a v.id = 1) ∨ (a z.id = 0 ∧ ∀ v ∈ vs, a v.id = 0) := by
  rw [hz.allows_binary, disjunctionRows_iff ht]
  constructor
  · rintro ⟨hz | hz, hle, hsum⟩
    · refine .inr ⟨hz, fun v hv => ?_⟩
      rcases hvs v hv with h | h
      · exact h
      · linarith [hle v hv]
    · refine .inl ⟨hz, ?_⟩
      rcases sum_eq_zero_or hvs with ⟨hs, -⟩ | ⟨-, hone⟩
      · linarith
      · exact hone
  · rintro (⟨hz, v, hv, hone⟩ | ⟨hz, hall⟩)
    · refine ⟨.inr hz, fun u hu => ?_, ?_⟩
      · rcases hvs u hu with h | h <;> linarith
      · rcases sum_eq_zero_or hvs with ⟨-, hall⟩ | ⟨hs, -⟩
        · linarith [hall v hv]
        · linarith
    · refine ⟨.inl hz, fun v hv => by rw [hz, hall v hv], ?_⟩
      rcases sum_eq_zero_or hvs with ⟨hs, -⟩ | ⟨-, v, hv, hone⟩
      · linarith
      · linarith [hall v hv]

/-- **A negation is exact.** -/
theorem negation_exact (hz : z.IsOf .binary ⟨zero, one⟩) (hx : a x.id = 0 ∨ a x.id = 1) :
    (z.Allows (a z.id) ∧ ∀ c ∈ negationRows z x, c.holds a.lift = true) ↔ a z.id = 1 - a x.id := by
  rw [hz.allows_binary, negationRows_iff ht]
  constructor
  · exact fun h => h.2
  · intro h
    refine ⟨?_, h⟩
    rcases hx with hx | hx
    · exact .inr (by rw [h, hx, sub_zero])
    · exact .inl (by rw [h, hx, sub_self])

omit [FloorRing F] [ToString F] [Extended.Tolerance F] ht in
/-- The four inequalities leave the exclusive or of zeros and ones. -/
theorem exclusive_numbers {p q r : F} (hp : p = 0 ∨ p = 1) (hq : q = 0 ∨ q = 1)
    (hr : r = 0 ∨ r = 1) : (p ≤ q + r ∧ q ≤ p + r ∧ r ≤ p + q ∧ p + q + r ≤ 2) ↔
      (p = 1 ∧ q ≠ r) ∨ (p = 0 ∧ q = r) := by
  rcases hp with rfl | rfl <;> rcases hq with rfl | rfl <;> rcases hr with rfl | rfl <;> norm_num

omit [FloorRing F] [ToString F] [Extended.Tolerance F] ht in
/-- So does the equality with the conjunction of the two. -/
theorem compact_numbers {p q r s : F} (hq : q = 0 ∨ q = 1) (hr : r = 0 ∨ r = 1)
    (hs : (s = 1 ∧ q = 1 ∧ r = 1) ∨ (s = 0 ∧ (q = 0 ∨ r = 0))) :
    p = q + r - 2 * s ↔ (p = 1 ∧ q ≠ r) ∨ (p = 0 ∧ q = r) := by
  rcases hs with ⟨rfl, rfl, rfl⟩ | ⟨rfl, rfl | rfl⟩
  · norm_num
  · rcases hr with rfl | rfl <;> norm_num
  · rcases hq with rfl | rfl <;> norm_num

/-- **An exclusive or is exact** in its first encoding. -/
theorem exclusive_exact (hz : z.IsOf .binary ⟨zero, one⟩) (hx : a x.id = 0 ∨ a x.id = 1)
    (hy : a y.id = 0 ∨ a y.id = 1) :
    (z.Allows (a z.id) ∧ ∀ c ∈ exclusiveRows z x y, c.holds a.lift = true) ↔
      (a z.id = 1 ∧ a x.id ≠ a y.id) ∨ (a z.id = 0 ∧ a x.id = a y.id) := by
  rw [hz.allows_binary, exclusiveRows_iff ht]
  constructor
  · rintro ⟨hz, h⟩
    exact (exclusive_numbers hz hx hy).1 h
  · intro h
    have hz : a z.id = 0 ∨ a z.id = 1 := h.symm.imp And.left And.left
    exact ⟨hz, (exclusive_numbers hz hx hy).2 h⟩

/-- **So it is in its second encoding**, together with the conjunction of the two. -/
theorem compact_exact (hw : w.IsOf .binary ⟨zero, one⟩) (hz : z.IsOf .binary ⟨zero, one⟩)
    (hx : a x.id = 0 ∨ a x.id = 1) (hy : a y.id = 0 ∨ a y.id = 1) :
    ((∀ v ∈ [w, z], v.Allows (a v.id)) ∧
      ∀ c ∈ conjunctionRows w [x, y] ++ compactRows z x y w, c.holds a.lift = true) ↔
    ((a w.id = 1 ∧ a x.id = 1 ∧ a y.id = 1) ∨ (a w.id = 0 ∧ (a x.id = 0 ∨ a y.id = 0))) ∧
      ((a z.id = 1 ∧ a x.id ≠ a y.id) ∨ (a z.id = 0 ∧ a x.id = a y.id)) := by
  have hnumbers : ∀ v ∈ [x, y], a v.id = 0 ∨ a v.id = 1 :=
    List.forall_mem_cons.2 ⟨hx, List.forall_mem_singleton.2 hy⟩
  have hand := conjunction_exact ht hw hnumbers
  simp only [List.forall_mem_cons, List.exists_mem_cons_iff, List.not_mem_nil, false_implies,
    implies_true, and_true, false_and, exists_false, or_false] at hand
  rw [List.forall_mem_append, List.forall_mem_cons, List.forall_mem_singleton,
    compactRows_iff ht]
  constructor
  · rintro ⟨⟨hwa, -⟩, hrows, hzrow⟩
    have hw := hand.1 ⟨hwa, hrows⟩
    exact ⟨hw, (compact_numbers hx hy hw).1 hzrow⟩
  · rintro ⟨hw, hzvalue⟩
    obtain ⟨hwa, hrows⟩ := hand.2 hw
    exact ⟨⟨hwa, hz.allows_binary.2 (hzvalue.symm.imp And.left And.left)⟩, hrows,
      (compact_numbers hx hy hw).2 hzvalue⟩

end Logic

/-! ## What the calls mean -/

namespace Model

variable {m n : Model (Extended F)} {answer : Value (Extended F)}

variable [Extended.Tolerance.IsZero F]

theorem conjunction_isExpressed {args : List (Value (Extended F))} (hm : m.WellFormed)
    (hc : (Call.conjunction args).IsOver m.vars)
    (he : (Call.conjunction args).Effect m n answer) :
    (Call.conjunction args).IsExpressed m n answer := by
  obtain ⟨vs, hvs, h⟩ := he
  obtain ⟨hops, hbin⟩ := Value.operands_of_toBinaries hvs
  have hnum := fun (a : Assignment F) (ha : m.Feasible a) =>
    ha.operands hm hc (fun x hx => hx) hops hbin
  rcases h with ⟨v, rfl, rfl, rfl⟩ | ⟨z, rfl, hz, hg⟩
  · refine expresses_self n _ fun a ha => ?_
    have hv := hnum a ha v List.mem_cons_self
    simpa [Call.Meaning, hops, Value.handedOver, Value.eval] using hv.symm
  · refine hg.expresses_iff hm _ fun a ha => ?_
    rw [List.forall_mem_singleton, Logic.conjunction_exact Extended.tolerance_lt_one hz (hnum a ha)]
    simp [Call.Meaning, hops, Value.handedOver, Value.eval]

theorem disjunction_isExpressed {args : List (Value (Extended F))} (hm : m.WellFormed)
    (hc : (Call.disjunction args).IsOver m.vars)
    (he : (Call.disjunction args).Effect m n answer) :
    (Call.disjunction args).IsExpressed m n answer := by
  obtain ⟨vs, hvs, h⟩ := he
  obtain ⟨hops, hbin⟩ := Value.operands_of_toBinaries hvs
  have hnum := fun (a : Assignment F) (ha : m.Feasible a) =>
    ha.operands hm hc (fun x hx => hx) hops hbin
  rcases h with ⟨v, rfl, rfl, rfl⟩ | ⟨z, rfl, hz, hg⟩
  · refine expresses_self n _ fun a ha => ?_
    have hv := hnum a ha v List.mem_cons_self
    simpa [Call.Meaning, hops, Value.handedOver, Value.eval] using hv.symm
  · refine hg.expresses_iff hm _ fun a ha => ?_
    rw [List.forall_mem_singleton, Logic.disjunction_exact Extended.tolerance_lt_one hz (hnum a ha)]
    simp [Call.Meaning, hops, Value.handedOver, Value.eval]

theorem negation_isExpressed {x : Value (Extended F)} (hm : m.WellFormed)
    (hc : (Call.negation x).IsOver m.vars) (he : (Call.negation x).Effect m n answer) :
    (Call.negation x).IsExpressed m n answer := by
  obtain ⟨v, z, hv, rfl, hz, hg⟩ := he
  obtain ⟨rfl, hb⟩ := Value.toBinary_eq_ok hv
  refine hg.expresses_iff hm _ fun a ha => ?_
  have hv := ha.argument hm hc (v := v) (by simp [Call.arguments]) hb
  rw [List.forall_mem_singleton, Logic.negation_exact Extended.tolerance_lt_one hz hv]
  simp [Call.Meaning, Value.handedOver, Value.eval]

theorem implication_isExpressed {x y : Value (Extended F)} (hm : m.WellFormed)
    (hc : (Call.implication x y).IsOver m.vars)
    (he : (Call.implication x y).Effect m n answer) :
    (Call.implication x y).IsExpressed m n answer := by
  obtain ⟨v, w, hv, hw, -, hg⟩ := he
  obtain ⟨rfl, hbv⟩ := Value.toBinary_eq_ok hv
  obtain ⟨rfl, hbw⟩ := Value.toBinary_eq_ok hw
  refine hg.expresses_iff hm _ fun a ha => ?_
  have hv := ha.argument hm hc (v := v) (by simp [Call.arguments]) hbv
  have hw := ha.argument hm hc (v := w) (by simp [Call.arguments]) hbw
  rw [List.forall_mem_singleton, Logic.implicationRow_iff Extended.tolerance_lt_one, Call.Meaning,
    Value.eval, Value.eval]
  constructor
  · rintro ⟨-, hle⟩ hone
    rcases hw with hw | hw
    · linarith
    · exact hw
  · refine fun h => ⟨fun _ h => absurd h List.not_mem_nil, ?_⟩
    rcases hv with hv | hv
    · rcases hw with hw | hw <;> linarith
    · linarith [h hv]

theorem exclusive_isExpressed {x y encoding : Value (Extended F)} (hm : m.WellFormed)
    (hc : (Call.exclusive x y encoding).IsOver m.vars)
    (he : (Call.exclusive x y encoding).Effect m n answer) :
    (Call.exclusive x y encoding).IsExpressed m n answer := by
  obtain ⟨c, v, w, z, -, hv, hw, rfl, hz, hp⟩ := he
  obtain ⟨rfl, hbv⟩ := Value.toBinary_eq_ok hv
  obtain ⟨rfl, hbw⟩ := Value.toBinary_eq_ok hw
  have hnv := fun (a : Assignment F) (ha : m.Feasible a) =>
    ha.argument hm hc (v := v) (by simp [Call.arguments]) hbv
  have hnw := fun (a : Assignment F) (ha : m.Feasible a) =>
    ha.argument hm hc (v := w) (by simp [Call.arguments]) hbw
  cases c with
  | inequalities =>
    have hg : m.Grown [z] (Logic.exclusiveRows z v w) n := hp
    refine hg.expresses_iff hm _ fun a ha => ?_
    rw [List.forall_mem_singleton,
      Logic.exclusive_exact Extended.tolerance_lt_one hz (hnv a ha) (hnw a ha)]
    simp [Call.Meaning, Value.handedOver, Value.eval]
  | compact =>
    obtain ⟨u, hu, hg⟩ := hp
    have hexact := fun (a : Assignment F) (ha : m.Feasible a) =>
      Logic.compact_exact Extended.tolerance_lt_one hu hz (hnv a ha) (hnw a ha)
    refine hg.expresses_of_choice hm (fun a ha hall hrows => ?_) fun a ha hmean => ?_
    · simpa [Call.Meaning, Value.handedOver, Value.eval] using ((hexact a ha).1 ⟨hall, hrows⟩).2
    · refine ⟨[if a v.id = 1 ∧ a w.id = 1 then 1 else 0, a z.id], rfl, fun b hmb hb hnew => ?_⟩
      obtain ⟨hbu, hbz⟩ : b u.id = (if a v.id = 1 ∧ a w.id = 1 then 1 else 0) ∧
        b z.id = a z.id := by simpa using hnew
      have hbv : b v.id = a v.id :=
        hb v (hc.knows (x := .var v) (by simp [Call.arguments]) List.mem_cons_self)
      have hbw : b w.id = a w.id :=
        hb w (hc.knows (x := .var w) (by simp [Call.arguments]) List.mem_cons_self)
      have hmean : (b z.id = 1 ∧ b v.id ≠ b w.id) ∨ (b z.id = 0 ∧ b v.id = b w.id) := by
        rw [hbz, hbv, hbw]
        simpa [Call.Meaning, Value.handedOver, Value.eval] using hmean
      have hand : (b u.id = 1 ∧ b v.id = 1 ∧ b w.id = 1) ∨
          (b u.id = 0 ∧ (b v.id = 0 ∨ b w.id = 0)) := by
        rw [← hbv, ← hbw] at hbu
        rcases hnv b hmb with h | h <;> rcases hnw b hmb with h' | h' <;> simp [hbu, h, h']
      exact ⟨List.forall_mem_singleton.2 hbz, (hexact b hmb).2 ⟨hand, hmean⟩⟩

end Model

end MixedInteger
