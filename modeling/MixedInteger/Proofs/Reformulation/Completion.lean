import MixedInteger.Proofs.Reformulation.Meaning

/-!
# Completions

A reformulation adds variables and rows to a model.  Numbers of the earlier variables may then be
completed by numbers of the new ones in several ways, or in none, whether or not the earlier rows
hold.

## What is here

* `Model.newVars`, `Model.newRows` — what a later model has beyond an earlier one.
* `Model.Completes` — an assignment that differs from another one in new variables only, and under
  which the new rows hold.
* `Model.Grown.completes_iff` — which assignments do.
* `Model.Grown.exists_completes` — how to choose one.
* `Model.Determines`, `Model.Grown.exists_determines` — that there is one only.
* `Model.Grown.expresses_of_completes` — what new variables and rows express, by their completions.
-/

set_option autoImplicit false

namespace MixedInteger

open Arithmetic

namespace Model

section New

variable {K : Type}

/-- The variables that a later model has beyond an earlier one. -/
def newVars (m n : Model K) : List (Variable K) := n.vars.drop m.vars.length

/-- The rows that a later model has beyond an earlier one. -/
def newRows (m n : Model K) : List (Constraint K) := n.constraints.drop m.constraints.length

variable [Arithmetic K] {m n : Model K} {vs : List (Variable K)} {cs : List (Constraint K)}

theorem Grown.newVars_eq (hg : m.Grown vs cs n) : m.newVars n = vs := by
  rw [newVars, hg.vars_eq, List.drop_left]

theorem Grown.newRows_eq (hg : m.Grown vs cs n) :
    ((m.newRows n).map fun c => c.withName .none) = cs.map fun c => c.withName .none := by
  obtain ⟨named, heq, hnamed⟩ := hg.constraints_eq
  rw [newRows, heq, List.drop_left, hnamed]

end New

variable {F : Type} [Field F] [LinearOrder F] [FloorRing F] [ToString F] [Extended.Tolerance F]

/-- The second assignment completes the first one: they differ in the new variables only, which may
take their numbers, and the new rows hold. -/
structure Completes (m n : Model (Extended F)) (a b : Assignment F) : Prop where
  agrees : ∀ i, (∀ v ∈ m.newVars n, v.id ≠ i) → b i = a i
  vars : ∀ v ∈ m.newVars n, v.Allows (b v.id)
  rows : ∀ c ∈ m.newRows n, c.holds b.lift = true

/-- The second assignment completes the first one, and no other one does. -/
def Determines (m n : Model (Extended F)) (a b : Assignment F) : Prop :=
  ∀ b', m.Completes n a b' ↔ b' = b

variable {m n : Model (Extended F)} {vs : List (Variable (Extended F))}
  {cs : List (Constraint (Extended F))} {a b : Assignment F} {e : LinearExpr (Extended F)}

theorem Determines.completes (h : m.Determines n a b) : m.Completes n a b := (h b).2 rfl

theorem Grown.completes_iff (hg : m.Grown vs cs n) : m.Completes n a b ↔
    (∀ i, (∀ v ∈ vs, v.id ≠ i) → b i = a i) ∧ (∀ v ∈ vs, v.Allows (b v.id)) ∧
      ∀ c ∈ cs, c.holds b.lift = true := by
  have hrows := Constraint.forall_holds_iff (a := b) hg.newRows_eq
  constructor
  · rintro ⟨hagrees, hvars, hnew⟩
    rw [hg.newVars_eq] at hagrees hvars
    exact ⟨hagrees, hvars, hrows.1 hnew⟩
  · rintro ⟨hagrees, hvars, hcs⟩
    rw [← hg.newVars_eq] at hagrees hvars
    exact ⟨hagrees, hvars, hrows.2 hcs⟩

/-- What is known to the earlier model keeps its number. -/
theorem Grown.eval_eq (hm : m.WellFormed) (hg : m.Grown vs cs n) (he : ∀ v ∈ e.vars, m.Knows v)
    (hb : ∀ i, (∀ v ∈ vs, v.id ≠ i) → b i = a i) : e.eval b = e.eval a :=
  LinearExpr.eval_congr fun t ht => hb t.1.id fun _ hw heq =>
    hg.id_ne_of_knows hm (he t.1 (List.mem_map_of_mem ht)) hw heq.symm

/-- **How to complete an assignment**: give numbers for all new variables. -/
theorem Grown.exists_completes (hg : m.Grown vs cs n) (xs : List F) (hlen : xs.length = vs.length)
    (h : ∀ b : Assignment F, (∀ i, (∀ v ∈ vs, v.id ≠ i) → b i = a i) →
      (vs.map fun v => b v.id) = xs →
      (∀ v ∈ vs, v.Allows (b v.id)) ∧ ∀ c ∈ cs, c.holds b.lift = true) :
    ∃ b, m.Completes n a b ∧ (vs.map fun v => b v.id) = xs := by
  have hids : xs.length = (vs.map fun v => v.id).length := hlen.trans (List.length_map _).symm
  have hchosen := a.map_override hids hg.nodup_ids
  rw [List.map_map] at hchosen
  have hagrees : ∀ i, (∀ v ∈ vs, v.id ≠ i) → a.override (vs.map fun v => v.id) xs i = a i := by
    intro i hi
    refine a.override_of_notMem hids fun hmem => ?_
    obtain ⟨v, hv, hvi⟩ := List.mem_map.1 hmem
    exact hi v hv hvi
  exact ⟨_, hg.completes_iff.2 ⟨hagrees, h _ hagrees hchosen⟩, hchosen⟩

/-- **How to complete an assignment in one way only**: the new rows say which numbers all new
variables have. -/
theorem Grown.exists_determines (hg : m.Grown vs cs n) (xs : List F) (hlen : xs.length = vs.length)
    (h : ∀ b : Assignment F, (∀ i, (∀ v ∈ vs, v.id ≠ i) → b i = a i) →
      (((∀ v ∈ vs, v.Allows (b v.id)) ∧ ∀ c ∈ cs, c.holds b.lift = true) ↔
        (vs.map fun v => b v.id) = xs)) :
    ∃ b, m.Determines n a b ∧ (vs.map fun v => b v.id) = xs := by
  obtain ⟨b, hb, hxs⟩ := hg.exists_completes xs hlen fun b hagrees hnew => (h b hagrees).2 hnew
  refine ⟨b, fun b' => ⟨fun hb' => funext fun i => ?_, fun heq => heq ▸ hb⟩, hxs⟩
  obtain ⟨hagrees, -⟩ := hg.completes_iff.1 hb
  obtain ⟨hagrees', hnew'⟩ := hg.completes_iff.1 hb'
  by_cases hi : ∃ v ∈ vs, v.id = i
  · obtain ⟨v, hv, rfl⟩ := hi
    exact List.map_inj_left.1 (((h b' hagrees').1 hnew').trans hxs.symm) v hv
  · have hi : ∀ v ∈ vs, v.id ≠ i := fun v hv hvi => hi ⟨v, hv, hvi⟩
    rw [hagrees' i hi, hagrees i hi]

/-- **What new variables and rows express**, by their completions. -/
theorem Grown.expresses_of_completes (hm : m.WellFormed) (hg : m.Grown vs cs n)
    {shown : List (Variable (Extended F))} {P : Assignment F → Prop}
    (sound : ∀ a, m.Feasible a → m.Completes n a a → P a)
    (complete : ∀ a, m.Feasible a → P a →
      ∃ b, m.Completes n a b ∧ ∀ v ∈ shown, b v.id = a v.id) : m.Expresses n shown P := by
  refine hg.expresses hm (fun a ha hv hc => sound a ha (hg.completes_iff.2 ⟨fun _ _ => rfl, hv, hc⟩))
    fun a ha hP => ?_
  obtain ⟨b, hb, hshown⟩ := complete a ha hP
  obtain ⟨hagrees, hvars, hrows⟩ := hg.completes_iff.1 hb
  refine ⟨b, fun i hi => ?_, hvars, hrows⟩
  by_cases hnew : ∃ v ∈ vs, v.id = i
  · -- what is new and not hidden is shown
    obtain ⟨v, hv, rfl⟩ := hnew
    by_cases hs : ∃ w ∈ shown, w.id = v.id
    · obtain ⟨w, hw, hwv⟩ := hs
      rw [← hwv]
      exact hshown w hw
    · refine absurd ⟨⟨v, ?_, rfl⟩, fun w hw => hg.id_ne_of_mem hm hw hv, ?_⟩ hi
      · rw [hg.vars_eq]
        exact List.mem_append_right m.vars hv
      · exact fun w hw hwv => hs ⟨w, hw, hwv⟩
  · exact hagrees i fun v hv hvi => hnew ⟨v, hv, hvi⟩

/-- **How to choose hidden variables**: give numbers for all that are new, those that are shown
keeping theirs. -/
theorem Grown.expresses_of_choice (hm : m.WellFormed) (hg : m.Grown vs cs n)
    {shown : List (Variable (Extended F))} {P : Assignment F → Prop}
    (sound : ∀ a, m.Feasible a → (∀ v ∈ vs, v.Allows (a v.id)) →
      (∀ c ∈ cs, c.holds a.lift = true) → P a)
    (complete : ∀ a, m.Feasible a → P a → ∃ xs : List F, xs.length = vs.length ∧
      ∀ b : Assignment F, m.Feasible b → (∀ v, m.Knows v → b v.id = a v.id) →
        vs.map (fun v => b v.id) = xs → (∀ v ∈ shown, b v.id = a v.id) ∧
          (∀ v ∈ vs, v.Allows (b v.id)) ∧ ∀ c ∈ cs, c.holds b.lift = true) :
    m.Expresses n shown P := by
  refine hg.expresses_of_completes hm (fun a ha hb => ?_) fun a ha hP => ?_
  · obtain ⟨-, hvars, hrows⟩ := hg.completes_iff.1 hb
    exact sound a ha hvars hrows
  · obtain ⟨xs, hlen, h⟩ := complete a ha hP
    have hchoice : ∀ b : Assignment F, (∀ i, (∀ v ∈ vs, v.id ≠ i) → b i = a i) →
        vs.map (fun v => b v.id) = xs → (∀ v ∈ shown, b v.id = a v.id) ∧
          (∀ v ∈ vs, v.Allows (b v.id)) ∧ ∀ c ∈ cs, c.holds b.lift = true := by
      intro b hagrees
      have hknown : ∀ v, m.Knows v → b v.id = a v.id := fun v hv =>
        hagrees v.id fun _ hw heq => hg.id_ne_of_knows hm hv hw heq.symm
      exact h b (ha.congr (fun v hv => hknown v (knows_of_mem hv))
        fun c hc t ht => hknown t.1 ((hm.rows c hc).known t ht)) hknown
    obtain ⟨b, hb, hnew⟩ := hg.exists_completes xs hlen fun b hb hnew => (hchoice b hb hnew).2
    exact ⟨b, hb, (hchoice b (hg.completes_iff.1 hb).1 hnew).1⟩

end Model

end MixedInteger
