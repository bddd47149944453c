import MixedInteger.Proofs.Model.Creation
import MixedInteger.Reformulation.Logic

/-!
# Well-formed models

The variables of a model are numbered in the order of their creation, and what its rows and its
objective mention is something that has been created.  This file says what that means and that the
arithmetic of expressions keeps it.

## What is here

* `Variable.Alike` — variables that differ in their names only.
* `Model.Knows`, `Model.Keeps` — what a model has created, and that it does not lose it.
* `Terms.WellFormed`, `LinearExpr.WellFormed` — no variable occurs twice, and all of them have been
  created.
* `Model.WellFormed` — what holds of every model that is built by calls.
* `Model.WellFormed.grown` — more variables and rows keep a model well-formed.
-/

set_option autoImplicit false

namespace MixedInteger

variable {K : Type}

/-- Two variables that differ in their names only. -/
structure Variable.Alike (v w : Variable K) : Prop where
  id_eq : v.id = w.id
  domain_eq : v.domain = w.domain
  interval_eq : v.interval = w.interval

namespace Variable.Alike

theorem refl (v : Variable K) : v.Alike v := ⟨rfl, rfl, rfl⟩

theorem symm {v w : Variable K} (h : v.Alike w) : w.Alike v :=
  ⟨h.id_eq.symm, h.domain_eq.symm, h.interval_eq.symm⟩

theorem trans {u v w : Variable K} (h : u.Alike v) (h' : v.Alike w) : u.Alike w :=
  ⟨h.id_eq.trans h'.id_eq, h.domain_eq.trans h'.domain_eq, h.interval_eq.trans h'.interval_eq⟩

end Variable.Alike

theorem Variable.IsProper.alike [Arithmetic K] {v w : Variable K} (h : v.IsProper)
    (hvw : v.Alike w) : w.IsProper := by
  refine ⟨hvw.interval_eq ▸ h.interval, fun hd => ?_⟩
  rw [← hvw.interval_eq]
  exact h.binary (hvw.domain_eq.trans hd)

namespace Model

/-- A variable is of another model, or has been created. -/
def Knows (m : Model K) (v : Variable K) : Prop := v.id.owner = m.id → ∃ w ∈ m.vars, v.Alike w

theorem knows_of_mem {m : Model K} {v : Variable K} (hv : v ∈ m.vars) : m.Knows v :=
  fun _ => ⟨v, hv, .refl v⟩

/-- The second model has the variables of the first one. -/
structure Keeps (m n : Model K) : Prop where
  id_eq : n.id = m.id
  vars : ∀ v ∈ m.vars, ∃ w ∈ n.vars, v.Alike w

theorem Keeps.knows {m n : Model K} (h : m.Keeps n) {v : Variable K} (hv : m.Knows v) :
    n.Knows v := by
  intro ho
  obtain ⟨w, hw, hvw⟩ := hv (ho.trans h.id_eq)
  obtain ⟨u, hu, hwu⟩ := h.vars w hw
  exact ⟨u, hu, hvw.trans hwu⟩

theorem Keeps.refl (m : Model K) : m.Keeps m := ⟨rfl, fun v hv => ⟨v, hv, .refl v⟩⟩

theorem Keeps.trans {m n k : Model K} (h : m.Keeps n) (h' : n.Keeps k) : m.Keeps k where
  id_eq := h'.id_eq.trans h.id_eq
  vars v hv := by
    obtain ⟨w, hw, hvw⟩ := h.vars v hv
    obtain ⟨u, hu, hwu⟩ := h'.vars w hw
    exact ⟨u, hu, hvw.trans hwu⟩

end Model

/-- No variable occurs twice, and all of them have been created. -/
structure Terms.WellFormed (m : Model K) (ts : Terms K) : Prop where
  nodup : (ts.map fun t => t.1.id).Nodup
  known : ∀ t ∈ ts, m.Knows t.1

/-- The terms of the expression are well-formed. -/
def LinearExpr.WellFormed (m : Model K) (e : LinearExpr K) : Prop := Terms.WellFormed m e.terms

/-! ## Terms -/

namespace Terms

theorem wellFormed_nil (m : Model K) : WellFormed m [] :=
  ⟨List.nodup_nil, fun _ h => absurd h List.not_mem_nil⟩

theorem WellFormed.sublist {m : Model K} {ts us : Terms K} (h : WellFormed m ts)
    (hs : us.Sublist ts) : WellFormed m us :=
  ⟨h.nodup.sublist (hs.map _), fun t ht => h.known t (hs.subset ht)⟩

theorem WellFormed.mono {m n : Model K} (hk : m.Keeps n) {ts : Terms K} (h : WellFormed m ts) :
    WellFormed n ts :=
  ⟨h.nodup, fun t ht => hk.knows (h.known t ht)⟩

/-- New coefficients for the same variables. -/
theorem WellFormed.map {m : Model K} {ts : Terms K} (h : WellFormed m ts)
    (f : Variable K × K → K) : WellFormed m (ts.map fun t => (t.1, f t)) := by
  refine ⟨?_, ?_⟩
  · rw [List.map_map]
    exact h.nodup
  · intro u hu
    obtain ⟨t, ht, rfl⟩ := List.mem_map.1 hu
    exact h.known t ht

variable [Arithmetic K]

theorem map_id_add (v : Variable K) (c : K) (ts : Terms K) :
    (ts.add v c).map (fun t => t.1.id) =
      if v.id ∈ ts.map fun t => t.1.id then ts.map fun t => t.1.id
      else (ts.map fun t => t.1.id) ++ [v.id] := by
  induction ts with
  | nil => rfl
  | cons t ts ih =>
    by_cases ht : t.1.id = v.id
    · simp [add, ht]
    · have ht' : ¬v.id = t.1.id := fun h => ht h.symm
      simp only [add, ht, if_false, List.map_cons, ih, List.mem_cons, ht', false_or]
      split <;> rfl

theorem mem_add {v : Variable K} {c : K} {ts : Terms K} {u : Variable K × K}
    (h : u ∈ ts.add v c) : u.1 = v ∨ ∃ t ∈ ts, u.1 = t.1 := by
  induction ts with
  | nil =>
    rw [add, List.mem_singleton] at h
    exact .inl (congrArg Prod.fst h)
  | cons t ts ih =>
    rw [add] at h
    split at h
    · rcases List.mem_cons.1 h with rfl | h
      · exact .inr ⟨t, List.mem_cons_self, rfl⟩
      · exact .inr ⟨u, List.mem_cons_of_mem _ h, rfl⟩
    · rcases List.mem_cons.1 h with rfl | h
      · exact .inr ⟨_, List.mem_cons_self, rfl⟩
      · rcases ih h with hv | ⟨s, hs, hu⟩
        · exact .inl hv
        · exact .inr ⟨s, List.mem_cons_of_mem _ hs, hu⟩

theorem nodup_add {ts : Terms K} (h : (ts.map fun t => t.1.id).Nodup) (v : Variable K) (c : K) :
    ((ts.add v c).map fun t => t.1.id).Nodup := by
  rw [map_id_add]
  split
  · exact h
  next hn =>
    refine List.nodup_append.2 ⟨h, List.nodup_singleton _, ?_⟩
    intro i hi j hj hij
    rw [List.mem_singleton.1 hj] at hij
    exact hn (hij ▸ hi)

theorem nodup_addAll {ts : Terms K} (h : (ts.map fun t => t.1.id).Nodup) (us : Terms K) :
    ((ts.addAll us).map fun t => t.1.id).Nodup := by
  induction us generalizing ts with
  | nil => exact h
  | cons u us ih => exact ih (nodup_add h u.1 u.2)

theorem forall_add {P : Variable K → Prop} {ts : Terms K} (h : ∀ t ∈ ts, P t.1) {v : Variable K}
    (hv : P v) (c : K) : ∀ t ∈ ts.add v c, P t.1 := by
  intro u hu
  rcases mem_add hu with huv | ⟨t, ht, hut⟩
  · rw [huv]
    exact hv
  · rw [hut]
    exact h t ht

theorem forall_addAll {P : Variable K → Prop} {ts us : Terms K} (h : ∀ t ∈ ts, P t.1)
    (hus : ∀ u ∈ us, P u.1) : ∀ t ∈ ts.addAll us, P t.1 := by
  induction us generalizing ts with
  | nil => exact h
  | cons u us ih =>
    obtain ⟨hu, hus⟩ := List.forall_mem_cons.1 hus
    exact ih (forall_add h hu u.2) hus

theorem WellFormed.add {m : Model K} {ts : Terms K} (h : WellFormed m ts) {v : Variable K}
    (hv : m.Knows v) (c : K) : WellFormed m (ts.add v c) :=
  ⟨nodup_add h.nodup v c, forall_add h.known hv c⟩

theorem WellFormed.addAll {m : Model K} {ts us : Terms K} (h : WellFormed m ts)
    (hus : ∀ u ∈ us, m.Knows u.1) : WellFormed m (ts.addAll us) :=
  ⟨nodup_addAll h.nodup us, forall_addAll h.known hus⟩

end Terms

/-! ## Expressions -/

namespace LinearExpr

theorem WellFormed.mono {m n : Model K} (hk : m.Keeps n) {e : LinearExpr K} (h : e.WellFormed m) :
    e.WellFormed n :=
  Terms.WellFormed.mono hk h

theorem wellFormed_ofConstant (m : Model K) (c : K) : (ofConstant c).WellFormed m :=
  Terms.wellFormed_nil m

variable [Arithmetic K] {m : Model K}

theorem wellFormed_ofTerms {ts : Terms K} (h : Terms.WellFormed m ts) (c : K) :
    (ofTerms ts c).WellFormed m :=
  h.sublist List.filter_sublist

theorem wellFormed_ofVariable {v : Variable K} (hv : m.Knows v) : (ofVariable v).WellFormed m := by
  have h : Terms.WellFormed m [(v, (Arithmetic.one : K))] := by
    refine ⟨List.nodup_singleton v.id, fun t ht => ?_⟩
    rw [List.mem_singleton.1 ht]
    exact hv
  exact wellFormed_ofTerms h _

theorem WellFormed.combine {a b : LinearExpr K} (ha : a.WellFormed m) (sign : K)
    (hb : b.WellFormed m) : (a.combine sign b).WellFormed m := by
  refine wellFormed_ofTerms (Terms.WellFormed.addAll ha fun u hu => ?_) _
  obtain ⟨t, ht, rfl⟩ := List.mem_map.1 hu
  exact hb.known t ht

theorem WellFormed.plus {a b : LinearExpr K} (ha : a.WellFormed m) (hb : b.WellFormed m) :
    (a.plus b).WellFormed m := ha.combine _ hb

theorem WellFormed.minus {a b : LinearExpr K} (ha : a.WellFormed m) (hb : b.WellFormed m) :
    (a.minus b).WellFormed m := ha.combine _ hb

theorem WellFormed.scale {e : LinearExpr K} (h : e.WellFormed m) (s : K) :
    (e.scale s).WellFormed m :=
  wellFormed_ofTerms (Terms.WellFormed.map h fun t => t.2 * s) _

theorem WellFormed.negate {e : LinearExpr K} (h : e.WellFormed m) : e.negate.WellFormed m :=
  h.scale _

theorem wellFormed_monomial {v : Variable K} (hv : m.Knows v) (c : K) :
    (monomial c v).WellFormed m :=
  (wellFormed_ofVariable hv).scale c

theorem wellFormed_total {vs : List (Variable K)} (hvs : ∀ v ∈ vs, m.Knows v) :
    (total vs).WellFormed m := by
  refine wellFormed_ofTerms ?_ _
  have hfold : ∀ ts : Terms K, Terms.WellFormed m ts →
      Terms.WellFormed m (vs.foldl (fun ts v => ts.add v Arithmetic.one) ts) := by
    induction vs with
    | nil => exact fun ts h => h
    | cons v vs ih =>
      intro ts h
      exact ih (fun w hw => hvs w (List.mem_cons_of_mem _ hw)) _
        (h.add (hvs v List.mem_cons_self) _)
  exact hfold [] (Terms.wellFormed_nil m)

end LinearExpr

/-! ## Models -/

namespace Model

/-- Rows whose expressions are well-formed. -/
def RowsWellFormed (m : Model K) (cs : List (Constraint K)) : Prop :=
  ∀ c ∈ cs, c.expr.WellFormed m

variable [Arithmetic K]

/-- What holds of every model that is built by calls. -/
structure WellFormed (m : Model K) : Prop where
  ids : ∀ i (h : i < m.vars.length), m.vars[i].id = ⟨m.id, i⟩
  proper : ∀ v ∈ m.vars, v.IsProper
  rows : m.RowsWellFormed m.constraints
  objective : ∀ e, m.objective = some e → e.WellFormed m
  names : m.NamesDistinct

theorem wellFormed_empty (id : Nat) (name : Value K) : (empty id name).WellFormed :=
  ⟨fun _ h => absurd h (Nat.not_lt_zero _), fun _ h => absurd h List.not_mem_nil,
   fun _ h => absurd h List.not_mem_nil, fun _ h => absurd h nofun, namesDistinct_empty id name⟩

theorem WellFormed.owner_eq {m : Model K} (h : m.WellFormed) {v : Variable K} (hv : v ∈ m.vars) :
    v.id.owner = m.id := by
  obtain ⟨i, hi, rfl⟩ := List.getElem_of_mem hv
  rw [h.ids]

/-- The variables of a well-formed model are apart. -/
theorem WellFormed.nodup_ids {m : Model K} (h : m.WellFormed) : (m.vars.map fun v => v.id).Nodup := by
  rw [List.nodup_iff_getElem?_ne_getElem?]
  intro i j hij hj heq
  rw [List.length_map] at hj
  rw [List.getElem?_map, List.getElem?_map, List.getElem?_eq_getElem (Nat.lt_trans hij hj),
    List.getElem?_eq_getElem hj, Option.map_some, Option.map_some, h.ids, h.ids] at heq
  have := congrArg VariableId.index (Option.some.inj heq)
  exact absurd this (Nat.ne_of_lt hij)

theorem Grown.keeps {m m' : Model K} {vs : List (Variable K)} {cs : List (Constraint K)}
    (h : m.Grown vs cs m') : m.Keeps m' := by
  refine ⟨h.id_eq, fun v hv => ⟨v, ?_, .refl v⟩⟩
  rw [h.vars_eq]
  exact List.mem_append_left vs hv

/-- The new variables of a model are known to it. -/
theorem Grown.knows_new {m m' : Model K} {vs : List (Variable K)} {cs : List (Constraint K)}
    (h : m.Grown vs cs m') {v : Variable K} (hv : v ∈ vs) : m'.Knows v := by
  refine knows_of_mem ?_
  rw [h.vars_eq]
  exact List.mem_append_right m.vars hv

/-- The new constraints of a model are the given ones up to their names. -/
theorem Grown.mem_constraints {m m' : Model K} {vs : List (Variable K)} {cs : List (Constraint K)}
    (h : m.Grown vs cs m') {c : Constraint K} (hc : c ∈ m'.constraints) :
    c ∈ m.constraints ∨ ∃ d ∈ cs, c.withName .none = d.withName .none := by
  obtain ⟨named, heq, hnamed⟩ := h.constraints_eq
  rw [heq, List.mem_append] at hc
  rcases hc with hc | hc
  · exact .inl hc
  · have hmem : c.withName .none ∈ cs.map fun d => d.withName .none :=
      hnamed ▸ List.mem_map_of_mem hc
    obtain ⟨d, hd, hdc⟩ := List.mem_map.1 hmem
    exact .inr ⟨d, hd, hdc.symm⟩

/-- **More variables and rows keep a model well-formed**, if the rows are. -/
theorem WellFormed.grown {m m' : Model K} {vs : List (Variable K)} {cs : List (Constraint K)}
    (h : m.WellFormed) (hg : m.Grown vs cs m') (hcs : m'.RowsWellFormed cs) :
    m'.WellFormed where
  ids i hi := by
    have hi' : i < m.vars.length + vs.length := by
      rwa [hg.vars_eq, List.length_append] at hi
    simp only [hg.vars_eq, hg.id_eq]
    rcases Nat.lt_or_ge i m.vars.length with hlt | hge
    · rw [List.getElem_append_left hlt, h.ids i hlt]
    · rw [List.getElem_append_right hge, hg.ids]
      congr 1
      omega
  proper v hv := by
    rw [hg.vars_eq, List.mem_append] at hv
    exact hv.elim (h.proper v) (hg.proper v)
  rows c hc := by
    rcases hg.mem_constraints hc with hc | ⟨d, hd, hcd⟩
    · exact (h.rows c hc).mono hg.keeps
    · have he : (c.withName .none).expr = (d.withName .none).expr :=
        congrArg (fun b : Constraint K => b.expr) hcd
      change c.expr = d.expr at he
      rw [he]
      exact hcs d hd
  objective e he := (h.objective e (hg.objective_eq ▸ he)).mono hg.keeps
  names := hg.names h.names

end Model

end MixedInteger
