import MixedInteger.Proofs.Reformulation.Completion

/-!
# Operands of reformulations

A call whose operands are variables of the model, in finite numbers, reads numbers that the bounds of
those variables bound.

## What is here

* `Model.Has`, `Model.Feasible.contains`, `Model.Feasible.binary` — what the variables of a model can
  be.
* `Variable.IsOf.allows_binary` and its kin — what a new variable can be.
* `Model.Call.IsOver` — a reformulation of variables from a list, with bounds derived from theirs.
* `sum_eq_length_or`, `sum_eq_zero_or` — sums of zeros and ones.
* `Value.IsExact.toExpr`, `Value.operands_of_toBinaries` and their kin — what is read from arguments.
-/

set_option autoImplicit false

namespace MixedInteger

open Arithmetic

/-! ## Reading operands -/

section Operands

variable {K : Type} [Arithmetic K]

/-- Operands that are read as binary variables are variables. -/
theorem Value.operands_of_toBinaries {context : String} {args : List (Value K)}
    {vs : List (Variable K)} (h : toBinaries context args = .ok vs) :
    args = vs.map .var ∧ ∀ v ∈ vs, v.isBinary = true := by
  have hforall := forall₂_of_mapM_eq_ok h
  clear h
  induction hforall with
  | nil => exact ⟨rfl, fun _ h => absurd h List.not_mem_nil⟩
  | cons hx _ ih =>
    obtain ⟨rfl, hb⟩ := toBinary_eq_ok hx
    obtain ⟨rfl, hbs⟩ := ih
    exact ⟨rfl, List.forall_mem_cons.2 ⟨hb, hbs⟩⟩

omit [Arithmetic K] in
theorem Model.Call.mem_vars_of_operand {c : Model.Call K} {args : List (Value K)}
    (hargs : ∀ x ∈ args, x ∈ c.arguments) {v : Variable K} (hv : .var v ∈ Value.operands args) :
    v ∈ c.vars := by
  obtain ⟨x, hx, p, hp, hvp⟩ := Value.exists_part_of_operand hv (v := v) List.mem_cons_self
  exact Variable.mem_vars_of_part (hargs x hx) hp hvp

omit [Arithmetic K] in
theorem Model.Call.mem_vars_of_arg {c : Model.Call K} {x : Value K} (hx : x ∈ c.arguments)
    {v : Variable K} (hv : v ∈ x.vars) : v ∈ c.vars := by
  obtain ⟨p, hp, hvp⟩ := Value.vars_subset_parts hv
  exact Variable.mem_vars_of_part hx hp hvp

end Operands

/-! ## Calls over variables -/

/-- A variable of the model, up to its name. -/
def Model.Has {K : Type} (m : Model K) (v : Variable K) : Prop := ∃ w ∈ m.vars, v.Alike w

theorem Model.Has.knows {K : Type} {m : Model K} {v : Variable K} (h : m.Has v) : m.Knows v :=
  fun _ => h

theorem Model.Has.mono {K : Type} {m n : Model K} {v : Variable K} (hv : m.Has v) (hk : m.Keeps n) :
    n.Has v := by
  obtain ⟨w, hw, hvw⟩ := hv
  obtain ⟨u, hu, hwu⟩ := hk.vars w hw
  exact ⟨u, hu, hvw.trans hwu⟩

namespace Model

variable {F : Type} [Field F]

/-- A call reformulates something over variables from a list: its arguments mention no others, its
numbers are finite, and it leaves the bounds to be derived. -/
structure Call.IsOver (vs : List (Variable (Extended F))) (c : Call (Extended F)) : Prop where
  reformulation : c.isReformulation = true
  vars : ∀ v ∈ c.vars, ∃ w ∈ vs, v.Alike w
  exact : c.IsExact
  bigM : c.bigM = .none

variable {m : Model (Extended F)}

theorem Call.IsOver.of_has {vs : List (Variable (Extended F))} {c : Call (Extended F)}
    (hc : c.IsOver vs) (hvs : ∀ v ∈ vs, m.Has v) : c.IsOver m.vars where
  reformulation := hc.reformulation
  vars v hv := by
    obtain ⟨w, hw, hvw⟩ := hc.vars v hv
    obtain ⟨u, hu, hwu⟩ := hvs w hw
    exact ⟨u, hu, hvw.trans hwu⟩
  exact := hc.exact
  bigM := hc.bigM

theorem Call.IsOver.has {c : Call (Extended F)} (hc : c.IsOver m.vars)
    {x : Value (Extended F)} (hx : x ∈ c.arguments) {v : Variable (Extended F)} (hv : v ∈ x.vars) :
    m.Has v :=
  hc.vars v (Call.mem_vars_of_arg hx hv)

theorem Call.IsOver.knows {c : Call (Extended F)} (hc : c.IsOver m.vars)
    {x : Value (Extended F)} (hx : x ∈ c.arguments) {v : Variable (Extended F)} (hv : v ∈ x.vars) :
    m.Knows v :=
  (hc.has hx hv).knows

theorem Call.IsExact.arg {c : Call (Extended F)} (hc : c.IsExact) {x : Value (Extended F)}
    (hx : x ∈ c.arguments) : x.IsExact := by
  cases x with
  | sequence | table => trivial
  | _ => exact hc _ hx _ List.mem_cons_self

theorem Call.IsOver.exact_arg {c : Call (Extended F)} (hc : c.IsOver m.vars)
    {x : Value (Extended F)} (hx : x ∈ c.arguments) : x.IsExact :=
  hc.exact.arg hx

end Model

variable {F : Type} [Field F] [LinearOrder F] [FloorRing F] [ToString F] [Extended.Tolerance F]

/-! ## Variables -/

namespace Model.Feasible

variable {m : Model (Extended F)} {a : Assignment F} {v : Variable (Extended F)}

theorem allows (ha : m.Feasible a) (hv : m.Has v) : v.Allows (a v.id) := by
  obtain ⟨w, hw, hvw⟩ := hv
  have h := ha.vars w hw
  rw [← hvw.id_eq] at h
  have hi : v.interval.Contains (a v.id) := by
    rw [hvw.interval_eq]
    exact h.contains
  refine ⟨hi.lower, hi.upper, fun hint => h.integral ?_⟩
  rwa [Variable.isInteger, ← hvw.domain_eq]

theorem contains (ha : m.Feasible a) (hv : m.Has v) : v.interval.Contains (a v.id) :=
  (ha.allows hv).contains

end Model.Feasible

namespace Variable

variable {v : Variable (Extended F)} {x : F}

theorem IsOf.allows_iff {d : Domain} {i : Interval (Extended F)} (hv : v.IsOf d i) :
    v.Allows x ↔ i.Contains x ∧ (d ≠ .continuous → ∃ n : Int, x = n) := by
  constructor
  · intro h
    refine ⟨hv.interval_eq ▸ h.contains, fun hd => h.integral ?_⟩
    rw [isInteger, hv.domain_eq, decide_eq_true hd]
  · rintro ⟨hi, hn⟩
    rw [← hv.interval_eq] at hi
    refine ⟨hi.lower, hi.upper, fun hd => hn ?_⟩
    rw [isInteger, hv.domain_eq] at hd
    exact of_decide_eq_true hd

theorem IsOf.allows_continuous {l u : F} (hv : v.IsOf .continuous ⟨.finite l, .finite u⟩) :
    v.Allows x ↔ l ≤ x ∧ x ≤ u := by
  rw [hv.allows_iff, Interval.contains_finite]
  exact and_iff_left fun h => absurd rfl h

variable [IsStrictOrderedRing F]

omit [ToString F] [Extended.Tolerance F] in
theorem eq_zero_or_one {n : Int} (h : (n : F) = x) (h₀ : 0 ≤ x) (h₁ : x ≤ 1) : x = 0 ∨ x = 1 := by
  rw [← h] at h₀ h₁ ⊢
  have h₀ : 0 ≤ n := Int.cast_nonneg_iff.1 h₀
  have h₁ : n ≤ 1 := by exact_mod_cast h₁
  obtain rfl | rfl : n = 0 ∨ n = 1 := by omega
  · exact .inl Int.cast_zero
  · exact .inr Int.cast_one

theorem IsOf.allows_binary (hv : v.IsOf .binary ⟨zero, one⟩) : v.Allows x ↔ x = 0 ∨ x = 1 := by
  rw [hv.allows_iff, Extended.zero_eq, Extended.one_eq, Interval.contains_finite]
  constructor
  · rintro ⟨⟨h₀, h₁⟩, hn⟩
    obtain ⟨n, hn⟩ := hn (by decide)
    exact eq_zero_or_one hn.symm h₀ h₁
  · rintro (rfl | rfl)
    · exact ⟨⟨le_rfl, zero_le_one⟩, fun _ => ⟨0, Int.cast_zero.symm⟩⟩
    · exact ⟨⟨zero_le_one, le_rfl⟩, fun _ => ⟨1, Int.cast_one.symm⟩⟩

theorem IsOf.allows_integer {l u : Int} (hv : v.IsOf .integer ⟨.finite l, .finite u⟩) :
    v.Allows x ↔ ∃ n : Int, x = n ∧ l ≤ n ∧ n ≤ u := by
  rw [hv.allows_iff, Interval.contains_finite]
  constructor
  · rintro ⟨⟨hl, hu⟩, hn⟩
    obtain ⟨n, rfl⟩ := hn (by decide)
    exact ⟨n, rfl, Int.cast_le.1 hl, Int.cast_le.1 hu⟩
  · rintro ⟨n, rfl, hl, hu⟩
    exact ⟨⟨Int.cast_le.2 hl, Int.cast_le.2 hu⟩, fun _ => ⟨n, rfl⟩⟩

end Variable

variable [IsStrictOrderedRing F]

/-- A binary variable of a model is zero or one. -/
theorem Model.Feasible.binary {m : Model (Extended F)} (hm : m.WellFormed) {a : Assignment F}
    (ha : m.Feasible a) {v : Variable (Extended F)} (hv : m.Has v) (hb : v.isBinary = true) :
    a v.id = 0 ∨ a v.id = 1 := by
  have hallows := ha.allows hv
  obtain ⟨w, hw, hvw⟩ := hv
  rw [Variable.isBinary] at hb
  cases hd : v.domain with
  | continuous => simp [hd] at hb
  | binary =>
    have hproper := (hm.proper w hw).binary (hvw.domain_eq.symm.trans hd)
    have hof : v.IsOf .binary ⟨zero, one⟩ := ⟨hd, hvw.interval_eq.trans hproper⟩
    exact hof.allows_binary.1 hallows
  | integer =>
    rw [hd] at hb
    simp only [Bool.and_eq_true] at hb
    have hl := Extended.eq_of_eq hb.1
    have hu := Extended.eq_of_eq hb.2
    obtain ⟨n, hn⟩ := hallows.integral (by rw [Variable.isInteger, hd]; rfl)
    have h₀ := hallows.lower
    have h₁ := hallows.upper
    rw [hl, Extended.zero_eq, Extended.le_finite, decide_eq_true_iff] at h₀
    rw [hu, Extended.one_eq, Extended.le_finite, decide_eq_true_iff] at h₁
    exact Variable.eq_zero_or_one hn.symm h₀ h₁

/-! ## Sums of binary numbers -/

section Sums

variable {ι : Type} {f : ι → F} {l : List ι}

omit [FloorRing F] [ToString F] [Extended.Tolerance F] in
/-- A sum of zeros and ones is the number of summands, or at least one less. -/
theorem sum_eq_length_or (h : ∀ i ∈ l, f i = 0 ∨ f i = 1) :
    ((l.map f).sum = l.length ∧ ∀ i ∈ l, f i = 1) ∨
      ((l.map f).sum ≤ l.length - 1 ∧ ∃ i ∈ l, f i = 0) := by
  induction l with
  | nil => exact .inl ⟨by simp, fun _ h => absurd h List.not_mem_nil⟩
  | cons i l ih =>
    obtain ⟨hi, hl⟩ := List.forall_mem_cons.1 h
    simp only [List.map_cons, List.sum_cons, List.length_cons, Nat.cast_succ]
    rcases hi with hi | hi <;> rcases ih hl with ⟨hs, hall⟩ | ⟨hs, j, hj, hfj⟩
    · exact .inr ⟨by rw [hs, hi]; linarith, i, List.mem_cons_self, hi⟩
    · exact .inr ⟨by linarith, i, List.mem_cons_self, hi⟩
    · exact .inl ⟨by rw [hs, hi]; ring, List.forall_mem_cons.2 ⟨hi, hall⟩⟩
    · exact .inr ⟨by linarith, j, List.mem_cons_of_mem i hj, hfj⟩

omit [FloorRing F] [ToString F] [Extended.Tolerance F] in
/-- A sum of zeros and ones is zero, or at least one. -/
theorem sum_eq_zero_or (h : ∀ i ∈ l, f i = 0 ∨ f i = 1) :
    ((l.map f).sum = 0 ∧ ∀ i ∈ l, f i = 0) ∨ (1 ≤ (l.map f).sum ∧ ∃ i ∈ l, f i = 1) := by
  induction l with
  | nil => exact .inl ⟨rfl, fun _ h => absurd h List.not_mem_nil⟩
  | cons i l ih =>
    obtain ⟨hi, hl⟩ := List.forall_mem_cons.1 h
    simp only [List.map_cons, List.sum_cons]
    rcases hi with hi | hi <;> rcases ih hl with ⟨hs, hall⟩ | ⟨hs, j, hj, hfj⟩
    · exact .inl ⟨by rw [hs, hi, add_zero], List.forall_mem_cons.2 ⟨hi, hall⟩⟩
    · exact .inr ⟨by linarith, j, List.mem_cons_of_mem i hj, hfj⟩
    · exact .inr ⟨by linarith, i, List.mem_cons_self, hi⟩
    · exact .inr ⟨by linarith, i, List.mem_cons_self, hi⟩

end Sums

/-! ## Reading numbers and expressions -/

namespace Scalar

variable {s t : Scalar (Extended F)}

omit [LinearOrder F] [FloorRing F] [ToString F] [Extended.Tolerance F] [IsStrictOrderedRing F] in
/-- A finite scalar is an integer or a number of the model. -/
theorem exact_cases (hs : (Value.scalar s).IsExact) :
    (∃ n, s.exact = .inl n ∧ s.number = n) ∨ ∃ y, s.exact = .inr (.finite y) ∧ s.number = y := by
  cases s with
  | truth b =>
    refine .inl ⟨if b then 1 else 0, rfl, ?_⟩
    cases b
    · exact Int.cast_zero.symm
    · exact Int.cast_one.symm
  | integer n => exact .inl ⟨n, rfl, rfl⟩
  | real x mark =>
    obtain ⟨y, rfl⟩ := hs
    exact .inr ⟨y, rfl, rfl⟩

theorem lt_iff (hs : (Value.scalar s).IsExact) (ht : (Value.scalar t).IsExact) :
    s.lt t = true ↔ s.number < t.number := by
  obtain ⟨m, hs, hsn⟩ | ⟨x, hs, hsn⟩ := exact_cases hs <;>
    obtain ⟨n, ht, htn⟩ | ⟨y, ht, htn⟩ := exact_cases ht <;> rw [lt, hs, ht, hsn, htn]
  · simp
  · simp [compareInt]
  · simp [compareInt]
  · simp

omit [IsStrictOrderedRing F] in
theorem eq_iff (hs : (Value.scalar s).IsExact) (ht : (Value.scalar t).IsExact) :
    s.eq t = true ↔ s.number = t.number := by
  obtain ⟨m, hs, hsn⟩ | ⟨x, hs, hsn⟩ := exact_cases hs <;>
    obtain ⟨n, ht, htn⟩ | ⟨y, ht, htn⟩ := exact_cases ht <;> rw [eq, hs, ht, hsn, htn]
  · simp
  · rw [eq_comm (a := (m : F))]
    simp [compareInt]
  · simp [compareInt]
  · simp

/-- **Comparisons of finite scalars are exact.** -/
theorem le_iff (hs : (Value.scalar s).IsExact) (ht : (Value.scalar t).IsExact) :
    s.le t = true ↔ s.number ≤ t.number := by
  rw [le, Bool.or_eq_true, lt_iff hs ht, eq_iff hs ht, le_iff_lt_or_eq]

end Scalar

namespace Value

omit [IsStrictOrderedRing F] in
theorem IsExact.toNumber {s : Scalar (Extended F)} (hs : (scalar s).IsExact) {k : Extended F}
    (h : s.toNumber = .ok k) : k = .finite s.number := by
  cases s with
  | truth b => cases b <;> cases h <;> rfl
  | integer n => cases h; rfl
  | real x mark =>
    obtain ⟨y, rfl⟩ := hs
    cases h
    rfl

omit [IsStrictOrderedRing F] in
/-- A finite scalar can be read. -/
theorem IsExact.toNumber_eq_ok {s : Scalar (Extended F)} (hs : (scalar s).IsExact) :
    s.toNumber = .ok (.finite s.number) := by
  have hok : ∃ k, s.toNumber = .ok k := by
    cases s with
    | truth b => cases b <;> exact ⟨_, rfl⟩
    | integer n => exact ⟨_, rfl⟩
    | real x mark => exact ⟨_, rfl⟩
  obtain ⟨k, hk⟩ := hok
  rw [hk, hs.toNumber hk]

omit [IsStrictOrderedRing F] in
theorem IsExact.toNumber?_eq_ok {s : Scalar (Extended F)} (hs : (scalar s).IsExact) :
    (scalar s).toNumber? = .ok (some (.finite s.number)) := by
  change s.toNumber.map some = _
  rw [hs.toNumber_eq_ok]
  rfl

omit [IsStrictOrderedRing F] [LinearOrder F] [FloorRing F] [ToString F] [Extended.Tolerance F] in
theorem IsExact.toConstraint {context : String} {x : Value (Extended F)} (hx : x.IsExact)
    {c : Constraint (Extended F)} (h : x.toConstraint context = .ok c) :
    c.expr.IsFinite ∧ (∀ t ∈ c.expr.terms, t.2 ≠ .finite 0) ∧ c.rhs = .finite c.rhs.number ∧
      c.expr.vars = x.vars := by
  obtain ⟨i, rfl⟩ := toConstraint_eq_ok h
  obtain ⟨⟨hfinite, hne⟩, b, hb⟩ := hx
  exact ⟨hfinite, hne, by rw [hb, Extended.number_finite], rfl⟩

theorem IsExact.toExpr [Extended.Tolerance.IsZero F] {x : Value (Extended F)} (hx : x.IsExact)
    {e : LinearExpr (Extended F)} (h : x.toExpr = .ok e) :
    e.IsFinite ∧ (∀ v ∈ e.vars, v ∈ x.vars) ∧ ∀ a, e.eval a = x.eval a := by
  cases x with
  | expr f =>
    cases h
    exact ⟨hx.1, fun v hv => hv, fun a => rfl⟩
  | var v =>
    cases h
    refine ⟨inferInstance, fun w hw => ?_, fun a => LinearExpr.eval_ofVariable a v⟩
    obtain ⟨t, ht, rfl⟩ := List.mem_map.1 hw
    obtain rfl := List.mem_singleton.1 (List.mem_filter.1 ht).1
    exact List.mem_cons_self
  | scalar s =>
    obtain ⟨k, hk, h⟩ := bind_eq_ok.1 h
    cases h
    obtain rfl := hx.toNumber hk
    refine ⟨⟨Terms.isFinite_nil, _, rfl⟩, fun w hw => absurd hw List.not_mem_nil, fun a => ?_⟩
    exact add_zero _
  | _ => cases h

end Value

/-- **The bounds of an expression over variables of a model bound its number.** -/
theorem Model.Feasible.interval_contains {m : Model (Extended F)} {a : Assignment F}
    (ha : m.Feasible a) (e : LinearExpr (Extended F)) [e.IsFinite] (hv : ∀ v ∈ e.vars, m.Has v) :
    e.interval.Contains (e.eval a) :=
  e.interval_contains fun t ht => ha.contains (hv t.1 (List.mem_map_of_mem ht))

/-! ## Operands of a model that allows an assignment -/

namespace Model

variable {m n : Model (Extended F)} {answer : Value (Extended F)}

/-- The later model expresses what the call means. -/
abbrev Call.IsExpressed (c : Call (Extended F)) (m n : Model (Extended F))
    (answer : Value (Extended F)) : Prop :=
  m.Expresses n answer.handedOver fun a => c.Meaning a (answer.handedOver.map fun v => a v.id)

/-- The operands of a connective are zero or one. -/
theorem Feasible.operands {a : Assignment F} (ha : m.Feasible a) (hm : m.WellFormed)
    {c : Call (Extended F)} (hc : c.IsOver m.vars) {args : List (Value (Extended F))}
    (hargs : ∀ x ∈ args, x ∈ c.arguments) {vs : List (Variable (Extended F))}
    (hops : Value.operands args = vs.map .var) (hbin : ∀ v ∈ vs, v.isBinary = true) :
    ∀ v ∈ vs, a v.id = 0 ∨ a v.id = 1 := by
  intro v hv
  have hmem : .var v ∈ Value.operands args := hops ▸ List.mem_map_of_mem hv
  exact ha.binary hm (hc.vars v (Call.mem_vars_of_operand hargs hmem)) (hbin v hv)

/-- An argument that is read as a binary variable is zero or one. -/
theorem Feasible.argument {a : Assignment F} (ha : m.Feasible a) (hm : m.WellFormed)
    {c : Call (Extended F)} (hc : c.IsOver m.vars) {v : Variable (Extended F)}
    (hx : .var v ∈ c.arguments) (hb : v.isBinary = true) : a v.id = 0 ∨ a v.id = 1 :=
  ha.binary hm (hc.vars v (Call.mem_vars_of_arg hx List.mem_cons_self)) hb

end Model

end MixedInteger
