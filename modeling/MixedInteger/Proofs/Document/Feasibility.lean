import MixedInteger.Proofs.Document.LpRecovery

/-!
# What the written forms of a model allow

A model has two texts and arrays, and each of the three describes a problem.  The row-wise text and
the arrays are feasible together.  The column-wise text has no columns for variables that have no
coefficient, so it says nothing about their bounds; apart from these it allows the same.

## What is here

* `LpReading.Allows`, `MpsReading.Allows` — what is allowed by what a reader has found.
* `Model.meant` — the exact model that a model of printed numbers means.
* `Model.PrintsExactly` — models whose numbers are printed as they are.
* `Model.isFeasible_arrays_iff`, `Model.isFeasible_rows_iff`, `Model.isFeasible_iff_columns` — each
  of the three forms and the exact model.
* `Model.isFeasible_written_iff` — the three forms and each other.
-/

set_option autoImplicit false

namespace MixedInteger

open Arithmetic

variable (F : Type) [Field F]

/-- The same number in another field. -/
def Extended.cast : Extended ℚ → Extended F
  | .nan => .nan
  | .infinite n => .infinite n
  | .finite q => .finite q

variable {F}

theorem Extended.cast_zero : (Extended.finite 0).cast F = .finite 0 :=
  congrArg Extended.finite Rat.cast_zero

variable [LinearOrder F] [FloorRing F] [ToString F] [Extended.Tolerance F]

/-! ## What is allowed -/

/-- What has been read from a row-wise text allows numbers for the names: they are between their
bounds, integers where they have to be, and all rows hold.  A name that does not occur stands for a
number that is not below zero. -/
structure LpReading.Allows (r : LpReading) (x : String → F) : Prop where
  lower : ∀ n, le ((r.interval n).lower.cast F) (.finite (x n)) = true
  upper : ∀ n, le (.finite (x n)) ((r.interval n).upper.cast F) = true
  integral : ∀ n, r.domain n ≠ .continuous → ∃ k : Int, x n = k
  rows : ∀ row ∈ r.rows, row.relation.compare
    (row.terms.map fun t => t.1.cast F * .finite (x t.2)).sum (row.rhs.cast F) = true

/-- The left-hand side of a row that has been read from a column-wise text. -/
def MpsReading.activity (r : MpsReading) (x : String → F) (row : String) : Extended F :=
  (r.columnNames.dedup.map fun n => (r.coefficient n row).cast F * .finite (x n)).sum

/-- What has been read from a column-wise text allows numbers for the names: those of the columns
are between their bounds and integers where they have to be, and all rows hold. -/
structure MpsReading.Allows (r : MpsReading) (x : String → F) : Prop where
  lower : ∀ n ∈ r.columnNames, le ((r.interval n).lower.cast F) (.finite (x n)) = true
  upper : ∀ n ∈ r.columnNames, le (.finite (x n)) ((r.interval n).upper.cast F) = true
  integral : ∀ n ∈ r.columnNames, r.isInteger n = true → ∃ k : Int, x n = k
  rows : ∀ row ∈ r.rows,
    row.1.compare (r.activity x row.2) ((r.rhsOf row.2).cast F) = true

variable (F)

/-- Some numbers are allowed. -/
def LpReading.IsFeasible (r : LpReading) : Prop := ∃ x : String → F, r.Allows x

/-- Some numbers are allowed. -/
def MpsReading.IsFeasible (r : MpsReading) : Prop := ∃ x : String → F, r.Allows x

variable {F}

/-- Some list of numbers, one for each column, is allowed. -/
def StandardForm.IsFeasible (s : StandardForm (Extended F)) : Prop :=
  ∃ x : List F, x.length = s.lower.length ∧ s.Satisfies x

/-! ## Exact numbers -/

variable {K : Type} [Arithmetic K] [Printed K]

variable (F)

/-- The number that is meant, in a field. -/
def Arithmetic.Printed.meant (x : K) : Extended F := (Printed.exact x).cast F

/-- The variable with its exact bounds. -/
def Variable.meant (v : Variable K) : Variable (Extended F) :=
  ⟨v.id, .text v.name.label, v.domain, Printed.meant F v.lower, Printed.meant F v.upper⟩

/-- The constraint with its exact numbers, where the constant has moved to the right-hand side. -/
def Constraint.meant (c : Constraint K) : Constraint (Extended F) :=
  ⟨⟨c.expr.terms.map fun t => (t.1.meant F, Printed.meant F t.2), .finite 0⟩, c.relation,
    Printed.meant F c.offset, .none⟩

/-- The exact model, without the objective. -/
def Model.meant (m : Model K) : Model (Extended F) :=
  { empty m.id .none with
    vars := m.vars.map (Variable.meant F)
    constraints := m.constraints.map (Constraint.meant F) }

/-- Arrays with other numbers. -/
def StandardForm.map {K L : Type} (f : K → L) (s : StandardForm K) : StandardForm L :=
  { matrix := s.matrix.map (List.map f)
    rowLower := s.rowLower.map f
    rowUpper := s.rowUpper.map f
    lower := s.lower.map f
    upper := s.upper.map f
    cost := s.cost.map f
    integrality := s.integrality
    offset := f s.offset }

variable {F}

omit [LinearOrder F] [FloorRing F] [ToString F] [Extended.Tolerance F] in
theorem Arithmetic.Printed.meant_zero : Printed.meant F (zero : K) = .finite 0 := by
  rw [Printed.meant, Printed.exact_zero, Extended.cast_zero]

omit [LinearOrder F] [FloorRing F] [ToString F] [Extended.Tolerance F] in
theorem Arithmetic.Printed.meant_infinity : Printed.meant F (infinity : K) = .infinite false := by
  rw [Printed.meant, Printed.exact_infinity]
  rfl

omit [LinearOrder F] [FloorRing F] [ToString F] [Extended.Tolerance F] in
theorem Arithmetic.Printed.meant_negInfinity :
    Printed.meant F (negInfinity : K) = .infinite true := by
  rw [Printed.meant, negInfinity, Printed.exact_neg, Printed.exact_infinity]
  rfl

namespace Model

variable {m : Model K}

/-- The numbers of the rows and of the bounds are printed as they are. -/
structure PrintsExactly (m : Model K) : Prop where
  coefficients : ∀ c ∈ m.constraints, ∀ t ∈ c.expr.terms, (Printed.printed t.2 : Extended ℚ) =
    Printed.exact t.2
  offsets : ∀ c ∈ m.constraints, (Printed.printed c.offset : Extended ℚ) = Printed.exact c.offset
  lower : ∀ v ∈ m.vars, (Printed.printed v.lower : Extended ℚ) = Printed.exact v.lower
  upper : ∀ v ∈ m.vars, (Printed.printed v.upper : Extended ℚ) = Printed.exact v.upper

/-! ## Arrays -/

omit [LinearOrder F] [FloorRing F] [ToString F] [Extended.Tolerance F] in
theorem get?_meant (ts : Terms K) (v : Variable K) :
    Terms.get? (ts.map fun t => (t.1.meant F, Printed.meant F t.2)) (v.meant F) =
      (Terms.get? ts v).map (Printed.meant F) := by
  induction ts with
  | nil => rfl
  | cons t ts ih =>
    rw [List.map_cons, get?_cons, get?_cons, ih]
    by_cases h : t.1.id = v.id
    · rw [if_pos h]
      exact if_pos h
    · rw [if_neg h]
      exact if_neg h

theorem coefficient_meant (c : Constraint K) (v : Variable K) :
    (c.meant F).expr.coefficient (v.meant F) = Printed.meant F (c.expr.coefficient v) := by
  rw [LinearExpr.coefficient, Constraint.meant, get?_meant, LinearExpr.coefficient]
  cases Terms.get? c.expr.terms v with
  | none => exact Printed.meant_zero.symm
  | some x => rfl

theorem denseRow_meant (m : Model K) (c : Constraint K) :
    (m.meant F).denseRow (c.meant F).expr = (m.denseRow c.expr).map (Printed.meant F) := by
  rw [denseRow, denseRow, List.map_map]
  change (m.vars.map (Variable.meant F)).map _ = _
  rw [List.map_map]
  exact List.map_congr_left fun v _ => coefficient_meant c v

theorem offset_meant (c : Constraint K) : (c.meant F).offset = Printed.meant F c.offset :=
  Extended.sub_finite_zero _

omit [Arithmetic K] [Printed K] in
/-- The variables and the rows of the arrays alone decide what they allow. -/
theorem satisfies_congr {s t : StandardForm (Extended F)}
    (h : { s with cost := t.cost, offset := t.offset } = t) (x : List F) :
    s.Satisfies x ↔ t.Satisfies x := by
  rw [← h]
  exact ⟨fun ⟨hb, hi, hr⟩ => ⟨hb, hi, hr⟩, fun ⟨hb, hi, hr⟩ => ⟨hb, hi, hr⟩⟩

omit [LinearOrder F] [FloorRing F] [ToString F] [Extended.Tolerance F] in
theorem ids_meant (m : Model K) :
    (m.meant F).vars.map (fun v => v.id) = m.vars.map fun v => v.id := by
  change (m.vars.map (Variable.meant F)).map _ = _
  rw [List.map_map]
  rfl

omit [LinearOrder F] [FloorRing F] [ToString F] [Extended.Tolerance F] in
theorem mentionsOwn_meant (hown : m.MentionsOwn) : (m.meant F).MentionsOwn := by
  refine ⟨nofun, List.forall_mem_map.2 fun c hc => List.forall_mem_map.2 fun t ht => ?_⟩
  obtain ⟨v, hv, hid⟩ := hown.rows c hc t ht
  exact ⟨v.meant F, List.mem_map_of_mem hv, hid⟩

/-- The arrays of the exact model are the exact arrays, but for the objective. -/
theorem standardForm_meant {s : StandardForm K} (hs : m.standardForm = .ok s) :
    ∃ t, (m.meant F).standardForm = .ok t ∧
      { s.map (Printed.meant F) with cost := t.cost, offset := t.offset } = t := by
  rw [standardForm] at hs
  split at hs
  · cases hs
  next hempty =>
  split at hs
  · cases hs
  next hown =>
    have hown := mentionsOwn_meant (F := F) (m.mentionsOwn_iff.2 (by simpa using hown))
    have hempty' : (m.meant F).vars.isEmpty = false := by
      change (m.vars.map (Variable.meant F)).isEmpty = false
      simpa using hempty
    cases hs
    rw [standardForm, hempty', if_neg (by decide), (m.meant F).mentionsOwn_iff.1 hown,
      if_neg (by decide)]
    refine ⟨_, rfl, ?_⟩
    have hrows : ∀ {β : Type} (f : Constraint (Extended F) → β),
        (m.meant F).constraints.map f = m.constraints.map fun c => f (c.meant F) := fun f =>
      List.map_map
    have hcolumns : ∀ {β : Type} (f : Variable (Extended F) → β),
        (m.meant F).vars.map f = m.vars.map fun v => f (v.meant F) := fun f => List.map_map
    rw [StandardForm.map, StandardForm.mk.injEq]
    simp only [hrows, hcolumns, List.map_map]
    refine ⟨?_, ?_, ?_, rfl, rfl, trivial, rfl, trivial⟩
    · exact List.map_congr_left fun c _ => (denseRow_meant m c).symm
    · refine List.map_congr_left fun c _ => ?_
      rw [Function.comp_apply, offset_meant, apply_ite (Printed.meant F), Printed.meant_negInfinity]
      rfl
    · refine List.map_congr_left fun c _ => ?_
      rw [Function.comp_apply, offset_meant, apply_ite (Printed.meant F), Printed.meant_infinity]
      rfl

/-- **The arrays are feasible if the exact model is.** -/
theorem isFeasible_arrays_iff [IsStrictOrderedRing F] (hm : m.WellFormed) {s : StandardForm K}
    (hs : m.standardForm = .ok s) (hown : m.MentionsOwn) :
    (s.map (Printed.meant F)).IsFeasible ↔ ∃ a, (m.meant F).Feasible a := by
  obtain ⟨t, ht, hst⟩ := standardForm_meant (F := F) hs
  have hlower : (s.map (Printed.meant F)).lower = t.lower := by rw [← hst]
  have hlength : (s.map (Printed.meant F)).lower.length = m.vars.length := by
    rw [hlower, (hasShape ht).lower]
    exact List.length_map _
  rw [StandardForm.IsFeasible, hlength]
  have hterms : ∀ c ∈ (m.meant F).constraints, (c.expr.terms.map fun t => t.1.id).Nodup := by
    refine List.forall_mem_map.2 fun c hc => ?_
    change ((c.expr.terms.map _).map _).Nodup
    rw [List.map_map]
    exact (hm.rows c hc).nodup
  have hconstants : ∀ c ∈ (m.meant F).constraints, ∀ n, c.expr.constant ≠ .infinite n :=
    List.forall_mem_map.2 fun c _ n hinfinite => by cases hinfinite
  have hiff := satisfies_iff ht (ids_meant (F := F) m ▸ hm.nodup_ids) hterms
    (mentionsOwn_meant hown) hconstants
  constructor
  · rintro ⟨x, hx, hsat⟩
    have hpoint : (m.meant F).point (fun i => x.getD i.index 0) = x := by
      refine List.ext_getElem ?_ fun i hi hi' => ?_
      · simpa [point, meant] using hx.symm
      · simp only [point, meant, List.getElem_map, Variable.meant]
        rw [hm.ids, List.getD_eq_getElem _ _ hi']
    exact ⟨_, (hiff _).1 (hpoint ▸ (satisfies_congr hst x).1 hsat)⟩
  · rintro ⟨a, ha⟩
    refine ⟨(m.meant F).point a, by simp [point, meant], ?_⟩
    exact (satisfies_congr hst _).2 ((hiff a).2 ha)

/-! ## Names and variables -/

/-- Where the keys of a list are apart, there is a function with given values at the keys. -/
theorem exists_eq_of_nodup {α κ β : Type} [DecidableEq κ] {l : List α} {key : α → κ}
    (hk : (l.map key).Nodup) (g : α → β) (d : β) :
    ∃ f : κ → β, (∀ a ∈ l, f (key a) = g a) ∧ ∀ k, (∀ a ∈ l, key a ≠ k) → f k = d := by
  refine ⟨fun k => ((l.find? fun a => key a = k).map g).getD d, fun a ha => ?_, fun k hk => ?_⟩
  · dsimp only
    cases hf : l.find? fun b => key b = key a with
    | none => exact absurd (List.find?_eq_none.1 hf a ha) (by simp)
    | some b =>
      have hkey : key b = key a := by simpa using List.find?_some hf
      rw [List.inj_on_of_nodup_map hk (List.mem_of_find?_eq_some hf) ha hkey]
      rfl
  · have hf : (l.find? fun a => key a = k) = none :=
      List.find?_eq_none.2 fun a ha => by simpa using hk a ha
    dsimp only
    rw [hf]
    rfl

/-- What is left out of a sum does not count if it is zero. -/
theorem sum_map_filter {α M : Type} [AddMonoid M] {l : List α} {p : α → Bool} {f : α → M}
    (h : ∀ a ∈ l, p a = false → f a = 0) : ((l.filter p).map f).sum = (l.map f).sum := by
  induction l with
  | nil => rfl
  | cons a l ih =>
    have ih := ih fun b hb => h b (List.mem_cons_of_mem a hb)
    cases hp : p a with
    | true =>
      rw [List.filter_cons_of_pos hp, List.map_cons, List.map_cons, List.sum_cons, List.sum_cons, ih]
    | false =>
      rw [List.filter_cons_of_neg (by simp [hp]), List.map_cons, List.sum_cons,
        h a List.mem_cons_self hp, zero_add, ih]

/-! ## Rows -/

theorem holds_meant (c : Constraint K) (a : Assignment F) : (c.meant F).holds a.lift =
    c.relation.compare (c.expr.terms.map fun t => Printed.meant F t.2 * .finite (a t.1.id)).sum
      (Printed.meant F c.offset) := by
  rw [Constraint.holds, LinearExpr.value_eq_sum]
  change c.relation.compare (0 + ((c.expr.terms.map _).map _).sum) _ = _
  rw [zero_add, List.map_map]
  rfl

omit [FloorRing F] [ToString F] [Extended.Tolerance F] in
/-- The terms that are left out of a row are zero. -/
theorem sum_printedTerms {e : LinearExpr K} {x : String → F} {a : Assignment F}
    (hexact : ∀ t ∈ e.terms, (Printed.printed t.2 : Extended ℚ) = Printed.exact t.2)
    (hx : ∀ t ∈ e.terms, x t.1.name.label = a t.1.id) :
    (e.printedTerms.map fun t => t.1.cast F * .finite (x t.2)).sum =
      (e.terms.map fun t => Printed.meant F t.2 * .finite (a t.1.id)).sum := by
  obtain ⟨ts, c⟩ := e
  rw [LinearExpr.printedTerms]
  dsimp only at hexact hx ⊢
  induction ts with
  | nil => rfl
  | cons t ts ih =>
    have ih := ih (fun u hu => hexact u (List.mem_cons_of_mem t hu))
      fun u hu => hx u (List.mem_cons_of_mem t hu)
    have ht := hexact t List.mem_cons_self
    rw [List.filter_cons, List.map_cons, List.sum_cons, ← ih]
    cases hzero : eq t.2 zero with
    | true =>
      rw [Printed.printed_of_eq hzero, Printed.printed_zero] at ht
      rw [Printed.meant, ← ht, Extended.cast_zero, Extended.finite_mul, zero_mul]
      exact (zero_add _).symm
    | false =>
      rw [if_pos (by rfl), List.map_cons, List.map_cons, List.sum_cons, ht,
        hx t List.mem_cons_self, Printed.meant]

/-- A variable may take a number if this is between the printed bounds. -/
theorem PrintsExactly.allows_iff (hexact : m.PrintsExactly) {v : Variable K} (hv : v ∈ m.vars)
    {i : Interval (Extended ℚ)} (hi : i = ⟨Printed.printed v.lower, Printed.printed v.upper⟩)
    (y : F) :
    (v.meant F).Allows y ↔ le (i.lower.cast F) (.finite y) = true ∧
      le (.finite y) (i.upper.cast F) = true ∧ (v.isInteger = true → ∃ k : Int, y = k) := by
  rw [hi, hexact.lower v hv, hexact.upper v hv]
  exact ⟨fun ⟨hl, hu, hk⟩ => ⟨hl, hu, hk⟩, fun ⟨hl, hu, hk⟩ => ⟨hl, hu, hk⟩⟩

/-- A row holds as it has been read if it holds in the exact model. -/
theorem PrintsExactly.compare_printedTerms (hexact : m.PrintsExactly) (ht : m.HasOwnTerms)
    {x : String → F} {a : Assignment F} (hx : ∀ v ∈ m.vars, x v.name.label = a v.id)
    {c : Constraint K} (hc : c ∈ m.constraints) : c.relation.compare
      (c.expr.printedTerms.map fun t => t.1.cast F * .finite (x t.2)).sum
      ((Printed.printed c.offset : Extended ℚ).cast F) = (c.meant F).holds a.lift := by
  have hown : ∀ t ∈ c.expr.terms, x t.1.name.label = a t.1.id := fun t hmem =>
    hx t.1 (ht c.expr (expr_mem_exprs hc) t hmem)
  rw [holds_meant, sum_printedTerms (hexact.coefficients c hc) hown, hexact.offsets c hc,
    Printed.meant]

/-! ## The row-wise text -/

section Rows

variable {r : LpReading} (hr : r.Constrains m)

include hr

/-- A name that is not that of a variable has no bounds of its own. -/
theorem interval_of_unknown {n : String} (hn : ∀ v ∈ m.vars, v.name.label ≠ n) :
    r.interval n = ⟨.finite 0, .infinite false⟩ ∧ r.domain n = .continuous := by
  have hlist : ∀ p : Variable K → Bool, n ∉ (m.vars.filter p).map fun v => v.name.label := by
    intro p hmem
    obtain ⟨v, hv, hl⟩ := List.mem_map.1 hmem
    exact hn v (List.mem_filter.1 hv).1 hl
  have hbinary : n ∉ r.binary := hr.binary ▸ hlist _
  have hgeneral : n ∉ r.general := hr.general ▸ hlist _
  have hbounds : (r.bounds.filter fun b => b.name = n) = [] := by
    refine List.filter_eq_nil_iff.2 fun b hb hname => ?_
    have hmem : n ∈ r.bounds.map LpBound.name := List.mem_map.2 ⟨b, hb, of_decide_eq_true hname⟩
    rw [hr.bounds] at hmem
    exact hlist _ hmem
  rw [LpReading.interval, LpReading.domain, if_neg hbinary, if_neg hbinary, if_neg hgeneral,
    hbounds]
  exact ⟨rfl, rfl⟩

/-- **The row-wise text is feasible if the exact model is.** -/
theorem isFeasible_rows_iff (hexact : m.PrintsExactly) (hm : m.WellFormed) (h : m.HasIdentifiers)
    (ht : m.HasOwnTerms) : r.IsFeasible F ↔ ∃ a, (m.meant F).Feasible a := by
  constructor
  · rintro ⟨x, hx⟩
    obtain ⟨a, ha, -⟩ := exists_eq_of_nodup hm.nodup_ids (fun v => x v.name.label) 0
    have hagrees : ∀ v ∈ m.vars, x v.name.label = a v.id := fun v hv => (ha v hv).symm
    refine ⟨a, List.forall_mem_map.2 fun v hv => ?_, List.forall_mem_map.2 fun c hc => ?_⟩
    · refine (hexact.allows_iff hv (hr.interval v hv) (a v.id)).2 ?_
      rw [ha v hv]
      refine ⟨hx.lower _, hx.upper _, fun hi => hx.integral _ ?_⟩
      rw [hr.domain v hv]
      exact of_decide_eq_true hi
    · rw [← hexact.compare_printedTerms ht hagrees hc]
      exact hx.rows _ (hr.rows ▸ List.mem_map_of_mem hc)
  · rintro ⟨a, ha⟩
    obtain ⟨x, hx, hrest⟩ := exists_eq_of_nodup (h.nodup_vars hm) (fun v => a v.id) 0
    have hvars : ∀ v ∈ m.vars, _ := fun v hv =>
      (hexact.allows_iff hv (hr.interval v hv) (a v.id)).1 (ha.vars _ (List.mem_map_of_mem hv))
    have hnames : ∀ n, le ((r.interval n).lower.cast F) (.finite (x n)) = true ∧
        le (.finite (x n)) ((r.interval n).upper.cast F) = true ∧
        (r.domain n ≠ .continuous → ∃ k : Int, x n = k) := by
      intro n
      by_cases hn : ∀ v ∈ m.vars, v.name.label ≠ n
      · obtain ⟨hi, hd⟩ := interval_of_unknown hr hn
        rw [hi, hd, hrest n hn, Extended.cast_zero]
        exact ⟨by simp, rfl, fun hd => absurd rfl hd⟩
      · obtain ⟨v, hv, rfl⟩ : ∃ v ∈ m.vars, v.name.label = n := by simpa using hn
        obtain ⟨hl, hu, hk⟩ := hvars v hv
        rw [hx v hv, hr.domain v hv]
        exact ⟨hl, hu, fun hd => hk (decide_eq_true hd)⟩
    refine ⟨x, fun n => (hnames n).1, fun n => (hnames n).2.1, fun n => (hnames n).2.2, ?_⟩
    rw [hr.rows]
    refine List.forall_mem_map.2 fun c hc => ?_
    exact (hexact.compare_printedTerms ht hx hc).trans (ha.rows _ (List.mem_map_of_mem hc))

end Rows

/-! ## The column-wise text -/

omit [Printed K] in
/-- A variable that is not used has no coefficient but zero. -/
theorem eq_zero_of_not_uses {v : Variable K} (hv : m.uses v = false) {e : LinearExpr K}
    (he : e ∈ m.exprs) : eq (e.coefficient v) zero = true := by
  have hany := List.any_eq_false.1 hv e he
  simpa using hany

/-- The coefficients that are printed are those that are meant. -/
theorem PrintsExactly.coefficient (hexact : m.PrintsExactly) {c : Constraint K}
    (hc : c ∈ m.constraints) (v : Variable K) : (Printed.printed (c.expr.coefficient v) :
      Extended ℚ) = Printed.exact (c.expr.coefficient v) := by
  rw [LinearExpr.coefficient, Terms.get?]
  cases hf : c.expr.terms.find? fun t => t.1.id = v.id with
  | none => exact Printed.printed_zero.trans Printed.exact_zero.symm
  | some t => exact hexact.coefficients c hc t (List.mem_of_find?_eq_some hf)

section Columns

variable {r : MpsReading} (hr : r.Describes m) (hexact : m.PrintsExactly) (hm : m.WellFormed)
  (h : m.HasIdentifiers) (ht : m.HasOwnTerms)

include hr hm h

/-- The columns are those of the variables that are used. -/
theorem perm_columnNames :
    r.columnNames.dedup.Perm ((m.vars.filter m.uses).map fun v => v.name.label) := by
  have hnodup : ((m.vars.filter m.uses).map fun v => v.name.label).Nodup :=
    (h.nodup_vars hm).sublist (List.filter_sublist.map _)
  refine (List.perm_ext_iff_of_nodup (List.nodup_dedup _) hnodup).2 fun n => ?_
  rw [List.mem_dedup, hr.columns n, List.mem_map]
  constructor
  · rintro ⟨v, hv, hl, hu⟩
    exact ⟨v, List.mem_filter.2 ⟨hv, hu⟩, hl⟩
  · rintro ⟨v, hv, hl⟩
    obtain ⟨hv, hu⟩ := List.mem_filter.1 hv
    exact ⟨v, hv, hl, hu⟩

include hexact ht

/-- **The left-hand side of a row is that of the exact model**: what is left out is zero. -/
theorem activity_eq {x : String → F} {a : Assignment F}
    (hx : ∀ v ∈ m.vars, m.uses v = true → x v.name.label = a v.id) {c : Constraint K}
    (hc : c ∈ m.constraints) : r.activity x c.name.label =
      (c.expr.terms.map fun t => Printed.meant F t.2 * .finite (a t.1.id)).sum := by
  have hown : ∀ t ∈ (c.meant F).expr.terms, ∃ v ∈ (m.meant F).vars, v.id = t.1.id :=
    List.forall_mem_map.2 fun t hmem =>
      ⟨t.1.meant F, List.mem_map_of_mem (ht c.expr (expr_mem_exprs hc) t hmem), rfl⟩
  have hterms : ((c.meant F).expr.terms.map fun t => t.1.id).Nodup := by
    change ((c.expr.terms.map _).map _).Nodup
    rw [List.map_map]
    exact (hm.rows c hc).nodup
  have hused : ∀ v ∈ m.vars.filter m.uses,
      (r.coefficient v.name.label c.name.label).cast F * .finite (x v.name.label) =
        Printed.meant F (c.expr.coefficient v) * .finite (a v.id) := by
    intro v hv
    obtain ⟨hv, hu⟩ := List.mem_filter.1 hv
    rw [hr.coefficient v hv c hc, hexact.coefficient hc, hx v hv hu, Printed.meant]
  have hunused : ∀ v ∈ m.vars, m.uses v = false →
      Printed.meant F (c.expr.coefficient v) * .finite (a v.id) = 0 := by
    intro v _ hu
    have hzero := Printed.printed_of_eq (eq_zero_of_not_uses hu (expr_mem_exprs hc))
    rw [hexact.coefficient hc, Printed.printed_zero] at hzero
    rw [Printed.meant, hzero, Extended.cast_zero, Extended.finite_mul, zero_mul, Extended.zero_def]
  have hdot := dot_denseRow (ids_meant (F := F) m ▸ hm.nodup_ids) hterms hown a
  rw [denseRow, dot_map] at hdot
  change ((m.vars.map (Variable.meant F)).map _).sum = ((c.expr.terms.map _).map _).sum at hdot
  rw [List.map_map, List.map_map] at hdot
  calc r.activity x c.name.label
      = ((m.vars.filter m.uses).map fun v => (r.coefficient v.name.label c.name.label).cast F *
          .finite (x v.name.label)).sum := by
        rw [MpsReading.activity, ((perm_columnNames hr hm h).map _).sum_eq, List.map_map]
        rfl
    _ = ((m.vars.filter m.uses).map fun v =>
          Printed.meant F (c.expr.coefficient v) * .finite (a v.id)).sum := by
        rw [List.map_congr_left hused]
    _ = (m.vars.map fun v => Printed.meant F (c.expr.coefficient v) * .finite (a v.id)).sum :=
        sum_map_filter hunused
    _ = (m.vars.map fun v => (c.meant F).expr.coefficient (v.meant F) * .finite (a v.id)).sum := by
        simp only [coefficient_meant]
    _ = (c.expr.terms.map fun t => Printed.meant F t.2 * .finite (a t.1.id)).sum := hdot

/-- A row holds as it has been read if it holds in the exact model. -/
theorem compare_activity {x : String → F} {a : Assignment F}
    (hx : ∀ v ∈ m.vars, m.uses v = true → x v.name.label = a v.id) {c : Constraint K}
    (hc : c ∈ m.constraints) :
    c.relation.compare (r.activity x c.name.label) ((r.rhsOf c.name.label).cast F) =
      (c.meant F).holds a.lift := by
  rw [activity_eq hr hexact hm h ht hx hc, hr.rhs c hc, hexact.offsets c hc, holds_meant,
    Printed.meant]

/-- **The column-wise text is feasible if the exact model is, apart from the variables that are not
used.** -/
theorem isFeasible_columns_iff : r.IsFeasible F ↔
    ∃ a : Assignment F, (∀ v ∈ m.vars, m.uses v = true → (v.meant F).Allows (a v.id)) ∧
      ∀ c ∈ m.constraints, (c.meant F).holds a.lift = true := by
  constructor
  · rintro ⟨x, hx⟩
    obtain ⟨a, ha, -⟩ := exists_eq_of_nodup hm.nodup_ids (fun v => x v.name.label) 0
    refine ⟨a, fun v hv hu => ?_, fun c hc => ?_⟩
    · have hmem := (hr.columns _).2 ⟨v, hv, rfl, hu⟩
      refine (hexact.allows_iff hv (hr.interval v hv hu) (a v.id)).2 ?_
      rw [ha v hv]
      refine ⟨hx.lower _ hmem, hx.upper _ hmem, fun hi => hx.integral _ hmem ?_⟩
      rw [hr.isInteger v hv hu, hi]
    · rw [← compare_activity hr hexact hm h ht (fun v hv _ => (ha v hv).symm) hc]
      exact hx.rows (c.relation, c.name.label) (hr.rows ▸ List.mem_map_of_mem hc)
  · rintro ⟨a, hvars, hrows⟩
    obtain ⟨x, hx, -⟩ := exists_eq_of_nodup (h.nodup_vars hm) (fun v => a v.id) 0
    have hcolumns : ∀ n ∈ r.columnNames, le ((r.interval n).lower.cast F) (.finite (x n)) = true ∧
        le (.finite (x n)) ((r.interval n).upper.cast F) = true ∧
        (r.isInteger n = true → ∃ k : Int, x n = k) := by
      intro n hn
      obtain ⟨v, hv, rfl, hu⟩ := (hr.columns n).1 hn
      rw [hx v hv, hr.isInteger v hv hu]
      exact (hexact.allows_iff hv (hr.interval v hv hu) (a v.id)).1 (hvars v hv hu)
    refine ⟨x, fun n hn => (hcolumns n hn).1, fun n hn => (hcolumns n hn).2.1,
      fun n hn => (hcolumns n hn).2.2, ?_⟩
    rw [hr.rows]
    refine List.forall_mem_map.2 fun c hc => ?_
    exact (compare_activity hr hexact hm h ht (fun v hv _ => hx v hv) hc).trans (hrows c hc)

/-- **The exact model is feasible if the column-wise text is and there are numbers for the variables
that are not used.** -/
theorem isFeasible_iff_columns : (∃ a, (m.meant F).Feasible a) ↔ r.IsFeasible F ∧
    ∀ v ∈ m.vars, m.uses v = false → ∃ y, (v.meant F).Allows y := by
  rw [isFeasible_columns_iff hr hexact hm h ht]
  constructor
  · rintro ⟨a, ha⟩
    have hvars : ∀ v ∈ m.vars, (v.meant F).Allows (a v.id) := fun v hv =>
      ha.vars _ (List.mem_map_of_mem hv)
    exact ⟨⟨a, fun v hv _ => hvars v hv, fun c hc => ha.rows _ (List.mem_map_of_mem hc)⟩,
      fun v hv _ => ⟨_, hvars v hv⟩⟩
  · rintro ⟨⟨a, hvars, hrows⟩, hunused⟩
    have hsome : ∀ v, ∃ y, v ∈ m.vars → (v.meant F).Allows y ∧ (m.uses v = true → y = a v.id) := by
      intro v
      by_cases hv : v ∈ m.vars
      · cases hu : m.uses v with
        | true => exact ⟨a v.id, fun _ => ⟨hvars v hv hu, fun _ => rfl⟩⟩
        | false =>
          obtain ⟨y, hy⟩ := hunused v hv hu
          exact ⟨y, fun _ => ⟨hy, nofun⟩⟩
      · exact ⟨0, fun hv' => absurd hv' hv⟩
    choose y hy using hsome
    obtain ⟨b, hb, -⟩ := exists_eq_of_nodup hm.nodup_ids y 0
    obtain ⟨x, hx, -⟩ := exists_eq_of_nodup (h.nodup_vars hm) (fun v => a v.id) 0
    refine ⟨b, List.forall_mem_map.2 fun v hv => ?_, List.forall_mem_map.2 fun c hc => ?_⟩
    · change (v.meant F).Allows (b v.id)
      rw [hb v hv]
      exact (hy v hv).1
    · -- Both assignments give the row the left-hand side that is read from the text.
      have hxb : ∀ v ∈ m.vars, m.uses v = true → x v.name.label = b v.id := fun v hv hu => by
        rw [hx v hv, hb v hv, (hy v hv).2 hu]
      rw [← compare_activity hr hexact hm h ht hxb hc,
        compare_activity hr hexact hm h ht (fun v hv _ => hx v hv) hc]
      exact hrows c hc

end Columns

/-! ## All written forms -/

omit [Arithmetic K] [Printed K] in
/-- A model whose terms mention its own variables mentions no others. -/
theorem HasOwnTerms.mentionsOwn (ht : m.HasOwnTerms) : m.MentionsOwn where
  objective e he t hmem := ⟨t.1, ht e (objective_mem_exprs he) t hmem, rfl⟩
  rows c hc t hmem := ⟨t.1, ht c.expr (expr_mem_exprs hc) t hmem, rfl⟩

omit [Printed K] in
theorem exists_standardForm (hvars : m.vars ≠ []) (hown : m.MentionsOwn) :
    ∃ s, m.standardForm = .ok s := by
  have hempty : m.vars.isEmpty = false := by simpa using hvars
  have hall := m.mentionsOwn_iff.1 hown
  simp [standardForm, hempty, hall]

/-- **The three written forms of a model.**  If its numbers are printed as they are, the arrays are
feasible if the row-wise text is, and this is feasible if the column-wise text is and there is a
number for each variable that is not used: one between its bounds, and an integer if it has to be. -/
theorem isFeasible_written_iff [IsStrictOrderedRing F] {m : Model Float} (hm : m.Reachable)
    (hvars : m.vars ≠ []) (h : m.HasIdentifiers) (htitle : m.HasTitle)
    (hobj : ∀ c ∈ m.constraints, c.name ≠ .text objectiveRow) (ht : m.HasOwnTerms)
    (hexact : m.PrintsExactly) :
    ∃ lp mps rows columns arrays, m.problem.lpText = .ok lp ∧ LpReading.read lp = some rows ∧
      m.problem.mpsText = .ok mps ∧ MpsReading.read mps = some columns ∧
      m.standardForm = .ok arrays ∧
      ((arrays.map (Printed.meant F)).IsFeasible ↔ rows.IsFeasible F) ∧
      (rows.IsFeasible F ↔ columns.IsFeasible F ∧
        ∀ v ∈ m.vars, m.uses v = false → ∃ y, (v.meant F).Allows y) := by
  have hw := hm.wellFormed
  obtain ⟨lp, rows, hlp, hrows, hconstrains⟩ := hw.exists_lpReading_constrains h ht
  obtain ⟨mps, columns, hmps, hcolumns, hdescribes⟩ :=
    hw.exists_mpsReading_describes h htitle hobj
  obtain ⟨arrays, harrays⟩ := exists_standardForm hvars ht.mentionsOwn
  have hrowsIff := isFeasible_rows_iff (F := F) hconstrains hexact hw h ht
  have hcolumnsIff := isFeasible_iff_columns (F := F) hdescribes hexact hw h ht
  refine ⟨lp, mps, rows, columns, arrays, hlp, hrows, hmps, hcolumns, harrays, ?_, ?_⟩
  · exact (isFeasible_arrays_iff hw harrays ht.mentionsOwn).trans hrowsIff.symm
  · exact hrowsIff.trans hcolumnsIff

section Examples

local instance : Extended.Tolerance ℚ := .standard

theorem loadModel_printsExactly : loadModel.PrintsExactly where
  coefficients := by
    refine List.forall_mem_singleton.2 (List.forall_mem_cons.2 ⟨?_, List.forall_mem_singleton.2 ?_⟩)
    all_goals decide +kernel
  offsets := List.forall_mem_singleton.2 (by decide +kernel)
  lower :=
    List.forall_mem_cons.2 ⟨by decide +kernel, List.forall_mem_singleton.2 (by decide +kernel)⟩
  upper :=
    List.forall_mem_cons.2 ⟨by decide +kernel, List.forall_mem_singleton.2 (by decide +kernel)⟩

/-- The three written forms of the small model. -/
theorem isFeasible_written_iff_loadModel : ∃ lp mps rows columns arrays,
    loadModel.problem.lpText = .ok lp ∧ LpReading.read lp = some rows ∧
    loadModel.problem.mpsText = .ok mps ∧ MpsReading.read mps = some columns ∧
    loadModel.standardForm = .ok arrays ∧
    ((arrays.map (Printed.meant ℚ)).IsFeasible ↔ rows.IsFeasible ℚ) ∧
    (rows.IsFeasible ℚ ↔ columns.IsFeasible ℚ ∧
      ∀ v ∈ loadModel.vars, loadModel.uses v = false → ∃ y, (v.meant ℚ).Allows y) :=
  isFeasible_written_iff loadModel_reachable nofun loadModel_hasIdentifiers (.inl rfl)
    (List.forall_mem_singleton.2 fun hname => absurd (Value.text.inj hname) (by decide))
    loadModel_hasOwnTerms loadModel_printsExactly

/-! ### A variable that is not used -/

/-- An integer variable without an integer between its bounds. -/
def share : Variable Float := ⟨⟨0, 0⟩, .text "share", .integer, 0.25, 0.75⟩

/-- The model of this variable. -/
def shareModel : Model Float := { empty 0 .none with vars := [share] }

theorem shareModel_reachable : shareModel.Reachable :=
  (Reachable.empty (K := Float) 0 .none).of_call _
    (Call.admissible_addVariable _ .integer 0.25 0.75 "share") rfl

theorem shareModel_printsExactly : shareModel.PrintsExactly where
  coefficients c hc := absurd hc List.not_mem_nil
  offsets c hc := absurd hc List.not_mem_nil
  lower := List.forall_mem_singleton.2 (by decide +kernel)
  upper := List.forall_mem_singleton.2 (by decide +kernel)

/-- No number is allowed for the variable. -/
theorem not_allows_share (y : ℚ) : ¬(share.meant ℚ).Allows y := by
  rintro ⟨hl, hu, hk⟩
  obtain ⟨k, rfl⟩ := hk rfl
  have hlower : (Printed.exact (0.25 : Float) : Extended ℚ) = .finite (1 / 4) := by decide +kernel
  have hupper : (Printed.exact (0.75 : Float) : Extended ℚ) = .finite (3 / 4) := by decide +kernel
  change le ((Printed.exact (0.25 : Float)).cast ℚ) (.finite (k : ℚ)) = true at hl
  change le (.finite (k : ℚ)) ((Printed.exact (0.75 : Float)).cast ℚ) = true at hu
  rw [hlower] at hl
  rw [hupper] at hu
  have hl : (((1 / 4 : ℚ) : ℚ)) ≤ k := of_decide_eq_true hl
  have hu : (k : ℚ) ≤ ((3 / 4 : ℚ) : ℚ) := of_decide_eq_true hu
  have hpos : (0 : ℚ) < k := by linarith
  have hlt : (k : ℚ) < 1 := by linarith
  norm_cast at hpos hlt
  omega

/-- **The column-wise text can be feasible where the two other forms are not**: it does not mention
a variable that is not used. -/
theorem exists_columns_isFeasible : ∃ (m : Model Float) (lp mps : String) (rows : LpReading)
    (columns : MpsReading) (arrays : StandardForm Float), m.Reachable ∧ m.vars ≠ [] ∧
    m.HasIdentifiers ∧ m.HasTitle ∧ (∀ c ∈ m.constraints, c.name ≠ .text objectiveRow) ∧
    m.HasOwnTerms ∧ m.PrintsExactly ∧
    m.problem.lpText = .ok lp ∧ LpReading.read lp = some rows ∧
    m.problem.mpsText = .ok mps ∧ MpsReading.read mps = some columns ∧ m.standardForm = .ok arrays ∧
    columns.IsFeasible ℚ ∧ ¬rows.IsFeasible ℚ ∧ ¬(arrays.map (Printed.meant ℚ)).IsFeasible := by
  have hw := shareModel_reachable.wellFormed
  have hidentifiers : shareModel.HasIdentifiers := ⟨by decide, by decide⟩
  have hterms : shareModel.HasOwnTerms := fun e he => absurd he List.not_mem_nil
  have hobj : ∀ c ∈ shareModel.constraints, c.name ≠ .text objectiveRow := fun c hc =>
    absurd hc List.not_mem_nil
  have hinfeasible : ¬∃ a, (shareModel.meant ℚ).Feasible a := fun ⟨a, ha⟩ =>
    not_allows_share _ (ha.vars _ List.mem_cons_self)
  obtain ⟨lp, rows, hlp, hrows, hconstrains⟩ := hw.exists_lpReading_constrains hidentifiers hterms
  obtain ⟨mps, columns, hmps, hcolumns, hdescribes⟩ :=
    hw.exists_mpsReading_describes hidentifiers (.inl rfl) hobj
  obtain ⟨arrays, harrays⟩ := exists_standardForm (m := shareModel) nofun hterms.mentionsOwn
  refine ⟨shareModel, lp, mps, rows, columns, arrays, shareModel_reachable, nofun, hidentifiers,
    .inl rfl, hobj, hterms, shareModel_printsExactly, hlp, hrows, hmps, hcolumns, harrays,
    ?_, ?_, ?_⟩
  · refine (isFeasible_columns_iff hdescribes shareModel_printsExactly hw hidentifiers hterms).2
      ⟨fun _ => 0, fun v _ hu => ?_, fun c hc => absurd hc List.not_mem_nil⟩
    cases hu
  · exact fun h => hinfeasible
      ((isFeasible_rows_iff hconstrains shareModel_printsExactly hw hidentifiers hterms).1 h)
  · exact fun h => hinfeasible ((isFeasible_arrays_iff hw harrays hterms.mentionsOwn).1 h)

end Examples

end Model

end MixedInteger
