import MixedInteger.Document.StandardForm
import MixedInteger.Proofs.Model.Feasible
import MixedInteger.Proofs.Model.Reachable

/-!
# The arrays of a model say the same

A model and its arrays are two forms of one problem.  This file says what the arrays allow, and proves
that it is what the model allows, and that the costs give the objective.  The one thing that arrays
cannot say is a row whose constant is infinite, because the constant is taken from the right-hand
side.

## What is here

* `StandardForm.Satisfies` — what arrays allow.
* `Model.dot_denseRow`, `Model.dot_costs` — a row of coefficients times the numbers of the variables.
* `Model.standardForm_spec` — when there are arrays, and what they say.
-/

set_option autoImplicit false

namespace MixedInteger

open Arithmetic

section Meaning

variable {F : Type} [Field F] [LinearOrder F]

/-- The product of a row of numbers and a list of exact numbers. -/
def dot (row : List (Extended F)) (x : List F) : Extended F :=
  (List.zipWith (fun c y => c * Extended.finite y) row x).sum

variable [FloorRing F] [ToString F] [Extended.Tolerance F]

/-- The arrays allow a list of numbers: each one is between its bounds, and an integer where it is
marked as one, and each row times the numbers is between its limits. -/
structure StandardForm.Satisfies (s : StandardForm (Extended F)) (x : List F) : Prop where
  bounds : ∀ (j : Nat) l u y, s.lower[j]? = some l → s.upper[j]? = some u → x[j]? = some y →
    le l (Extended.finite y) = true ∧ le (Extended.finite y) u = true
  integral : ∀ (j : Nat) (y : F), s.integrality[j]? = some true → x[j]? = some y → ∃ n : Int, y = n
  rows : ∀ (i : Nat) row l u, s.matrix[i]? = some row → s.rowLower[i]? = some l → s.rowUpper[i]? = some u →
    le l (dot row x) = true ∧ le (dot row x) u = true

/-- The arrays have a column for each of so many variables and a row for each of so many
constraints. -/
structure StandardForm.HasShape {K : Type} (s : StandardForm K) (columns rows : Nat) : Prop where
  lower : s.lower.length = columns
  upper : s.upper.length = columns
  integrality : s.integrality.length = columns
  cost : s.cost.length = columns
  matrix : s.matrix.length = rows
  row : ∀ row ∈ s.matrix, row.length = columns
  rowLower : s.rowLower.length = rows
  rowUpper : s.rowUpper.length = rows

end Meaning

namespace Model

/-- The objective and the rows mention variables of the model only. -/
structure MentionsOwn {K : Type} (m : Model K) : Prop where
  objective : ∀ e, m.objective = some e → ∀ t ∈ e.terms, ∃ v ∈ m.vars, v.id = t.1.id
  rows : ∀ c ∈ m.constraints, ∀ t ∈ c.expr.terms, ∃ v ∈ m.vars, v.id = t.1.id

theorem ownsAll_iff {K : Type} (m : Model K) (e : LinearExpr K) :
    m.ownsAll e = true ↔ ∀ t ∈ e.terms, ∃ v ∈ m.vars, v.id = t.1.id := by
  simp [ownsAll, owns]

theorem mentionsOwn_iff {K : Type} (m : Model K) :
    m.MentionsOwn ↔ (m.objective.all m.ownsAll && m.constraints.all fun c => m.ownsAll c.expr) =
      true := by
  rw [Bool.and_eq_true, List.all_eq_true]
  simp only [ownsAll_iff]
  constructor
  · rintro ⟨ho, hr⟩
    refine ⟨?_, hr⟩
    cases h : m.objective with
    | none => rfl
    | some e => exact (m.ownsAll_iff e).2 (ho e h)
  · rintro ⟨ho, hr⟩
    refine ⟨fun e he => ?_, hr⟩
    rw [he] at ho
    exact (m.ownsAll_iff e).1 ho

section Values

variable {F : Type} [Field F]

/-- The numbers of the variables, in the order of their creation. -/
def point (m : Model (Extended F)) (a : Assignment F) : List F := m.vars.map fun v => a v.id

/-! ## Sums over columns -/

theorem get?_cons {K : Type} (t : Variable K × K) (ts : Terms K) (v : Variable K) :
    Terms.get? (t :: ts) v = if t.1.id = v.id then some t.2 else Terms.get? ts v := by
  by_cases h : t.1.id = v.id <;> simp [Terms.get?, h]

theorem get?_eq_none {K : Type} {ts : Terms K} {v : Variable K}
    (h : v.id ∉ ts.map fun t => t.1.id) : Terms.get? ts v = none := by
  rw [Terms.get?, Option.map_eq_none_iff, List.find?_eq_none]
  intro t ht hid
  exact h (List.mem_map.2 ⟨t, ht, of_decide_eq_true hid⟩)

/-- Among variables that are apart, one stands for an identity. -/
theorem sum_single {vs : List (Variable (Extended F))} (hvs : (vs.map fun v => v.id).Nodup)
    {i : VariableId} (hi : ∃ v ∈ vs, v.id = i) (c : Extended F) :
    (vs.map fun v => if v.id = i then c else 0).sum = c := by
  have hmem : i ∈ vs.map fun v => v.id := List.mem_map.2 hi
  have hsum := List.sum_map_eq_nsmul_single (l := vs.map fun v => v.id) i
    (fun j => if j = i then c else 0) fun j hj _ => if_neg hj
  rw [List.count_eq_one_of_mem hvs hmem, one_nsmul, if_pos rfl, List.map_map] at hsum
  exact hsum

variable [LinearOrder F]

/-- **A sum over the columns is a sum over the terms**, if each term has a column. -/
theorem sum_columns {vs : List (Variable (Extended F))} (hvs : (vs.map fun v => v.id).Nodup)
    {ts : Terms (Extended F)} (hts : (ts.map fun t => t.1.id).Nodup)
    (hown : ∀ t ∈ ts, ∃ v ∈ vs, v.id = t.1.id) (f : Extended F → Extended F) (a : Assignment F) :
    (vs.map fun v => ((Terms.get? ts v).map f).getD 0 * a.lift v).sum =
      (ts.map fun t => f t.2 * a.lift t.1).sum := by
  have hzero : ∀ v : Variable (Extended F), (0 : Extended F) * a.lift v = 0 := by
    intro v
    rw [Extended.zero_def, Assignment.lift, Extended.finite_mul, zero_mul]
  induction ts with
  | nil => simp [Terms.get?, hzero]
  | cons t ts ih =>
    rw [List.map_cons, List.nodup_cons] at hts
    have hstep : ∀ v, ((Terms.get? (t :: ts) v).map f).getD 0 * a.lift v =
        (if v.id = t.1.id then f t.2 * a.lift t.1 else 0) +
          ((Terms.get? ts v).map f).getD 0 * a.lift v := by
      intro v
      rw [get?_cons]
      by_cases h : t.1.id = v.id
      · have hlift : a.lift v = a.lift t.1 := by rw [Assignment.lift, Assignment.lift, h]
        rw [if_pos h, if_pos h.symm, get?_eq_none (h ▸ hts.1), Option.map_none, Option.getD_none,
          hzero, add_zero, Option.map_some, Option.getD_some, hlift]
      · rw [if_neg h, if_neg (Ne.symm h), zero_add]
    simp only [hstep]
    rw [List.sum_map_add, sum_single hvs (hown t List.mem_cons_self),
      ih hts.2 fun u hu => hown u (List.mem_cons_of_mem t hu), List.map_cons, List.sum_cons]

/-- The product of a row over the columns with the numbers of the variables. -/
theorem dot_map (m : Model (Extended F)) (row : Variable (Extended F) → Extended F)
    (a : Assignment F) : dot (m.vars.map row) (m.point a) =
      (m.vars.map fun v => row v * a.lift v).sum := by
  rw [dot, point, List.zipWith_map, List.zipWith_self]
  rfl

variable [FloorRing F] [ToString F] [Extended.Tolerance F] {m : Model (Extended F)}

/-- **A row of coefficients times the numbers of the variables** is the expression without its
constant. -/
theorem dot_denseRow (hids : (m.vars.map fun v => v.id).Nodup) {e : LinearExpr (Extended F)}
    (he : (e.terms.map fun t => t.1.id).Nodup)
    (hown : ∀ t ∈ e.terms, ∃ v ∈ m.vars, v.id = t.1.id) (a : Assignment F) :
    dot (m.denseRow e) (m.point a) = (e.terms.map fun t => t.2 * a.lift t.1).sum := by
  rw [denseRow, dot_map, ← sum_columns hids he hown (fun c => c) a]
  simp only [Option.map_id_fun']
  rfl

/-- The objective as it is to be minimized. -/
def minimized (m : Model (Extended F)) (a : Assignment F) : Extended F :=
  match m.objective, m.direction with
  | none, _ => 0
  | some e, .minimize => e.value a.lift
  | some e, .maximize => -e.value a.lift

variable [IsStrictOrderedRing F]

omit [IsStrictOrderedRing F] in
theorem costs_eq (m : Model (Extended F)) : m.costs = m.vars.map fun v =>
    ((m.objective.bind fun e => Terms.get? e.terms v).map fun c => m.objectiveSign * c).getD 0 := by
  refine List.map_congr_left fun v _ => ?_
  cases m.objective.bind fun e => Terms.get? e.terms v <;> rfl

omit [FloorRing F] [ToString F] [Extended.Tolerance F] [IsStrictOrderedRing F] [LinearOrder F] in
theorem neg_sum_map {ι : Type} (l : List ι) (f : ι → Extended F) :
    -(l.map f).sum = (l.map fun i => -f i).sum := by
  induction l with
  | nil => exact congrArg Extended.finite neg_zero
  | cons i l ih => rw [List.map_cons, List.sum_cons, Extended.neg_sum, ih, List.map_cons, List.sum_cons]

/-- **The costs times the numbers of the variables, plus the offset,** are the objective. -/
theorem dot_costs (hids : (m.vars.map fun v => v.id).Nodup)
    (hobj : ∀ e, m.objective = some e → (e.terms.map fun t => t.1.id).Nodup)
    (hown : ∀ e, m.objective = some e → ∀ t ∈ e.terms, ∃ v ∈ m.vars, v.id = t.1.id)
    (a : Assignment F) :
    dot m.costs (m.point a) + (m.objective.map fun e => m.objectiveSign * e.constant).getD zero =
      m.minimized a := by
  rw [costs_eq, dot_map, minimized]
  cases ho : m.objective with
  | none =>
    have hzero : ∀ v ∈ m.vars, (0 : Extended F) * a.lift v = 0 := by
      intro v _
      rw [Extended.zero_def, Assignment.lift, Extended.finite_mul, zero_mul]
    simp only [Option.bind_none, Option.map_none, Option.getD_none]
    rw [List.map_congr_left hzero, List.sum_map_zero, zero_add]
    rfl
  | some e =>
    simp only [Option.bind_some, Option.map_some, Option.getD_some]
    rw [sum_columns hids (hobj e ho) (hown e ho) (fun c => m.objectiveSign * c) a, objectiveSign]
    cases m.direction with
    | minimize =>
      simp only [Extended.one_eq, Extended.finite_one_mul]
      rw [e.value_eq_sum, add_comm]
    | maximize =>
      simp only [Extended.one_eq, Extended.neg_finite, Extended.finite_neg_one_mul]
      rw [e.value_eq_sum, Extended.neg_sum, neg_sum_map, add_comm]
      congr 3
      funext t
      exact Extended.neg_mul_finite t.2 _

/-! ## Rows -/

/-- **A row holds exactly when it lies between its limits**, unless its constant is infinite. -/
theorem holds_iff_limits {c : Constraint (Extended F)} (hc : ∀ n, c.expr.constant ≠ .infinite n)
    (a : Variable (Extended F) → Extended F) {s : Extended F}
    (hs : s = (c.expr.terms.map fun t => t.2 * a t.1).sum) :
    c.holds a = true ↔ le (if c.relation = .le then negInfinity else c.offset) s = true ∧
      le s (if c.relation = .ge then infinity else c.offset) = true := by
  have hleft : le s c.offset = true → le (negInfinity : Extended F) s = true := by
    intro h
    cases s with
    | nan => cases h
    | _ => rfl
  have hright : le c.offset s = true → le s (infinity : Extended F) = true := by
    intro h
    cases s with
    | nan => cases hc : c.offset <;> rw [hc] at h <;> cases h
    | infinite n => cases n <;> rfl
    | finite x => rfl
  rw [Constraint.holds, c.expr.value_eq_sum, ← hs]
  cases c.relation with
  | le =>
    rw [if_pos rfl, if_neg (by decide)]
    simp only [Relation.compare, Extended.le_add hc]
    exact ⟨fun h => ⟨hleft h, h⟩, fun h => h.2⟩
  | ge =>
    rw [if_pos rfl, if_neg (by decide)]
    simp only [Relation.compare, Extended.add_le hc]
    exact ⟨fun h => ⟨h, hright h⟩, fun h => h.1⟩
  | eq =>
    rw [if_neg (by decide), if_neg (by decide)]
    simp only [Relation.compare, Extended.eq_eq_le, Extended.le_add hc, Extended.add_le hc, Bool.and_eq_true]
    rfl

/-- **The arrays of a model allow what the model allows**, unless the constant of a row is
infinite. -/
theorem satisfies_iff {s : StandardForm (Extended F)} (hs : m.standardForm = .ok s)
    (hids : (m.vars.map fun v => v.id).Nodup)
    (hrows : ∀ c ∈ m.constraints, (c.expr.terms.map fun t => t.1.id).Nodup) (hown : m.MentionsOwn)
    (hc : ∀ c ∈ m.constraints, ∀ n, c.expr.constant ≠ .infinite n) (a : Assignment F) :
    s.Satisfies (m.point a) ↔ m.Feasible a := by
  have hlimits : ∀ c ∈ m.constraints, c.holds a.lift = true ↔
      le (if c.relation = .le then negInfinity else c.offset)
        (dot (m.denseRow c.expr) (m.point a)) = true ∧
      le (dot (m.denseRow c.expr) (m.point a))
        (if c.relation = .ge then infinity else c.offset) = true := fun c hmem =>
    holds_iff_limits (hc c hmem) a.lift (dot_denseRow hids (hrows c hmem) (hown.rows c hmem) a)
  rw [standardForm] at hs
  split at hs
  · cases hs
  split at hs
  · cases hs
  cases hs
  constructor
  · intro hs
    refine ⟨fun v hv => ?_, fun c hmem => (hlimits c hmem).2 ?_⟩
    · obtain ⟨j, hj⟩ := List.getElem?_of_mem hv
      have hb := hs.bounds j v.lower v.upper (a v.id) (by simp [hj]) (by simp [hj])
        (by simp [point, hj])
      refine ⟨hb.1, hb.2, fun hi => hs.integral j (a v.id) ?_ ?_⟩
      · simp [hj, hi]
      · simp [point, hj]
    · obtain ⟨i, hi⟩ := List.getElem?_of_mem hmem
      exact hs.rows i _ _ _ (by simp [hi]) (by simp [hi]) (by simp [hi])
  · rintro ⟨hvars, hholds⟩
    refine ⟨?_, ?_, ?_⟩
    · intro j l u y hl hu hy
      simp only [point, List.getElem?_map, Option.map_eq_some_iff] at hl hu hy
      obtain ⟨v, hv, rfl⟩ := hl
      rw [hv] at hu hy
      obtain ⟨_, ⟨⟩, rfl⟩ := hu
      obtain ⟨_, ⟨⟩, rfl⟩ := hy
      have := hvars v (List.mem_of_getElem? hv)
      exact ⟨this.lower, this.upper⟩
    · intro j y hi hy
      simp only [point, List.getElem?_map, Option.map_eq_some_iff] at hi hy
      obtain ⟨v, hv, hvi⟩ := hi
      rw [hv] at hy
      obtain ⟨_, ⟨⟩, rfl⟩ := hy
      exact (hvars v (List.mem_of_getElem? hv)).integral hvi
    · intro i row l u hrow hl hu
      simp only [List.getElem?_map, Option.map_eq_some_iff] at hrow hl hu
      obtain ⟨c, hmem, rfl⟩ := hrow
      rw [hmem] at hl hu
      obtain ⟨_, ⟨⟩, rfl⟩ := hl
      obtain ⟨_, ⟨⟩, rfl⟩ := hu
      have hmem := List.mem_of_getElem? hmem
      exact (hlimits c hmem).1 (hholds c hmem)

/-! ## When there are arrays -/

omit [IsStrictOrderedRing F] in
theorem hasShape {s : StandardForm (Extended F)} (hs : m.standardForm = .ok s) :
    s.HasShape m.vars.length m.constraints.length := by
  rw [standardForm] at hs
  split at hs
  · cases hs
  split at hs
  · cases hs
  cases hs
  refine ⟨?_, ?_, ?_, ?_, ?_, ?_, ?_, ?_⟩
  all_goals simp [costs, denseRow]

/-- **The arrays of a model.**  A model without variables has none, a model that mentions variables of
other models has none either, and all others have.  The costs of these are the objective, and they
allow what the model allows, unless the constant of a row is infinite. -/
theorem standardForm_spec (hm : m.Reachable) :
    ((∃ f, m.standardForm = .error f ∧ f.kind = .value) ↔ m.vars = []) ∧
    (m.vars ≠ [] → ((∃ f, m.standardForm = .error f ∧ f.kind = .key) ↔ ¬m.MentionsOwn)) ∧
    (m.vars ≠ [] → m.MentionsOwn → ∃ s, m.standardForm = .ok s ∧
      s.HasShape m.vars.length m.constraints.length ∧
      (∀ a, dot s.cost (m.point a) + s.offset = m.minimized a) ∧
      ((∀ c ∈ m.constraints, ∀ n, c.expr.constant ≠ .infinite n) →
        ∀ a, s.Satisfies (m.point a) ↔ m.Feasible a)) := by
  have hw := hm.wellFormed
  by_cases hv : m.vars = []
  · have hs : m.standardForm = .error .noVariables := by simp [standardForm, hv]
    refine ⟨⟨fun _ => hv, fun _ => ⟨_, hs, rfl⟩⟩, fun h => absurd hv h, fun h => absurd hv h⟩
  · have hempty : m.vars.isEmpty = false := by simpa using hv
    by_cases hown : m.MentionsOwn
    · have hall := m.mentionsOwn_iff.1 hown
      obtain ⟨s, hs⟩ : ∃ s, m.standardForm = .ok s := by
        simp [standardForm, hempty, hall]
      have hoffset : s.cost = m.costs ∧
          s.offset = (m.objective.map fun e => m.objectiveSign * e.constant).getD zero := by
        rw [standardForm] at hs
        simp only [hempty, hall, Bool.false_eq_true, if_false, Bool.not_true] at hs
        cases hs
        exact ⟨rfl, rfl⟩
      have noFault : ∀ f, m.standardForm ≠ .error f := fun f h => nomatch hs.symm.trans h
      refine ⟨⟨fun ⟨f, h, _⟩ => absurd h (noFault f), fun h => absurd h hv⟩, fun _ =>
        ⟨fun ⟨f, h, _⟩ => absurd h (noFault f), fun h => absurd hown h⟩, fun _ _ => ?_⟩
      refine ⟨s, hs, hasShape hs, fun a => ?_, fun hc a => ?_⟩
      · rw [hoffset.1, hoffset.2]
        exact dot_costs hw.nodup_ids (fun e he => (hw.objective e he).nodup) hown.objective a
      · exact satisfies_iff hs hw.nodup_ids (fun c hc => (hw.rows c hc).nodup) hown hc a
    · have hall : (m.objective.all m.ownsAll && m.constraints.all fun c => m.ownsAll c.expr) =
          false := Bool.eq_false_iff.2 fun h => hown (m.mentionsOwn_iff.2 h)
      have hs : m.standardForm = .error .missingKey := by
        simp only [standardForm, hempty, hall, Bool.false_eq_true, if_false, Bool.not_false, if_true]
      refine ⟨⟨?_, fun h => absurd h hv⟩, fun _ => ⟨fun _ => hown, fun _ => ⟨_, hs, rfl⟩⟩,
        fun _ h => absurd h hown⟩
      rintro ⟨f, h, hk⟩
      cases hs.symm.trans h
      cases hk

end Values

/-! ## A row with an infinite constant -/

section Infinite

local instance : Extended.Tolerance ℚ := .standard

/-- A variable without bounds. -/
def freeVariable : Variable (Extended ℚ) :=
  ⟨⟨0, 0⟩, .text "x", .continuous, .infinite true, .infinite false⟩

/-- A model of one variable without bounds. -/
def freeModel : Model (Extended ℚ) := { empty 0 .none with vars := [freeVariable] }

/-- The row that the variable plus one number is at most another one. -/
def shiftedRow (c r : Extended ℚ) : Constraint (Extended ℚ) :=
  ⟨⟨[(freeVariable, .finite 1)], c⟩, .le, r, .none⟩

/-- The model of one variable with this row. -/
def shiftedModel (c r : Extended ℚ) : Model (Extended ℚ) :=
  { freeModel with
    constraints := [(shiftedRow c r).withName (.text "c0")]
    rowNames := [.text "c0"]
    constraintCounter := 1 }

theorem freeModel_reachable : freeModel.Reachable :=
  (Reachable.empty (K := Extended ℚ) 0 .none).call _
    (Call.admissible_addVariable (K := Extended ℚ) _ .continuous (.infinite true)
      (.infinite false) "x")

theorem shiftedModel_reachable (c r : Extended ℚ) : (shiftedModel c r).Reachable := by
  refine freeModel_reachable.call (.addConstraint (.constraint (shiftedRow c r) none) .none) ?_
  intro v hv p hp
  simp only [Call.arguments, List.mem_cons, List.not_mem_nil, or_false] at hv
  rcases hv with rfl | rfl
  · rw [List.mem_singleton.1 hp]
    refine ⟨List.nodup_singleton freeVariable.id, fun t ht => ?_⟩
    rw [List.mem_singleton.1 ht]
    exact knows_of_mem List.mem_cons_self
  · rw [List.mem_singleton.1 hp]
    trivial

theorem shiftedModel_mentionsOwn (c r : Extended ℚ) : (shiftedModel c r).MentionsOwn := by
  refine ⟨nofun, fun d hd t ht => ⟨freeVariable, List.mem_cons_self, ?_⟩⟩
  rw [List.mem_singleton.1 hd] at ht
  rw [List.mem_singleton.1 ht]

theorem standardForm_spec_shiftedModel : (shiftedModel (.finite 2) (.finite 5)).Reachable ∧
    ∃ s, (shiftedModel (.finite 2) (.finite 5)).standardForm = .ok s ∧
      ∀ a, s.Satisfies ((shiftedModel (.finite 2) (.finite 5)).point a) ↔
        (shiftedModel (.finite 2) (.finite 5)).Feasible a := by
  have hm := shiftedModel_reachable (.finite 2) (.finite 5)
  obtain ⟨s, hs, -, -, hiff⟩ := (standardForm_spec hm).2.2 nofun (shiftedModel_mentionsOwn _ _)
  refine ⟨hm, s, hs, hiff fun d hd n => ?_⟩
  rw [List.mem_singleton.1 hd]
  nofun

/-- The row that `x` plus infinity is at most infinity holds everywhere, and its arrays allow
nothing. -/
theorem exists_feasible_not_satisfies : ¬∀ m : Model (Extended ℚ), m.Reachable → m.vars ≠ [] →
    m.MentionsOwn → ∃ s, m.standardForm = .ok s ∧ ∀ a, s.Satisfies (m.point a) ↔ m.Feasible a := by
  intro h
  obtain ⟨s, hs, hiff⟩ := h (shiftedModel (.infinite false) (.infinite false))
    (shiftedModel_reachable _ _) nofun (shiftedModel_mentionsOwn _ _)
  have hfeasible : (shiftedModel (.infinite false) (.infinite false)).Feasible fun _ => 0 := by
    refine ⟨fun v hv => ?_, fun c hc => ?_⟩
    · rw [List.mem_singleton.1 hv]
      exact ⟨rfl, rfl, nofun⟩
    · rw [List.mem_singleton.1 hc]
      rfl
  cases hs
  have hrow := ((hiff _).2 hfeasible).rows 0 _ _ _ rfl rfl rfl
  cases hrow.2

end Infinite

end Model

end MixedInteger
