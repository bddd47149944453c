import MixedInteger.Proofs.Document.Columns
import MixedInteger.Proofs.Document.MpsReading

/-!
# The column-wise text says what the model says

The column-wise text goes variable by variable, the continuous ones first, and leaves out what is
zero and what nothing is said about.  A reader nevertheless finds the whole model in it, apart from
the variables that occur nowhere.

## What is here

* `filter_flatMap` — what a list that goes block by block says about one key.
* `MpsBound.foldl_apply` — the bounds of a variable, taken in order, are its own.
* `MpsReading.Describes` — a reader has found a model.
* `Model.exists_mpsReading` — a reader finds a model in its text.
-/

set_option autoImplicit false

namespace MixedInteger

/-! ## Lists that go block by block -/

section Blocks

variable {α β κ : Type} [DecidableEq κ] {key : α → κ} {tag : β → κ}

/-- What carries a key is in the blocks of this key. -/
theorem filter_flatMap {block : α → List β} {l : List α}
    (htag : ∀ a ∈ l, ∀ b ∈ block a, tag b = key a) (k : κ) :
    (l.flatMap block).filter (fun b => tag b = k) =
      (l.filter fun a => key a = k).flatMap block := by
  induction l with
  | nil => rfl
  | cons a l ih =>
    have htag' := htag a List.mem_cons_self
    rw [List.flatMap_cons, List.filter_append, ih fun c hc => htag c (List.mem_cons_of_mem a hc)]
    by_cases h : key a = k
    · rw [List.filter_cons_of_pos (by simpa using h), List.flatMap_cons,
        List.filter_eq_self.2 fun b hb => decide_eq_true ((htag' b hb).trans h)]
    · rw [List.filter_cons_of_neg (by simpa using h),
        List.filter_eq_nil_iff.2 fun b hb => by simpa [htag' b hb] using h, List.nil_append]

/-- A key that is in use once stands for one element. -/
theorem filter_key_eq {l : List α} (hl : (l.map key).Nodup) {a : α} (ha : a ∈ l) :
    l.filter (fun b => key b = key a) = [a] := by
  induction l with
  | nil => cases ha
  | cons b l ih =>
    obtain ⟨hb, hl⟩ := List.nodup_cons.1 hl
    rcases List.mem_cons.1 ha with rfl | ha
    · have hnil : l.filter (fun c => key c = key a) = [] := by
        refine List.filter_eq_nil_iff.2 fun c hc hk => hb ?_
        exact List.mem_map.2 ⟨c, hc, of_decide_eq_true hk⟩
      rw [List.filter_cons_of_pos (by simp), hnil]
    · have hne : key b ≠ key a := fun h => hb (h ▸ List.mem_map_of_mem ha)
      rw [List.filter_cons_of_neg (by simpa using hne), ih hl ha]

/-- **What carries the key of an element is the block of this element.** -/
theorem filter_flatMap_key {block : α → List β} {l : List α} (hl : (l.map key).Nodup)
    (htag : ∀ a ∈ l, ∀ b ∈ block a, tag b = key a) {a : α} (ha : a ∈ l) :
    (l.flatMap block).filter (fun b => tag b = key a) = block a := by
  rw [filter_flatMap htag, filter_key_eq hl ha, List.flatMap_singleton]

end Blocks

variable {K : Type} [Arithmetic K]

open Arithmetic

/-! ## Bounds -/

namespace MpsBound

/-- The bounds of a variable are bounds of its column. -/
theorem name_of_mem {v : Variable K} {b : MpsBound K} (hb : b ∈ ofVariable v) :
    b.name = v.name.label := by
  unfold ofVariable at hb
  split at hb
  · rw [List.mem_singleton.1 hb, name]
  split at hb
  · rw [List.mem_singleton.1 hb, name]
  split at hb
  · rw [List.mem_singleton.1 hb, name]
  rcases List.mem_append.1 hb with hb | hb
  · split at hb
    · rw [List.mem_singleton.1 hb, name]
    split at hb
    · cases hb
    · rw [List.mem_singleton.1 hb, name]
  · split at hb
    · rw [List.mem_singleton.1 hb, name]
    · rw [List.mem_singleton.1 hb, name]

variable [Printed K]

/-- Infinity is printed as it is, and so is what equals it. -/
theorem printed_of_eq_infinity {x : K} (h : eq x infinity = true) :
    Printed.printed x = .infinite false := (Printed.printed_of_eq h).trans Printed.printed_infinity

theorem printed_of_eq_negInfinity {x : K} (h : eq x negInfinity = true) :
    Printed.printed x = .infinite true := by
  rw [Printed.printed_of_eq h, negInfinity, Printed.printed_neg, Printed.printed_infinity]
  rfl

/-- **The bounds of a variable, taken in order, are its own.** -/
theorem foldl_apply {v : Variable K} (hv : v.IsProper) :
    ((ofVariable v).map (map Printed.printed)).foldl apply ⟨.finite 0, .infinite false⟩ =
      ⟨Printed.printed v.lower, Printed.printed v.upper⟩ := by
  unfold ofVariable
  split
  next hbinary =>
    have hi : v.interval = ⟨zero, one⟩ := hv.binary hbinary
    have hl : v.lower = zero := congrArg Interval.lower hi
    have hu : v.upper = one := congrArg Interval.upper hi
    rw [hl, hu, Printed.printed_zero, Printed.printed_one]
    rfl
  split
  next hfree =>
    obtain ⟨hl, hu⟩ := Bool.and_eq_true_iff.1 hfree
    rw [printed_of_eq_negInfinity hl, printed_of_eq_infinity hu]
    rfl
  split
  next heq =>
    rw [← Printed.printed_of_eq heq]
    rfl
  have hlower : ((if eq v.lower negInfinity then [unboundedBelow v.name.label]
      else if eq v.lower zero then [] else [lower v.name.label v.lower]).map
        (map Printed.printed)).foldl apply ⟨.finite 0, .infinite false⟩ =
      ⟨Printed.printed v.lower, .infinite false⟩ := by
    split
    next hl =>
      rw [printed_of_eq_negInfinity hl]
      rfl
    split
    next hl =>
      rw [Printed.printed_of_eq hl, Printed.printed_zero]
      rfl
    next => rfl
  rw [List.map_append, List.foldl_append, hlower]
  split
  next hu =>
    rw [printed_of_eq_infinity hu]
    rfl
  next => rfl

end MpsBound

/-! ## The rows and columns of a model -/

variable [Printed K]

/-- What a reader has found is a model: the same rows, the same coefficients, and for each variable
that is used the same bounds and the same kind. -/
structure MpsReading.Describes (r : MpsReading) (m : Model K) : Prop where
  direction : r.direction = m.direction
  rows : r.rows = m.constraints.map fun c => (c.relation, c.name.label)
  objective : ∀ v ∈ m.vars, r.coefficient v.name.label r.objective =
    (m.objective.map fun e => Printed.printed (e.coefficient v)).getD (.finite 0)
  offset : r.offset = (m.objective.map fun e => Printed.printed e.constant).getD (.finite 0)
  coefficient : ∀ v ∈ m.vars, ∀ c ∈ m.constraints,
    r.coefficient v.name.label c.name.label = Printed.printed (c.expr.coefficient v)
  rhs : ∀ c ∈ m.constraints, r.rhsOf c.name.label = Printed.printed c.offset
  columns : ∀ n, n ∈ r.columnNames ↔ ∃ v ∈ m.vars, v.name.label = n ∧ m.uses v = true
  isInteger : ∀ v ∈ m.vars, m.uses v = true → r.isInteger v.name.label = v.isInteger
  interval : ∀ v ∈ m.vars, m.uses v = true →
    r.interval v.name.label = ⟨Printed.printed v.lower, Printed.printed v.upper⟩

namespace Model

/-- The coefficient of a variable in a row, as a reader finds it. -/
def cell (v : Variable K) (row : Value K × LinearExpr K) : List (MpsEntry (Extended ℚ) × Bool) :=
  if eq (row.2.coefficient v) zero then []
  else [(⟨v.name.label, row.1.label, Printed.printed (row.2.coefficient v)⟩, v.isInteger)]

theorem row_of_mem_cell {v : Variable K} {row : Value K × LinearExpr K}
    {e : MpsEntry (Extended ℚ) × Bool} (he : e ∈ cell v row) : e.1.row = row.1.label := by
  unfold cell at he
  split at he
  · cases he
  · rw [List.mem_singleton.1 he]

/-- A coefficient that is left out is zero. -/
theorem sum_cells (v : Variable K) (rows : List (Value K × LinearExpr K)) :
    ((rows.flatMap (cell v)).map fun e => e.1.value).sum =
      (rows.map fun r => (Printed.printed (r.2.coefficient v) : Extended ℚ)).sum := by
  induction rows with
  | nil => rfl
  | cons r rows ih =>
    have hcell : ((cell v r).map fun e => e.1.value).sum = Printed.printed (r.2.coefficient v) := by
      unfold cell
      split
      next hzero =>
        rw [Printed.printed_of_eq hzero, Printed.printed_zero]
        rfl
      next => exact add_zero _
    rw [List.flatMap_cons, List.map_append, List.sum_append, ih, hcell, List.map_cons,
      List.sum_cons]

/-- The column of a variable, as a reader finds it. -/
def column (m : Model K) (v : Variable K) : List (MpsEntry (Extended ℚ) × Bool) :=
  m.problem.namedExprs.flatMap (cell v)

/-- The variables in the order of their columns. -/
def columnOrder (m : Model K) : List (Variable K) :=
  (m.vars.filter fun v => v.domain = .continuous) ++ m.vars.filter fun v => v.domain ≠ .continuous

omit [Arithmetic K] [Printed K] in
theorem columnOrder_perm (m : Model K) : m.columnOrder.Perm m.vars := by
  have hnot : (fun v : Variable K => decide (v.domain ≠ .continuous)) =
      fun v => !decide (v.domain = .continuous) := funext fun v => decide_not
  rw [columnOrder, hnot]
  exact List.filter_append_perm _ _

theorem column_of_mem {m : Model K} {v : Variable K} {e : MpsEntry (Extended ℚ) × Bool}
    (he : e ∈ m.column v) : e.1.column = v.name.label ∧ e.2 = v.isInteger := by
  obtain ⟨row, -, he⟩ := List.mem_flatMap.1 he
  unfold cell at he
  split at he
  · cases he
  · rw [List.mem_singleton.1 he]
    exact ⟨rfl, rfl⟩

/-- A variable has a column if it is used. -/
theorem column_ne_nil {m : Model K} (hm : m.WellFormed) (v : Variable K) :
    m.column v ≠ [] ↔ m.uses v = true := by
  rw [uses, ← hm.exprs_eq, column, Ne, List.flatMap_eq_nil_iff]
  simp [cell]

/-! ## Right-hand sides -/

end Model

namespace MpsFile

/-- The right-hand sides of the rows of a name are found with the numbers that are printed. -/
theorem rhsOf_reading (f : MpsFile K) (n : String) : f.reading.rhsOf n =
    ((f.rhs.filter fun r => r.1 = n).map fun r => Printed.printed r.2).sum := by
  rw [MpsReading.rhsOf, reading, List.filter_map, List.map_map]
  rfl

/-- A right-hand side that is left out is zero. -/
theorem sum_unless_zero (n : String) (x : K) :
    (([(n, x)].filter fun r => !eq r.2 zero).map fun r => (Printed.printed r.2 : Extended ℚ)).sum =
      Printed.printed x := by
  cases hx : eq x zero with
  | true =>
    rw [List.filter_cons_of_neg (by simp [hx]), Printed.printed_of_eq hx, Printed.printed_zero]
    rfl
  | false =>
    rw [List.filter_cons_of_pos (by simp [hx])]
    exact add_zero _

/-- The right-hand side of the objective row. -/
def objectiveRhs (p : Problem K) : List (String × K) :=
  match p.objective with
  | some e => if eq e.constant zero then [] else [(objectiveRow, -e.constant)]
  | none => []

omit [Printed K] in
theorem rhs_ofProblem (title : String) (p : Problem K) : (ofProblem title p).rhs =
    objectiveRhs p ++ (p.rows.map fun r => (r.1.label, r.2.offset)).filter fun r => !eq r.2 zero :=
  rfl

omit [Printed K] in
theorem eq_of_mem_objectiveRhs {p : Problem K} {r : String × K} (hr : r ∈ objectiveRhs p) :
    r.1 = objectiveRow := by
  unfold objectiveRhs at hr
  split at hr
  · split at hr
    · cases hr
    · rw [List.mem_singleton.1 hr]
  · cases hr

/-- The right-hand side of the objective is its constant with the other sign. -/
theorem sum_objectiveRhs (p : Problem K) :
    ((objectiveRhs p).map fun r => (Printed.printed r.2 : Extended ℚ)).sum =
      -(p.objective.map fun e => Printed.printed e.constant).getD (.finite 0) := by
  unfold objectiveRhs
  cases p.objective with
  | none => exact congrArg Extended.finite neg_zero.symm
  | some e =>
    rw [Option.map_some, Option.getD_some]
    dsimp only
    split
    next hzero =>
      rw [Printed.printed_of_eq hzero, Printed.printed_zero]
      exact congrArg Extended.finite neg_zero.symm
    next => exact (add_zero _).trans (Printed.printed_neg _)

end MpsFile

namespace Model

/-! ## What is found -/

section Written

variable {m : Model K} (hm : m.WellFormed) (h : m.HasIdentifiers)
  (hobj : ∀ c ∈ m.constraints, c.name ≠ .text objectiveRow) (title : String)

include hm h hobj

omit h in
/-- The records of a column are read as this column. -/
theorem read_columnRecords (v : Variable K) :
    (m.problem.columnRecords v).map (fun e => (e.map Printed.printed, v.isInteger)) =
      m.column v := by
  rw [Problem.columnRecords, Problem.nonzeroEntries_eq (hm.pairwise_namedExprs hobj)
    (hm.nodup_terms), List.map_map, List.map_filterMap, List.filterMap_eq_flatMap_toList, column]
  congr 1
  funext row
  rw [cell]
  split
  · rfl
  · rw [Option.map_some, Option.toList_some, Function.comp_apply, MpsEntry.map,
      Printed.printed_zero_add]

omit h in
/-- **The columns are found as they are.** -/
theorem reading_columns : (MpsFile.ofProblem title m.problem).reading.columns =
    m.columnOrder.flatMap m.column := by
  have hkind : ∀ (b : Bool) (vs : List (Variable K)), (∀ v ∈ vs, v.isInteger = b) →
      (vs.flatMap m.problem.columnRecords).map (fun e => (e.map Printed.printed, b)) =
        vs.flatMap m.column := by
    intro b vs hvs
    rw [List.map_flatMap]
    refine List.flatMap_congr fun v hv => ?_
    rw [← read_columnRecords hm hobj v, hvs v hv]
  have hcontinuous := hkind false (m.vars.filter fun v => v.domain = .continuous) fun v hv => by
    simpa [Variable.isInteger] using (List.mem_filter.1 hv).2
  have hinteger := hkind true (m.vars.filter fun v => v.domain ≠ .continuous) fun v hv =>
    (List.mem_filter.1 hv).2
  rw [columnOrder, List.flatMap_append, ← hcontinuous, ← hinteger]
  rfl

/-- The column of a variable is found under its label. -/
theorem filter_column {v : Variable K} (hv : v ∈ m.vars) :
    (MpsFile.ofProblem title m.problem).reading.columns.filter
      (fun e => e.1.column = v.name.label) = m.column v := by
  have hnodup : (m.columnOrder.map fun v => v.name.label).Nodup :=
    (m.columnOrder_perm.map _).nodup_iff.2 (h.nodup_vars hm)
  rw [reading_columns hm hobj]
  exact filter_flatMap_key hnodup (fun w _ e he => (column_of_mem he).1)
    (m.columnOrder_perm.mem_iff.2 hv)

/-- **The coefficients are found as they are**: what is found under two labels is the coefficient of
the variable of the one in the rows of the other. -/
theorem coefficient_reading {v : Variable K} (hv : v ∈ m.vars) (row : String) :
    (MpsFile.ofProblem title m.problem).reading.coefficient v.name.label row =
      ((m.problem.namedExprs.filter fun r => r.1.label = row).map fun r =>
        Printed.printed (r.2.coefficient v)).sum := by
  have hfilter : (fun e : MpsEntry (Extended ℚ) × Bool =>
      decide (e.1.column = v.name.label ∧ e.1.row = row)) =
      fun e => decide (e.1.row = row) && decide (e.1.column = v.name.label) :=
    funext fun e => by rw [Bool.decide_and, Bool.and_comm]
  have hcells : (m.column v).filter (fun e => e.1.row = row) =
      (m.problem.namedExprs.filter fun r => r.1.label = row).flatMap (cell v) :=
    filter_flatMap (fun r _ e he => row_of_mem_cell he) row
  rw [MpsReading.coefficient, hfilter, ← List.filter_filter, filter_column hm h hobj title hv,
    hcells, sum_cells]

omit h in
/-- A variable is found as a column if it is used. -/
theorem mem_columnNames (n : String) :
    n ∈ (MpsFile.ofProblem title m.problem).reading.columnNames ↔
      ∃ v ∈ m.vars, v.name.label = n ∧ m.uses v = true := by
  rw [MpsReading.columnNames, reading_columns hm hobj, List.mem_map]
  constructor
  · rintro ⟨e, he, rfl⟩
    obtain ⟨v, hv, he⟩ := List.mem_flatMap.1 he
    refine ⟨v, m.columnOrder_perm.mem_iff.1 hv, (column_of_mem he).1.symm, ?_⟩
    exact (column_ne_nil hm v).1 (List.ne_nil_of_mem he)
  · rintro ⟨v, hv, rfl, hu⟩
    obtain ⟨e, he⟩ := List.exists_mem_of_ne_nil _ ((column_ne_nil hm v).2 hu)
    exact ⟨e, List.mem_flatMap.2 ⟨v, m.columnOrder_perm.mem_iff.2 hv, he⟩, (column_of_mem he).1⟩

theorem isInteger_reading {v : Variable K} (hv : v ∈ m.vars) (hu : m.uses v = true) :
    (MpsFile.ofProblem title m.problem).reading.isInteger v.name.label = v.isInteger := by
  obtain ⟨e, he⟩ := List.exists_mem_of_ne_nil _ ((column_ne_nil hm v).2 hu)
  rw [MpsReading.isInteger, ← List.any_filter, filter_column hm h hobj title hv]
  cases hi : v.isInteger with
  | true => exact List.any_eq_true.2 ⟨e, he, (column_of_mem he).2.trans hi⟩
  | false =>
    refine List.any_eq_false.2 fun d hd => ?_
    rw [(column_of_mem hd).2, hi]
    decide

omit h in
/-- The entries of a variable that are not zero are missing if it is not used. -/
theorem isEmpty_nonzeroEntries (v : Variable K) :
    (m.problem.nonzeroEntries v).isEmpty = !m.uses v := by
  have hcolumn := read_columnRecords hm hobj v
  rw [Problem.columnRecords, List.map_map] at hcolumn
  have hiff := column_ne_nil hm v
  rw [← hcolumn, Ne, List.map_eq_nil_iff] at hiff
  cases hu : m.uses v with
  | true => simpa [hu] using hiff
  | false => simpa [hu] using hiff

theorem interval_reading {v : Variable K} (hv : v ∈ m.vars) (hu : m.uses v = true) :
    (MpsFile.ofProblem title m.problem).reading.interval v.name.label =
      ⟨Printed.printed v.lower, Printed.printed v.upper⟩ := by
  have hused : (m.vars.filter fun v => !(m.problem.nonzeroEntries v).isEmpty) =
      m.vars.filter m.uses := List.filter_congr fun w _ => by
    rw [isEmpty_nonzeroEntries hm hobj, Bool.not_not]
  have hbounds : (MpsFile.ofProblem title m.problem).reading.bounds =
      ((m.vars.filter m.uses).flatMap MpsBound.ofVariable).map (MpsBound.map Printed.printed) := by
    rw [← hused]
    rfl
  have hnodup : ((m.vars.filter m.uses).map fun v => v.name.label).Nodup :=
    (h.nodup_vars hm).sublist (List.filter_sublist.map _)
  have hblock : ((m.vars.filter m.uses).flatMap MpsBound.ofVariable).filter
      (fun b => b.name = v.name.label) = MpsBound.ofVariable v :=
    filter_flatMap_key hnodup (fun w _ b hb => MpsBound.name_of_mem hb)
      (List.mem_filter.2 ⟨hv, hu⟩)
  have hname : ((fun b : MpsBound (Extended ℚ) => decide (b.name = v.name.label)) ∘
      MpsBound.map Printed.printed) = fun b : MpsBound K => decide (b.name = v.name.label) :=
    funext fun b => by rw [Function.comp_apply, MpsBound.name_map]
  rw [MpsReading.interval, hbounds, List.filter_map, hname, hblock]
  exact MpsBound.foldl_apply (hm.proper v hv)

omit [Printed K] h hobj in
/-- The right-hand sides of the rows under their labels. -/
theorem rows_offsets : (m.problem.rows.map fun r => (r.1.label, r.2.offset)) =
    m.constraints.map fun c => (c.name.label, c.offset) := by
  rw [hm.problem_rows, List.map_map]
  rfl

theorem rhsOf_reading {c : Constraint K} (hc : c ∈ m.constraints) :
    (MpsFile.ofProblem title m.problem).reading.rhsOf c.name.label = Printed.printed c.offset := by
  have hobjective : (MpsFile.objectiveRhs m.problem).filter (fun r => r.1 = c.name.label) = [] := by
    refine List.filter_eq_nil_iff.2 fun r hr hl => h.label_ne hc (hobj c hc) ?_
    exact (of_decide_eq_true hl).symm.trans (MpsFile.eq_of_mem_objectiveRhs hr)
  have hkeys : ((m.constraints.map fun c => (c.name.label, c.offset)).map Prod.fst).Nodup := by
    rw [List.map_map]
    exact h.nodup_rows hm
  have hrow : (m.constraints.map fun c => (c.name.label, c.offset)).filter
      (fun r => r.1 = c.name.label) = [(c.name.label, c.offset)] :=
    filter_key_eq hkeys (List.mem_map_of_mem hc)
  rw [MpsFile.rhsOf_reading, MpsFile.rhs_ofProblem, List.filter_append, hobjective, List.nil_append,
    rows_offsets hm, List.filter_comm, hrow, MpsFile.sum_unless_zero]

theorem offset_reading : (MpsFile.ofProblem title m.problem).reading.offset =
    (m.objective.map fun e => Printed.printed e.constant).getD (.finite 0) := by
  have hrows : (m.constraints.map fun c => (c.name.label, c.offset)).filter
      (fun r => r.1 = objectiveRow) = [] := by
    refine List.filter_eq_nil_iff.2 fun r hr hl => ?_
    obtain ⟨c, hc, rfl⟩ := List.mem_map.1 hr
    exact h.label_ne hc (hobj c hc) (of_decide_eq_true hl)
  have hobjective : (MpsFile.objectiveRhs m.problem).filter (fun r => r.1 = objectiveRow) =
      MpsFile.objectiveRhs m.problem :=
    List.filter_eq_self.2 fun r hr => decide_eq_true (MpsFile.eq_of_mem_objectiveRhs hr)
  have hname : (MpsFile.ofProblem title m.problem).reading.objective = objectiveRow := rfl
  rw [MpsReading.offset, hname, MpsFile.rhsOf_reading, MpsFile.rhs_ofProblem, List.filter_append,
    hobjective, rows_offsets hm, List.filter_comm, hrows, List.filter_nil, List.append_nil,
    MpsFile.sum_objectiveRhs, neg_neg]
  rfl

/-- **A reader finds the model** in the records that describe it. -/
theorem describes_reading : (MpsFile.ofProblem title m.problem).reading.Describes m where
  direction := rfl
  rows := by
    change (m.problem.rows.map fun r => (r.2.relation, r.1.label)) = _
    rw [hm.problem_rows, List.map_map]
    rfl
  objective v hv := by
    have hname : (MpsFile.ofProblem title m.problem).reading.objective =
        (Value.text objectiveRow : Value K).label := (Value.label_text _).symm
    rw [hname, coefficient_reading hm h hobj title hv]
    cases ho : m.objective with
    | none =>
      have hnone : (m.problem.namedExprs.filter fun r =>
          r.1.label = (Value.text objectiveRow : Value K).label) = [] := by
        refine List.filter_eq_nil_iff.2 fun r hr hl => ?_
        rw [hm.namedExprs, ho] at hr
        obtain ⟨c, hc, rfl⟩ := List.mem_map.1 hr
        exact h.label_ne hc (hobj c hc) ((of_decide_eq_true hl).trans (Value.label_text _))
      rw [hnone]
      rfl
    | some e =>
      have hmem : (.text objectiveRow, e) ∈ m.problem.namedExprs := by
        rw [hm.namedExprs, ho]
        exact List.mem_cons_self
      rw [filter_key_eq (h.nodup_namedExprs hm hobj) hmem]
      exact add_zero _
  offset := offset_reading hm h hobj title
  coefficient v hv c hc := by
    have hmem : (c.name, c.expr) ∈ m.problem.namedExprs := by
      rw [hm.namedExprs]
      exact List.mem_append_right _ (List.mem_map_of_mem hc)
    rw [coefficient_reading hm h hobj title hv,
      filter_key_eq (h.nodup_namedExprs hm hobj) hmem]
    exact add_zero _
  rhs c hc := rhsOf_reading hm h hobj title hc
  columns := mem_columnNames hm hobj title
  isInteger v hv hu := isInteger_reading hm h hobj title hv hu
  interval v hv hu := interval_reading hm h hobj title hv hu

omit h in
variable {title} in
/-- An entry stands in the column of a variable, and in a row or the objective. -/
theorem exists_of_mem_entries {e : MpsEntry K}
    (he : e ∈ (MpsFile.ofProblem title m.problem).continuous ++
      (MpsFile.ofProblem title m.problem).integer) : ∃ v ∈ m.vars, e.column = v.name.label ∧
      ∃ r ∈ m.problem.namedExprs, e.row = r.1.label := by
  have hmem : ∃ v ∈ m.vars, e ∈ m.problem.columnRecords v := by
    rcases List.mem_append.1 he with he | he
    all_goals
      obtain ⟨v, hv, he⟩ := List.mem_flatMap.1 he
      exact ⟨v, (List.mem_filter.1 hv).1, he⟩
  obtain ⟨v, hv, he⟩ := hmem
  have hcell : (e.map Printed.printed, v.isInteger) ∈ m.column v := by
    rw [← read_columnRecords hm hobj v]
    exact List.mem_map_of_mem he
  obtain ⟨r, hr, hcell'⟩ := List.mem_flatMap.1 hcell
  exact ⟨v, hv, (column_of_mem hcell).1, r, hr, row_of_mem_cell hcell'⟩

/-- The names of a model can be written. -/
theorem hasWords (htitle : IsWord title) : (MpsFile.ofProblem title m.problem).HasWords := by
  have hvar : ∀ v ∈ m.vars, IsWord v.name.label := fun v hv =>
    isWord_of_isIdentifier (Value.isIdentifier_label (h.vars v hv))
  have hrow : ∀ c ∈ m.constraints, IsWord c.name.label := fun c hc =>
    isWord_of_isIdentifier (Value.isIdentifier_label (h.rows c hc))
  refine ⟨htitle, ?_, ?_, ?_, ?_, ?_, ?_⟩
  · intro r hr
    obtain ⟨⟨n, c⟩, hc, rfl⟩ := List.mem_map.1 hr
    rw [hm.problem_rows] at hc
    obtain ⟨d, hd, heq⟩ := List.mem_map.1 hc
    cases heq
    exact hrow c hd
  · intro e he
    obtain ⟨v, hv, hcolumn, -⟩ := exists_of_mem_entries hm hobj he
    exact hcolumn ▸ hvar v hv
  · intro e he
    obtain ⟨-, -, -, r, hr, hname⟩ := exists_of_mem_entries hm hobj he
    exact hname ▸ isWord_of_isIdentifier (Value.isIdentifier_label (h.isIdentifier hm r hr))
  · intro e he hmarker
    obtain ⟨-, -, -, r, hr, hname⟩ := exists_of_mem_entries hm hobj he
    have hid := Value.isIdentifier_label (h.isIdentifier hm r hr)
    rw [← hname, hmarker] at hid
    exact absurd hid (by decide)
  · intro r hr
    rw [MpsFile.rhs_ofProblem, rows_offsets hm] at hr
    rcases List.mem_append.1 hr with hr | hr
    · rw [MpsFile.eq_of_mem_objectiveRhs hr]
      exact isWord_of_isIdentifier (by decide)
    · obtain ⟨c, hc, rfl⟩ := List.mem_map.1 (List.mem_filter.1 hr).1
      exact hrow c hc
  · intro b hb
    obtain ⟨v, hv, hb⟩ := List.mem_flatMap.1 hb
    rw [MpsBound.name_of_mem hb]
    exact hvar v (List.mem_filter.1 hv).1

end Written

/-! ## The text of a model -/

/-- A model has no name, or an identifier as its name. -/
def HasTitle (m : Model K) : Prop := m.name = .none ∨ m.name.isIdentifier = true

omit [Printed K] in
theorem HasTitle.exists_title {m : Model K} (htitle : m.HasTitle) :
    ∃ title, m.problem.title = .ok title ∧ IsWord title := by
  have hname : m.problem.name = m.name := rfl
  rcases htitle with hnone | hid
  · refine ⟨"problem", ?_, isWord_of_isIdentifier (by decide)⟩
    rw [Problem.title, hname, hnone]
    rfl
  · obtain ⟨s, hs, hid⟩ := Value.exists_of_isIdentifier hid
    refine ⟨s, ?_, isWord_of_isIdentifier hid⟩
    have hne : s ≠ "" := by
      rintro rfl
      cases hid
    rw [Problem.title, hname, hs, Value.truth, decide_eq_true hne]
    exact Value.display_text (K := K) s

omit [Printed K] in
/-- A model whose names are identifiers has a column-wise text. -/
theorem mpsText_eq_ok {m : Model K} (hm : m.WellFormed) (h : m.HasIdentifiers) {title : String}
    (htitle : m.problem.title = .ok title) :
    m.problem.mpsText = .ok (MpsFile.ofProblem title m.problem).text := by
  have hkeys : m.problem.requireRowKeys = .ok () := by
    refine forM_eq_ok fun c hc => ?_
    obtain ⟨s, hs, -⟩ := Value.exists_of_isIdentifier (h.rows c hc)
    rw [hs]
    rfl
  have hnames : ∀ n ∈ m.problem.mpsNames, n.isIdentifier = true := by
    refine List.forall_mem_append.2 ⟨h.problem_rowNames hm, List.forall_mem_map.2 fun v hv => ?_⟩
    exact h.vars v (List.mem_filter.1 hv).1
  rw [Problem.mpsText, htitle, hkeys]
  change Problem.mpsTextUnder title m.problem = _
  rw [Problem.mpsTextUnder, requireTexts_eq_ok hnames]
  rfl

/-- **A reader finds a well-formed model** in its column-wise text. -/
theorem WellFormed.exists_mpsReading_describes {m : Model K} (hm : m.WellFormed)
    (h : m.HasIdentifiers) (htitle : m.HasTitle)
    (hobj : ∀ c ∈ m.constraints, c.name ≠ .text objectiveRow) :
    ∃ text r, m.problem.mpsText = .ok text ∧ MpsReading.read text = some r ∧ r.Describes m := by
  obtain ⟨title, ht, hword⟩ := htitle.exists_title
  exact ⟨_, _, mpsText_eq_ok hm h ht, MpsFile.read_text (hasWords hm h hobj title hword),
    describes_reading hm h hobj title⟩

/-- **The column-wise text of a model says what the model says.**  If the variables, the rows and
the model are named by identifiers and no row is named like the objective, there is a text, and what
the reader finds in it is the model: the direction, the rows in their order, all coefficients,
right-hand sides and the constant of the objective, and the kind and the bounds of each variable
that is used.  The variables that are not used are those that the reader does not find. -/
theorem exists_mpsReading {m : Model Float} (hm : m.Reachable) (h : m.HasIdentifiers)
    (htitle : m.HasTitle) (hobj : ∀ c ∈ m.constraints, c.name ≠ .text objectiveRow) :
    ∃ text r, m.problem.mpsText = .ok text ∧ MpsReading.read text = some r ∧ r.Describes m :=
  hm.wellFormed.exists_mpsReading_describes h htitle hobj

/-- What is found in the text of the small model. -/
theorem exists_mpsReading_loadModel : ∃ text r, loadModel.problem.mpsText = .ok text ∧
    MpsReading.read text = some r ∧ r.Describes loadModel :=
  exists_mpsReading loadModel_reachable loadModel_hasIdentifiers (.inl rfl)
    (List.forall_mem_singleton.2 fun hname => absurd (Value.text.inj hname) (by decide))

end Model

end MixedInteger
