import MixedInteger.Proofs.Model.Feasible
import MixedInteger.Reformulation.Logic

/-!
# Evaluation of expressions

Over finite numbers, and where only coefficients that are zero are dropped, the arithmetic of
expressions is the arithmetic of what they come to.

## What is here

* `LinearExpr.eval` — what an expression comes to, as a number of the field.
* `LinearExpr.eval_plus`, `LinearExpr.eval_minus` and their kin — one equation for each operation.
* `holds_atMost`, `holds_atLeast`, `holds_exactly` — what the rows of reformulations say.
-/

set_option autoImplicit false

namespace MixedInteger

open Arithmetic

variable {F : Type}

namespace Terms

/-- All coefficients are finite. -/
def IsFinite (ts : Terms (Extended F)) : Prop := ∀ t ∈ ts, ∃ c, t.2 = Extended.finite c

theorem isFinite_nil : IsFinite (F := F) [] := fun _ h => absurd h List.not_mem_nil

theorem isFinite_cons {t : Variable (Extended F) × Extended F} {ts : Terms (Extended F)} :
    IsFinite (t :: ts) ↔ (∃ c, t.2 = .finite c) ∧ IsFinite ts :=
  List.forall_mem_cons

theorem isFinite_map {ts : Terms (Extended F)} (h : IsFinite ts) {f : Extended F → Extended F}
    (hf : ∀ c, ∃ d, f (.finite c) = .finite d) : IsFinite (ts.map fun t => (t.1, f t.2)) := by
  intro u hu
  obtain ⟨t, ht, rfl⟩ := List.mem_map.1 hu
  obtain ⟨c, hc⟩ := h t ht
  rw [hc]
  exact hf c

variable [Field F]

/-- What terms come to. -/
def sum (a : Assignment F) (ts : Terms (Extended F)) : F :=
  (ts.map fun t => t.2.number * a t.1.id).sum

@[simp] theorem sum_nil (a : Assignment F) : sum a [] = 0 := rfl

@[simp] theorem sum_cons (a : Assignment F) (t : Variable (Extended F) × Extended F)
    (ts : Terms (Extended F)) : sum a (t :: ts) = t.2.number * a t.1.id + sum a ts :=
  List.sum_cons

/-- Terms times a number. -/
theorem sum_map (a : Assignment F) {ts : Terms (Extended F)} (h : IsFinite ts)
    {f : Extended F → Extended F} {s : F} (hf : ∀ c, f (.finite c) = .finite (s * c)) :
    sum a (ts.map fun t => (t.1, f t.2)) = s * sum a ts := by
  induction ts with
  | nil => exact (mul_zero s).symm
  | cons t ts ih =>
    obtain ⟨⟨c, hc⟩, hts⟩ := isFinite_cons.1 h
    rw [List.map_cons, sum_cons, ih hts, sum_cons, hc, hf, Extended.number_finite,
      Extended.number_finite]
    ring

variable [LinearOrder F] [FloorRing F] [ToString F] [Extended.Tolerance F]

theorem isFinite_add {ts : Terms (Extended F)} (h : IsFinite ts) (v : Variable (Extended F))
    (c : F) : IsFinite (ts.add v (.finite c)) := by
  induction ts with
  | nil => exact isFinite_cons.2 ⟨⟨0 + c, rfl⟩, isFinite_nil⟩
  | cons t ts ih =>
    obtain ⟨⟨d, hd⟩, hts⟩ := isFinite_cons.1 h
    rw [add]
    split
    · exact isFinite_cons.2 ⟨⟨d + c, by rw [hd, Extended.finite_add]⟩, hts⟩
    · exact isFinite_cons.2 ⟨⟨d, hd⟩, ih hts⟩

theorem sum_add (a : Assignment F) {ts : Terms (Extended F)} (h : IsFinite ts)
    (v : Variable (Extended F)) (c : F) : sum a (ts.add v (.finite c)) = sum a ts + c * a v.id := by
  induction ts with
  | nil =>
    rw [add, sum_cons, Extended.zero_eq, Extended.finite_add, Extended.number_finite, sum_nil,
      zero_add, zero_add, add_zero]
  | cons t ts ih =>
    obtain ⟨⟨d, hd⟩, hts⟩ := isFinite_cons.1 h
    rw [add]
    split
    next hid =>
      rw [sum_cons, sum_cons, hd, hid, Extended.finite_add, Extended.number_finite,
        Extended.number_finite]
      ring
    next =>
      rw [sum_cons, sum_cons, ih hts, add_assoc]

theorem addAll_cons (ts us : Terms (Extended F)) (u : Variable (Extended F) × Extended F) :
    ts.addAll (u :: us) = (ts.add u.1 u.2).addAll us := rfl

theorem isFinite_addAll {ts us : Terms (Extended F)} (h : IsFinite ts) (hu : IsFinite us) :
    IsFinite (ts.addAll us) := by
  induction us generalizing ts with
  | nil => exact h
  | cons u us ih =>
    obtain ⟨⟨c, hc⟩, hus⟩ := isFinite_cons.1 hu
    rw [addAll_cons, hc]
    exact ih (isFinite_add h u.1 c) hus

theorem sum_addAll (a : Assignment F) {ts us : Terms (Extended F)} (h : IsFinite ts)
    (hu : IsFinite us) : sum a (ts.addAll us) = sum a ts + sum a us := by
  induction us generalizing ts with
  | nil => exact (add_zero _).symm
  | cons u us ih =>
    obtain ⟨⟨c, hc⟩, hus⟩ := isFinite_cons.1 hu
    rw [addAll_cons, sum_cons, hc, ih (isFinite_add h u.1 c) hus, sum_add a h,
      Extended.number_finite, add_assoc]

variable [IsStrictOrderedRing F] [Extended.Tolerance.IsZero F]

/-- What is dropped comes to nothing. -/
theorem sum_filter (a : Assignment F) {ts : Terms (Extended F)} (h : IsFinite ts) :
    sum a (ts.filter fun t => significant t.2) = sum a ts := by
  induction ts with
  | nil => rfl
  | cons t ts ih =>
    obtain ⟨⟨c, hc⟩, hts⟩ := isFinite_cons.1 h
    rw [List.filter_cons]
    split
    · rw [sum_cons, sum_cons, ih hts]
    next hs =>
      have hzero : c = 0 := by
        rw [hc, Extended.significant_finite] at hs
        exact not_not.1 hs
      rw [sum_cons, ih hts, hc, hzero, Extended.number_finite, zero_mul, zero_add]

end Terms

namespace LinearExpr

/-- All coefficients and the constant are finite. -/
class IsFinite (e : LinearExpr (Extended F)) : Prop where
  terms : Terms.IsFinite e.terms
  constant : ∃ c, e.constant = .finite c

variable [Field F]

/-- What an expression comes to. -/
def eval (a : Assignment F) (e : LinearExpr (Extended F)) : F :=
  e.constant.number + Terms.sum a e.terms

theorem eval_congr {a b : Assignment F} {e : LinearExpr (Extended F)}
    (h : ∀ t ∈ e.terms, a t.1.id = b t.1.id) : e.eval a = e.eval b := by
  rw [eval, eval, Terms.sum, Terms.sum]
  congr 2
  refine List.map_congr_left fun t ht => ?_
  rw [h t ht]

variable [LinearOrder F] [FloorRing F] [ToString F] [Extended.Tolerance F]

/-- **The value of a finite expression is what it comes to.** -/
theorem value_eq_eval (e : LinearExpr (Extended F)) [h : e.IsFinite] (a : Assignment F) :
    e.value a.lift = .finite (e.eval a) := by
  have hsum : ∀ ts : Terms (Extended F), ts.IsFinite →
      (ts.map fun t => t.2 * a.lift t.1).sum = Extended.finite (Terms.sum a ts) := by
    intro ts hts
    induction ts with
    | nil => rfl
    | cons t ts ih =>
      obtain ⟨⟨c, hc⟩, hts⟩ := Terms.isFinite_cons.1 hts
      rw [List.map_cons, List.sum_cons, ih hts, Terms.sum_cons, hc, Assignment.lift,
        Extended.finite_mul, Extended.finite_add, Extended.number_finite]
  obtain ⟨c, hc⟩ := h.constant
  rw [value_eq_sum, hsum _ h.terms, hc, eval, hc, Extended.finite_add, Extended.number_finite]

theorem isFinite_ofTerms {ts : Terms (Extended F)} (h : ts.IsFinite) (c : F) :
    (ofTerms ts (.finite c)).IsFinite :=
  ⟨fun t ht => h t (List.mem_of_mem_filter ht), c, rfl⟩

variable [IsStrictOrderedRing F] [Extended.Tolerance.IsZero F]

theorem eval_ofTerms (a : Assignment F) {ts : Terms (Extended F)} (h : ts.IsFinite) (c : F) :
    (ofTerms ts (.finite c)).eval a = c + Terms.sum a ts := by
  rw [eval, ofTerms, Terms.sum_filter a h, Extended.number_finite]

/-! ## Operations -/

omit [IsStrictOrderedRing F] [Extended.Tolerance.IsZero F] in
instance isFinite_ofVariable (v : Variable (Extended F)) : (ofVariable v).IsFinite :=
  isFinite_ofTerms (Terms.isFinite_cons.2 ⟨⟨1, rfl⟩, Terms.isFinite_nil⟩) 0

@[simp] theorem eval_ofVariable (a : Assignment F) (v : Variable (Extended F)) :
    (ofVariable v).eval a = a v.id := by
  have h : Terms.IsFinite [(v, (one : Extended F))] :=
    Terms.isFinite_cons.2 ⟨⟨1, rfl⟩, Terms.isFinite_nil⟩
  rw [ofVariable, Extended.zero_eq, eval_ofTerms a h, Terms.sum_cons, Extended.one_eq,
    Extended.number_finite, Terms.sum_nil]
  ring

section Combine

variable (e f : LinearExpr (Extended F))

omit [IsStrictOrderedRing F] [Extended.Tolerance.IsZero F] in
theorem isFinite_combine (e f : LinearExpr (Extended F)) [he : e.IsFinite] [hf : f.IsFinite]
    (s : F) :
    (e.combine (.finite s) f).IsFinite := by
  obtain ⟨c, hc⟩ := he.constant
  obtain ⟨d, hd⟩ := hf.constant
  rw [combine, hc, hd, Extended.finite_mul, Extended.finite_add]
  refine isFinite_ofTerms (Terms.isFinite_addAll he.terms ?_) _
  exact Terms.isFinite_map hf.terms fun c => ⟨s * c, rfl⟩

theorem eval_combine (a : Assignment F) (e f : LinearExpr (Extended F)) [he : e.IsFinite]
    [hf : f.IsFinite] (s : F) :
    (e.combine (.finite s) f).eval a = e.eval a + s * f.eval a := by
  obtain ⟨c, hc⟩ := he.constant
  obtain ⟨d, hd⟩ := hf.constant
  have hmap := Terms.isFinite_map (f := fun c => .finite s * c) hf.terms fun c => ⟨s * c, rfl⟩
  rw [combine, hc, hd, Extended.finite_mul, Extended.finite_add,
    eval_ofTerms a (Terms.isFinite_addAll he.terms hmap), Terms.sum_addAll a he.terms hmap,
    Terms.sum_map a hf.terms fun c => rfl, eval, eval, hc, hd, Extended.number_finite,
    Extended.number_finite]
  ring

omit [IsStrictOrderedRing F] [Extended.Tolerance.IsZero F] in
instance isFinite_plus [he : e.IsFinite] [hf : f.IsFinite] : (e.plus f).IsFinite :=
  isFinite_combine e f 1

@[simp] theorem eval_plus (a : Assignment F) [he : e.IsFinite] [hf : f.IsFinite] :
    (e.plus f).eval a = e.eval a + f.eval a :=
  (eval_combine a e f 1).trans (by rw [one_mul])

omit [IsStrictOrderedRing F] [Extended.Tolerance.IsZero F] in
instance isFinite_minus [he : e.IsFinite] [hf : f.IsFinite] : (e.minus f).IsFinite :=
  isFinite_combine e f (-1)

@[simp] theorem eval_minus (a : Assignment F) [he : e.IsFinite] [hf : f.IsFinite] :
    (e.minus f).eval a = e.eval a - f.eval a :=
  (eval_combine a e f (-1)).trans (by ring)

omit [IsStrictOrderedRing F] [Extended.Tolerance.IsZero F] in
instance isFinite_scale [he : e.IsFinite] (s : F) : (e.scale (.finite s)).IsFinite := by
  obtain ⟨c, hc⟩ := he.constant
  rw [scale, hc, Extended.finite_mul]
  exact isFinite_ofTerms (Terms.isFinite_map (f := fun c => c * .finite s) he.terms
    fun c => ⟨c * s, rfl⟩) _

@[simp] theorem eval_scale (a : Assignment F) [he : e.IsFinite] (s : F) :
    (e.scale (.finite s)).eval a = s * e.eval a := by
  obtain ⟨c, hc⟩ := he.constant
  have hmap := Terms.isFinite_map (f := fun c => c * .finite s) he.terms fun c => ⟨c * s, rfl⟩
  rw [scale, hc, Extended.finite_mul, eval_ofTerms a hmap,
    Terms.sum_map a (f := fun c => c * .finite s) (s := s) he.terms
      fun c => congrArg Extended.finite (mul_comm c s), eval, hc, Extended.number_finite]
  ring

omit [IsStrictOrderedRing F] [Extended.Tolerance.IsZero F] in
instance isFinite_negate [he : e.IsFinite] : e.negate.IsFinite := isFinite_scale e (-1)

@[simp] theorem eval_negate (a : Assignment F) [he : e.IsFinite] : e.negate.eval a = -e.eval a :=
  (eval_scale e a (-1)).trans (by ring)

end Combine

omit [IsStrictOrderedRing F] [Extended.Tolerance.IsZero F] in
instance isFinite_monomial (c : F) (v : Variable (Extended F)) :
    (monomial (.finite c) v).IsFinite :=
  isFinite_scale (ofVariable v) c

@[simp] theorem eval_monomial (a : Assignment F) (c : F) (v : Variable (Extended F)) :
    (monomial (.finite c) v).eval a = c * a v.id := by
  rw [monomial, eval_scale, eval_ofVariable]

/-! ## Sums of variables -/

omit [IsStrictOrderedRing F] [Extended.Tolerance.IsZero F] in
theorem isFinite_foldl_add (vs : List (Variable (Extended F))) {ts : Terms (Extended F)}
    (h : ts.IsFinite) : Terms.IsFinite (vs.foldl (fun ts v => ts.add v one) ts) := by
  induction vs generalizing ts with
  | nil => exact h
  | cons v vs ih => exact ih (Terms.isFinite_add h v 1)

omit [IsStrictOrderedRing F] [Extended.Tolerance.IsZero F] in
theorem sum_foldl_add (a : Assignment F) (vs : List (Variable (Extended F)))
    {ts : Terms (Extended F)} (h : ts.IsFinite) :
    Terms.sum a (vs.foldl (fun ts v => ts.add v one) ts) =
      Terms.sum a ts + (vs.map fun v => a v.id).sum := by
  induction vs generalizing ts with
  | nil => exact (add_zero _).symm
  | cons v vs ih =>
    have hone : Terms.sum a (ts.add v one) = Terms.sum a ts + a v.id := by
      rw [Extended.one_eq, Terms.sum_add a h, one_mul]
    have hfinite : Terms.IsFinite (ts.add v one) := Terms.isFinite_add h v 1
    rw [List.foldl_cons, ih hfinite, hone, List.map_cons, List.sum_cons, add_assoc]

omit [IsStrictOrderedRing F] [Extended.Tolerance.IsZero F] in
instance isFinite_total (vs : List (Variable (Extended F))) : (total vs).IsFinite :=
  isFinite_ofTerms (isFinite_foldl_add vs Terms.isFinite_nil) 0

/-- A sum of variables counts each of them as often as it occurs. -/
@[simp] theorem eval_total (a : Assignment F) (vs : List (Variable (Extended F))) :
    (total vs).eval a = (vs.map fun v => a v.id).sum := by
  rw [total, Extended.zero_eq, eval_ofTerms a (isFinite_foldl_add vs Terms.isFinite_nil),
    sum_foldl_add a vs Terms.isFinite_nil, Terms.sum_nil, zero_add, zero_add]

end LinearExpr

/-! ## Rows -/

section Rows

variable [Field F] [LinearOrder F] [FloorRing F] [ToString F] [Extended.Tolerance F]
  {e : LinearExpr (Extended F)}

@[simp] theorem holds_atMost (a : Assignment F) [he : e.IsFinite] (b : F) :
    (atMost e (.finite b)).holds a.lift = true ↔ e.eval a ≤ b := by
  rw [Constraint.holds, atMost, LinearExpr.value_eq_eval, Relation.compare, Extended.le_finite,
    decide_eq_true_iff]

@[simp] theorem holds_atLeast (a : Assignment F) [he : e.IsFinite] (b : F) :
    (atLeast e (.finite b)).holds a.lift = true ↔ b ≤ e.eval a := by
  rw [Constraint.holds, atLeast, LinearExpr.value_eq_eval, Relation.compare, Extended.le_finite,
    decide_eq_true_iff]

@[simp] theorem holds_exactly (a : Assignment F) [he : e.IsFinite] (b : F) :
    (exactly e (.finite b)).holds a.lift = true ↔ e.eval a = b := by
  rw [Constraint.holds, exactly, LinearExpr.value_eq_eval, Relation.compare, Extended.eq_finite,
    decide_eq_true_iff]

end Rows

end MixedInteger
