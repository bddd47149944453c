import MixedInteger.Proofs.Linear.Bounds
import MixedInteger.Proofs.Model.WellFormed

/-!
# Expressions with a tolerance

An expression drops the coefficients that are too small.  Where its own coefficients stay, one more
term adds what is kept of its coefficient, and nothing else changes.

## What is here

* `Extended.kept`, `Extended.Retained` — what is kept of a coefficient, and that it is all of it.
* `LinearExpr.IsRetained` — all coefficients stay.
* `LinearExpr.eval_plus_monomial`, `LinearExpr.eval_minus_monomial` — one more term.
* `LinearExpr.eval_negate_of_isRetained`, `LinearExpr.interval_negate` — the signs changed.
* `LinearExpr.exists_eval_eq_intCast` — an integral expression comes to an integer.
* `LinearExpr.IsWhole`, `LinearExpr.eval_combine_of_isWhole` — integers as coefficients, which stay.
-/

set_option autoImplicit false

namespace MixedInteger

open Arithmetic

variable {F : Type} [Field F] [LinearOrder F] [FloorRing F] [ToString F] [Extended.Tolerance F]
  [IsStrictOrderedRing F]

/-! ## Coefficients -/

namespace Extended

/-- What is kept of a coefficient: all of it, or nothing. -/
def kept (c : F) : F := if Tolerance.tolerance < |c| then c else 0

omit [IsStrictOrderedRing F] in
theorem significant_iff_lt (c : F) :
    Arithmetic.significant (finite c : Extended F) = true ↔ Tolerance.tolerance < |c| :=
  decide_eq_true_iff

omit [FloorRing F] [ToString F] [IsStrictOrderedRing F] in
theorem kept_of_lt {c : F} (h : Tolerance.tolerance < |c|) : kept c = c := if_pos h

omit [FloorRing F] [ToString F] [IsStrictOrderedRing F] in
theorem kept_of_not_lt {c : F} (h : ¬Tolerance.tolerance < |c|) : kept c = 0 := if_neg h

/-- A coefficient is retained: it is zero, or too large to be dropped. -/
def Retained (c : F) : Prop := c = 0 ∨ Tolerance.tolerance < |c|

omit [FloorRing F] [ToString F] [IsStrictOrderedRing F] in
theorem Retained.kept_eq {c : F} (h : Retained c) : kept c = c := by
  rcases h with rfl | h
  · exact ite_self 0
  · exact kept_of_lt h

omit [FloorRing F] [ToString F] in
theorem retained_of_isZero [Tolerance.IsZero F] (c : F) : Retained c := by
  rw [Retained, Tolerance.IsZero.tolerance_eq, abs_pos]
  exact eq_or_ne c 0

omit [FloorRing F] [ToString F] in
theorem tolerance_lt_one [Tolerance.IsZero F] : (Tolerance.tolerance : F) < 1 := by
  rw [Tolerance.IsZero.tolerance_eq]
  exact zero_lt_one

omit [FloorRing F] [ToString F] [Tolerance F] in
/-- The tolerance of the doubles is below one. -/
theorem standard_lt_one : (Tolerance.standard : Tolerance F).tolerance < 1 :=
  (div_lt_one (by positivity)).2 (one_lt_pow₀ (by norm_num) (by norm_num))

omit [FloorRing F] [ToString F] [IsStrictOrderedRing F] in
theorem kept_neg (c : F) : kept (-c) = -kept c := by
  rw [kept, kept, abs_neg, apply_ite Neg.neg, neg_zero]

omit [FloorRing F] [ToString F] [IsStrictOrderedRing F] in
/-- With a tolerance below one, what is dropped is below one. -/
theorem kept_eq_or (ht : (Tolerance.tolerance : F) < 1) (c : F) :
    kept c = c ∨ (kept c = 0 ∧ |c| < 1) := by
  by_cases h : Tolerance.tolerance < |c|
  · exact .inl (kept_of_lt h)
  · exact .inr ⟨kept_of_not_lt h, (not_lt.1 h).trans_lt ht⟩

omit [FloorRing F] [ToString F] in
theorem retained_intCast (ht : (Tolerance.tolerance : F) < 1) (n : Int) : Retained (n : F) := by
  by_cases hn : n = 0
  · exact .inl (by rw [hn, Int.cast_zero])
  · refine .inr (ht.trans_le ?_)
    exact_mod_cast Int.one_le_abs hn

end Extended

open Extended

/-! ## Terms -/

namespace Terms

omit [IsStrictOrderedRing F] in
/-- What terms come to once the small ones are dropped. -/
theorem sum_filter_kept (a : Assignment F) {ts : Terms (Extended F)} (h : IsFinite ts) :
    sum a (ts.filter fun t => significant t.2) =
      (ts.map fun t => kept t.2.number * a t.1.id).sum := by
  induction ts with
  | nil => rfl
  | cons t ts ih =>
    obtain ⟨⟨c, hc⟩, hts⟩ := isFinite_cons.1 h
    rw [List.filter_cons, List.map_cons, List.sum_cons, hc, number_finite]
    split
    next hs =>
      rw [sum_cons, ih hts, hc, number_finite, kept_of_lt ((significant_iff_lt c).1 hs)]
    next hs =>
      rw [ih hts, kept_of_not_lt (mt (significant_iff_lt c).2 hs), zero_mul, zero_add]

omit [IsStrictOrderedRing F] in
/-- A variable that does not occur comes last. -/
theorem add_of_forall_ne {ts : Terms (Extended F)} {v : Variable (Extended F)}
    (hv : ∀ t ∈ ts, t.1.id ≠ v.id) (c : F) : ts.add v (.finite c) = ts ++ [(v, .finite c)] := by
  induction ts with
  | nil => rw [add, zero_eq, finite_add, zero_add, List.nil_append]
  | cons t ts ih =>
    obtain ⟨ht, hts⟩ := List.forall_mem_cons.1 hv
    rw [add, if_neg ht, ih hts, List.cons_append]

end Terms

/-! ## Expressions -/

namespace LinearExpr

variable {e : LinearExpr (Extended F)} {v : Variable (Extended F)} {a : Assignment F}

/-- All coefficients are retained. -/
def IsRetained (e : LinearExpr (Extended F)) : Prop := ∀ t ∈ e.terms, Retained t.2.number

omit [FloorRing F] [ToString F] in
theorem isRetained_of_isZero [Tolerance.IsZero F] (e : LinearExpr (Extended F)) : e.IsRetained :=
  fun _ _ => retained_of_isZero _

omit [IsStrictOrderedRing F] in
/-- What has been dropped does not have to be dropped again. -/
theorem isRetained_ofTerms {ts : Terms (Extended F)} (h : ts.IsFinite) (c : Extended F) :
    (ofTerms ts c).IsRetained := by
  intro t ht
  obtain ⟨hmem, hs⟩ := List.mem_filter.1 ht
  obtain ⟨x, hx⟩ := h t hmem
  rw [hx] at hs ⊢
  exact .inr ((significant_iff_lt x).1 hs)

omit [FloorRing F] [ToString F] [IsStrictOrderedRing F] in
theorem IsRetained.sum_kept (he : e.IsRetained) :
    (e.terms.map fun t => kept t.2.number * a t.1.id).sum = Terms.sum a e.terms := by
  rw [Terms.sum]
  congr 1
  exact List.map_congr_left fun t ht => by rw [(he t ht).kept_eq]

omit [IsStrictOrderedRing F] in
theorem eval_ofTerms_kept (a : Assignment F) {ts : Terms (Extended F)} (h : ts.IsFinite) (c : F) :
    (ofTerms ts (.finite c)).eval a = c + (ts.map fun t => kept t.2.number * a t.1.id).sum := by
  rw [eval, ofTerms, Terms.sum_filter_kept a h, number_finite]

/-- A variable has one term. -/
theorem ofVariable_eq (ht : (Tolerance.tolerance : F) < 1) (v : Variable (Extended F)) :
    ofVariable v = ⟨[(v, .finite 1)], .finite 0⟩ := by
  have hone : significant (.finite 1 : Extended F) = true :=
    (significant_iff_lt 1).2 (by rwa [abs_one])
  simp [ofVariable, ofTerms, hone]

/-- A monomial has one term, unless its coefficient is dropped. -/
theorem monomial_eq (ht : (Tolerance.tolerance : F) < 1) (c : F) (v : Variable (Extended F)) :
    monomial (.finite c) v =
      ⟨if Tolerance.tolerance < |c| then [(v, .finite c)] else [], .finite 0⟩ := by
  rw [monomial, ofVariable_eq ht, scale, ofTerms, List.map_singleton, finite_mul, finite_mul,
    one_mul, zero_mul, List.filter_cons, List.filter_nil]
  congr 1
  exact if_congr (significant_iff_lt c) rfl rfl

/-- **One more term adds what is kept of its coefficient.** -/
theorem eval_combine_monomial (ht : (Tolerance.tolerance : F) < 1) [hf : e.IsFinite]
    (he : e.IsRetained) (hv : ∀ t ∈ e.terms, t.1.id ≠ v.id) (c : F) {s : F} (hs : |s| = 1) :
    (e.combine (.finite s) (monomial (.finite c) v)).eval a =
      e.eval a + s * (kept c * a v.id) := by
  obtain ⟨d, hd⟩ := hf.constant
  have hsum : e.eval a = d + Terms.sum a e.terms := by rw [eval, hd, number_finite]
  rw [combine, monomial_eq ht, hd, finite_mul, finite_add, mul_zero, add_zero, hsum]
  by_cases hc : Tolerance.tolerance < |c|
  · have hsc : kept (s * c) = s * c := kept_of_lt (by rwa [abs_mul, hs, one_mul])
    have hadd : Terms.addAll e.terms [(v, .finite (s * c))] = e.terms ++ [(v, .finite (s * c))] :=
      Terms.add_of_forall_ne hv (s * c)
    have hfinite : Terms.IsFinite (e.terms ++ [(v, .finite (s * c))]) :=
      List.forall_mem_append.2 ⟨hf.terms, List.forall_mem_singleton.2 ⟨s * c, rfl⟩⟩
    rw [if_pos hc, List.map_singleton, finite_mul, hadd, eval_ofTerms_kept a hfinite,
      List.map_append, List.sum_append, he.sum_kept, List.map_singleton, List.sum_singleton,
      number_finite, hsc, kept_of_lt hc]
    ring
  · rw [if_neg hc, List.map_nil, Terms.addAll, List.foldl_nil, eval_ofTerms_kept a hf.terms,
      he.sum_kept, kept_of_not_lt hc, zero_mul, mul_zero, add_zero]

theorem eval_plus_monomial (ht : (Tolerance.tolerance : F) < 1) [hf : e.IsFinite]
    (he : e.IsRetained) (hv : ∀ t ∈ e.terms, t.1.id ≠ v.id) (c : F) :
    (e.plus (monomial (.finite c) v)).eval a = e.eval a + kept c * a v.id :=
  (eval_combine_monomial ht he hv c abs_one).trans (by rw [one_mul])

theorem eval_minus_monomial (ht : (Tolerance.tolerance : F) < 1) [hf : e.IsFinite]
    (he : e.IsRetained) (hv : ∀ t ∈ e.terms, t.1.id ≠ v.id) (c : F) :
    (e.minus (monomial (.finite c) v)).eval a = e.eval a - kept c * a v.id :=
  (eval_combine_monomial ht he hv c (s := -1) (by rw [abs_neg, abs_one])).trans (by ring)

omit [IsStrictOrderedRing F] in
theorem isRetained_combine (e f : LinearExpr (Extended F)) [he : e.IsFinite] [hf : f.IsFinite]
    (s : F) : (e.combine (.finite s) f).IsRetained :=
  isRetained_ofTerms (Terms.isFinite_addAll he.terms
    (Terms.isFinite_map (f := fun c => .finite s * c) hf.terms fun c => ⟨s * c, rfl⟩)) _

omit [IsStrictOrderedRing F] in
/-- A combination mentions what its parts mention. -/
theorem mem_terms_combine {f : LinearExpr (Extended F)} {s : Extended F}
    {t : Variable (Extended F) × Extended F} (ht : t ∈ (e.combine s f).terms) :
    t.1 ∈ e.vars ∨ t.1 ∈ f.vars := by
  have hall : ∀ us ts : Terms (Extended F), ∀ t ∈ Terms.addAll ts us,
      t.1 ∈ ts.map Prod.fst ∨ t.1 ∈ us.map Prod.fst := by
    intro us
    induction us with
    | nil => exact fun ts t ht => .inl (List.mem_map_of_mem ht)
    | cons u us ih =>
      intro ts t ht
      rcases ih _ t ht with h | h
      · obtain ⟨w, hw, hwt⟩ := List.mem_map.1 h
        rcases Terms.mem_add hw with hu | ⟨x, hx, hxw⟩
        · exact .inr (by rw [← hwt, hu]; exact List.mem_cons_self)
        · exact .inl (by rw [← hwt, hxw]; exact List.mem_map_of_mem hx)
      · exact .inr (List.mem_cons_of_mem _ h)
  refine (hall _ _ t (List.mem_of_mem_filter ht)).imp_right fun h => ?_
  rwa [List.map_map] at h

omit [IsStrictOrderedRing F] in
theorem mem_vars_of_monomial {c : Extended F} {w : Variable (Extended F)}
    (hw : w ∈ (monomial c v).vars) : w = v := by
  obtain ⟨t, ht, rfl⟩ := List.mem_map.1 hw
  obtain ⟨u, hu, rfl⟩ := List.mem_map.1 (List.mem_filter.1 ht).1
  exact congrArg Prod.fst (List.mem_singleton.1 (List.mem_filter.1 hu).1)

/-! ## The signs changed -/

omit [IsStrictOrderedRing F] in
theorem vars_negate_subset (e : LinearExpr (Extended F)) : e.negate.vars ⊆ e.vars := by
  intro v hv
  obtain ⟨t, ht, rfl⟩ := List.mem_map.1 hv
  obtain ⟨u, hu, rfl⟩ := List.mem_map.1 (List.mem_filter.1 ht).1
  exact List.mem_map.2 ⟨u, hu, rfl⟩

omit [IsStrictOrderedRing F] in
theorem isFinite_negated (e : LinearExpr (Extended F)) [he : e.IsFinite] :
    Terms.IsFinite (e.terms.map fun t => (t.1, t.2 * -one)) :=
  Terms.isFinite_map (f := fun c => c * -one) he.terms fun c => ⟨c * -1, rfl⟩

omit [IsStrictOrderedRing F] in
theorem isRetained_negate (e : LinearExpr (Extended F)) [e.IsFinite] : e.negate.IsRetained :=
  isRetained_ofTerms (isFinite_negated e) _

omit [IsStrictOrderedRing F] in
theorem eval_negate_of_isRetained [hf : e.IsFinite] (he : e.IsRetained) :
    e.negate.eval a = -e.eval a := by
  obtain ⟨d, hd⟩ := hf.constant
  have hterm : ∀ t ∈ e.terms,
      kept (t.2 * -one : Extended F).number * a t.1.id = -1 * (t.2.number * a t.1.id) := by
    intro t ht
    obtain ⟨c, hc⟩ := hf.terms t ht
    have hkept := (he t ht).kept_eq
    rw [hc, number_finite] at hkept
    rw [hc, one_eq, neg_finite, finite_mul, number_finite, number_finite, mul_neg_one, kept_neg,
      hkept]
    ring
  rw [negate, scale, hd, one_eq, neg_finite, finite_mul, ← neg_finite, ← one_eq,
    eval_ofTerms_kept a (isFinite_negated e), List.map_map, eval, hd, number_finite, Terms.sum,
    List.map_congr_left (g := fun t => -1 * (t.2.number * a t.1.id)) hterm,
    List.sum_map_mul_left]
  ring

end LinearExpr

/-! ## Bounds -/

namespace Extended

omit [FloorRing F] [ToString F] [Tolerance F] in
theorem finite_neg_mul (c : F) (x : Extended F) : finite (-c) * x = -(finite c * x) := by
  rw [← neg_finite, neg_mul]

end Extended

namespace Interval

/-- The interval, turned round zero. -/
def negate (i : Interval (Extended F)) : Interval (Extended F) := ⟨-i.upper, -i.lower⟩

omit [ToString F] [Extended.Tolerance F] in
theorem addTerm_negate [ToString F] [Extended.Tolerance F] (i : Interval (Extended F))
    (v : Variable (Extended F)) (c : F) :
    i.negate.addTerm (v, .finite (-c)) = (i.addTerm (v, .finite c)).negate := by
  simp only [addTerm, negate, zero_eq, lt_finite, decide_eq_true_iff, neg_pos, neg_lt_zero,
    finite_neg_mul, ← neg_sum]
  rcases lt_trichotomy c 0 with hc | rfl | hc
  · rw [if_pos hc, if_neg hc.not_gt, if_pos hc]
  · simp only [if_neg (lt_irrefl (0 : F))]
  · rw [if_neg hc.not_gt, if_pos hc, if_pos hc]

omit [IsStrictOrderedRing F] in
theorem addTerm_zero (i : Interval (Extended F)) (v : Variable (Extended F)) :
    i.addTerm (v, .finite 0) = i := by
  simp [addTerm]

omit [IsStrictOrderedRing F] in
theorem isFinite_negate (i : Interval (Extended F)) : i.negate.isFinite = i.isFinite := by
  have hneg : ∀ x : Extended F, Arithmetic.isFinite (-x) = Arithmetic.isFinite x := by
    intro x
    cases x <;> rfl
  rw [isFinite, isFinite, negate, hneg, hneg, Bool.and_comm]

end Interval

/-- **The bounds of an expression with its signs changed** are its own, turned round. -/
theorem LinearExpr.interval_negate {e : LinearExpr (Extended F)} [hf : e.IsFinite]
    (he : e.IsRetained) : e.negate.interval = e.interval.negate := by
  have hfold : ∀ (ts : Terms (Extended F)) (i : Interval (Extended F)), ts.IsFinite →
      (∀ t ∈ ts, Retained t.2.number) →
      ((ts.map fun t => (t.1, t.2 * -one)).filter fun t => significant t.2).foldl Interval.addTerm
        i.negate = (ts.foldl Interval.addTerm i).negate := by
    intro ts
    induction ts with
    | nil => exact fun _ _ _ => rfl
    | cons t ts ih =>
      intro i hts hkept
      obtain ⟨v, x⟩ := t
      obtain ⟨⟨c, rfl⟩, hrest⟩ := Terms.isFinite_cons.1 hts
      obtain ⟨hc, hkept⟩ := List.forall_mem_cons.1 hkept
      have hneg : (.finite c : Extended F) * -one = .finite (-c) := by simp
      rw [List.map_cons, List.filter_cons, List.foldl_cons, hneg]
      split
      · rw [List.foldl_cons, Interval.addTerm_negate, ih _ hrest hkept]
      next hs =>
        -- a coefficient that stays in the expression is only dropped here if it is zero
        have hzero : c = 0 := by
          rw [significant_iff_lt, abs_neg] at hs
          exact hc.resolve_right hs
        rw [hzero, Interval.addTerm_zero, ih _ hrest hkept]
  obtain ⟨d, hd⟩ := hf.constant
  have hconst : e.constant * -one = -e.constant := by rw [hd]; simp
  rw [interval, negate, scale, ofTerms, hconst]
  exact hfold e.terms ⟨e.constant, e.constant⟩ hf.terms he

/-! ## Integral expressions -/

namespace LinearExpr

variable {e : LinearExpr (Extended F)} {a : Assignment F}

omit [IsStrictOrderedRing F] in
theorem exists_of_isInteger {x : Extended F} (h : isInteger x = true) :
    ∃ n : Int, x = .finite (n : F) := by
  cases x with
  | finite y => exact ⟨⌊y⌋, congrArg finite (of_decide_eq_true h).symm⟩
  | _ => cases h

omit [IsStrictOrderedRing F] in
theorem exists_of_isIntegral (h : e.isIntegral = true) :
    (∃ n : Int, e.constant = .finite (n : F)) ∧
      ∀ t ∈ e.terms, t.1.isInteger = true ∧ ∃ n : Int, t.2 = .finite (n : F) := by
  rw [isIntegral, Bool.and_eq_true, List.all_eq_true] at h
  refine ⟨exists_of_isInteger h.1, fun t ht => ?_⟩
  have hterm := h.2 t ht
  rw [Bool.and_eq_true] at hterm
  exact ⟨hterm.1, exists_of_isInteger hterm.2⟩

omit [IsStrictOrderedRing F] in
theorem isFinite_of_isIntegral (h : e.isIntegral = true) : e.IsFinite := by
  obtain ⟨⟨n, hn⟩, hterms⟩ := exists_of_isIntegral h
  refine ⟨fun t ht => ?_, n, hn⟩
  obtain ⟨-, k, hk⟩ := hterms t ht
  exact ⟨k, hk⟩

theorem isRetained_of_isIntegral (ht : (Tolerance.tolerance : F) < 1) (h : e.isIntegral = true) :
    e.IsRetained := by
  intro t hmem
  obtain ⟨-, n, hn⟩ := (exists_of_isIntegral h).2 t hmem
  rw [hn, number_finite]
  exact retained_intCast ht n

omit [IsStrictOrderedRing F] in
/-- **An integral expression comes to an integer** wherever its variables may take their numbers. -/
theorem exists_eval_eq_intCast (h : e.isIntegral = true) (ha : ∀ v ∈ e.vars, v.Allows (a v.id)) :
    ∃ n : Int, e.eval a = n := by
  have hsum : ∀ ts : Terms (Extended F), (∀ t ∈ ts, t.1.Allows (a t.1.id) ∧
      t.1.isInteger = true ∧ ∃ n : Int, t.2 = .finite (n : F)) → ∃ n : Int, Terms.sum a ts = n := by
    intro ts hts
    induction ts with
    | nil => exact ⟨0, Int.cast_zero.symm⟩
    | cons t ts ih =>
      obtain ⟨⟨hallows, hint, k, hk⟩, hrest⟩ := List.forall_mem_cons.1 hts
      obtain ⟨n, hn⟩ := ih hrest
      obtain ⟨x, hx⟩ := hallows.integral hint
      exact ⟨k * x + n, by rw [Terms.sum_cons, hk, hx, hn, number_finite]; push_cast; rfl⟩
  obtain ⟨⟨d, hd⟩, hterms⟩ := exists_of_isIntegral h
  obtain ⟨n, hn⟩ := hsum e.terms fun t ht => ⟨ha t.1 (List.mem_map_of_mem ht), hterms t ht⟩
  exact ⟨d + n, by rw [eval, hd, hn, number_finite, Int.cast_add]⟩

/-- An integral expression stays one when its signs are changed. -/
theorem isIntegral_negate_of_isIntegral (h : e.isIntegral = true) : e.negate.isIntegral = true := by
  have hneg : ∀ n : Int, isInteger ((.finite (n : F) : Extended F) * -one) = true := by
    intro n
    refine decide_eq_true ?_
    rw [mul_neg_one, ← Int.cast_neg, Int.floor_intCast]
  obtain ⟨⟨d, hd⟩, hterms⟩ := exists_of_isIntegral h
  rw [isIntegral, Bool.and_eq_true, List.all_eq_true]
  refine ⟨?_, fun t ht => ?_⟩
  · rw [negate, scale, ofTerms, hd]
    exact hneg d
  · obtain ⟨u, hu, rfl⟩ := List.mem_map.1 (List.mem_filter.1 ht).1
    obtain ⟨hint, n, hn⟩ := hterms u hu
    rw [Bool.and_eq_true, hn]
    exact ⟨hint, hneg n⟩

end LinearExpr

/-! ## Whole coefficients

The coefficients of logic are integers.  They stay integers when terms are merged, and an integer is
either zero or too large to be dropped. -/

namespace Terms

/-- All coefficients are integers. -/
def IsWhole (ts : Terms (Extended F)) : Prop := ∀ t ∈ ts, ∃ n : Int, t.2 = .finite (n : F)

variable {ts us : Terms (Extended F)}

omit [LinearOrder F] [FloorRing F] [ToString F] [Tolerance F] [IsStrictOrderedRing F] in
theorem IsWhole.isFinite (h : ts.IsWhole) : ts.IsFinite := fun t ht =>
  (h t ht).imp' _ fun _ hn => hn

omit [LinearOrder F] [FloorRing F] [ToString F] [Tolerance F] [IsStrictOrderedRing F] in
theorem isWhole_cons {t : Variable (Extended F) × Extended F} :
    IsWhole (t :: ts) ↔ (∃ n : Int, t.2 = .finite (n : F)) ∧ IsWhole ts :=
  List.forall_mem_cons

omit [IsStrictOrderedRing F] in
theorem IsWhole.add (h : ts.IsWhole) (v : Variable (Extended F)) (n : Int) :
    IsWhole (ts.add v (.finite (n : F))) := by
  induction ts with
  | nil => exact List.forall_mem_singleton.2 ⟨n, congrArg finite (zero_add _)⟩
  | cons t ts ih =>
    obtain ⟨⟨k, hk⟩, hts⟩ := isWhole_cons.1 h
    rw [Terms.add]
    split
    · exact isWhole_cons.2 ⟨⟨k + n, by rw [hk, finite_add, Int.cast_add]⟩, hts⟩
    · exact isWhole_cons.2 ⟨⟨k, hk⟩, ih hts⟩

omit [IsStrictOrderedRing F] in
theorem IsWhole.addAll (h : ts.IsWhole) (hu : us.IsWhole) : IsWhole (ts.addAll us) := by
  induction us generalizing ts with
  | nil => exact h
  | cons u us ih =>
    obtain ⟨⟨n, hn⟩, hus⟩ := isWhole_cons.1 hu
    rw [addAll_cons, hn]
    exact ih (h.add u.1 n) hus

omit [LinearOrder F] [FloorRing F] [ToString F] [Tolerance F] [IsStrictOrderedRing F] in
theorem IsWhole.map (h : ts.IsWhole) {f : Extended F → Extended F}
    (hf : ∀ n : Int, ∃ k : Int, f (.finite (n : F)) = .finite (k : F)) :
    IsWhole (ts.map fun t => (t.1, f t.2)) := by
  intro u hu
  obtain ⟨t, ht, rfl⟩ := List.mem_map.1 hu
  obtain ⟨n, hn⟩ := h t ht
  rw [hn]
  exact hf n

/-- Nothing is dropped that is not zero. -/
theorem IsWhole.sum_filter (ht : (Tolerance.tolerance : F) < 1) (a : Assignment F)
    (h : ts.IsWhole) : sum a (ts.filter fun t => significant t.2) = sum a ts := by
  rw [sum_filter_kept a h.isFinite, sum]
  congr 1
  refine List.map_congr_left fun t hmem => ?_
  obtain ⟨n, hn⟩ := h t hmem
  rw [hn, number_finite, (retained_intCast ht n).kept_eq]

end Terms

namespace LinearExpr

/-- The constant and all coefficients are integers. -/
class IsWhole (e : LinearExpr (Extended F)) : Prop where
  terms : Terms.IsWhole e.terms
  constant : ∃ n : Int, e.constant = .finite (n : F)

omit [IsStrictOrderedRing F] in
theorem isWhole_ofTerms {ts : Terms (Extended F)} (h : ts.IsWhole) (n : Int) :
    (ofTerms ts (.finite (n : F))).IsWhole :=
  ⟨fun t ht => h t (List.mem_of_mem_filter ht), n, rfl⟩

theorem eval_ofTerms_of_isWhole (ht : (Tolerance.tolerance : F) < 1) (a : Assignment F)
    {ts : Terms (Extended F)} (h : ts.IsWhole) (c : F) :
    (ofTerms ts (.finite c)).eval a = c + Terms.sum a ts := by
  rw [eval, ofTerms, h.sum_filter ht a, number_finite]

section Combine

variable (e f : LinearExpr (Extended F))

omit [IsStrictOrderedRing F] in
theorem isWhole_combine [he : e.IsWhole] [hf : f.IsWhole] (s : Int) :
    (e.combine (.finite (s : F)) f).IsWhole := by
  obtain ⟨c, hc⟩ := he.constant
  obtain ⟨d, hd⟩ := hf.constant
  have hterms := he.terms.addAll (hf.terms.map (f := fun x => .finite (s : F) * x) fun n =>
    ⟨s * n, by rw [finite_mul, Int.cast_mul]⟩)
  rw [combine, hc, hd, finite_mul, finite_add, ← Int.cast_mul, ← Int.cast_add]
  exact isWhole_ofTerms hterms _

/-- **A combination of expressions with integers as coefficients is exact.** -/
theorem eval_combine_of_isWhole (ht : (Tolerance.tolerance : F) < 1) (a : Assignment F)
    [he : e.IsWhole] [hf : f.IsWhole] (s : Int) :
    (e.combine (.finite (s : F)) f).eval a = e.eval a + s * f.eval a := by
  obtain ⟨c, hc⟩ := he.constant
  obtain ⟨d, hd⟩ := hf.constant
  have hmap := hf.terms.map (f := fun x => .finite (s : F) * x) fun n =>
    ⟨s * n, by rw [finite_mul, Int.cast_mul]⟩
  rw [combine, hc, hd, finite_mul, finite_add, eval_ofTerms_of_isWhole ht a (he.terms.addAll hmap),
    Terms.sum_addAll a he.terms.isFinite hmap.isFinite,
    Terms.sum_map a hf.terms.isFinite fun c => rfl, eval, eval, hc, hd, number_finite,
    number_finite]
  ring

omit [IsStrictOrderedRing F] in
instance isWhole_plus [he : e.IsWhole] [hf : f.IsWhole] : (e.plus f).IsWhole := by
  have := isWhole_combine e f 1
  rwa [Int.cast_one] at this

theorem eval_plus_of_isWhole (ht : (Tolerance.tolerance : F) < 1) (a : Assignment F)
    [he : e.IsWhole] [hf : f.IsWhole] : (e.plus f).eval a = e.eval a + f.eval a := by
  have := eval_combine_of_isWhole e f ht a 1
  rwa [Int.cast_one, one_mul] at this

omit [IsStrictOrderedRing F] in
instance isWhole_minus [he : e.IsWhole] [hf : f.IsWhole] : (e.minus f).IsWhole := by
  have := isWhole_combine e f (-1)
  rwa [Int.cast_neg, Int.cast_one] at this

theorem eval_minus_of_isWhole (ht : (Tolerance.tolerance : F) < 1) (a : Assignment F)
    [he : e.IsWhole] [hf : f.IsWhole] : (e.minus f).eval a = e.eval a - f.eval a := by
  have := eval_combine_of_isWhole e f ht a (-1)
  rwa [Int.cast_neg, Int.cast_one, neg_one_mul, ← sub_eq_add_neg] at this

end Combine

omit [LinearOrder F] [FloorRing F] [ToString F] [Tolerance F] [IsStrictOrderedRing F] in
theorem isWhole_one (v : Variable (Extended F)) : Terms.IsWhole [(v, (finite 1 : Extended F))] :=
  List.forall_mem_singleton.2 ⟨1, by rw [Int.cast_one]⟩

omit [IsStrictOrderedRing F] in
instance isWhole_ofVariable (v : Variable (Extended F)) : (ofVariable v).IsWhole := by
  have := isWhole_ofTerms (isWhole_one v) 0
  rwa [Int.cast_zero] at this

theorem eval_ofVariable_of_lt (ht : (Tolerance.tolerance : F) < 1) (a : Assignment F)
    (v : Variable (Extended F)) : (ofVariable v).eval a = a v.id := by
  rw [ofVariable_eq ht, eval, Terms.sum_cons, Terms.sum_nil, number_finite, number_finite]
  ring

omit [IsStrictOrderedRing F] in
instance isWhole_monomial (n : Int) (v : Variable (Extended F)) :
    (monomial (.finite (n : F)) v).IsWhole := by
  obtain ⟨k, hk⟩ := (isWhole_ofVariable v).constant
  have hterms := (isWhole_ofVariable v).terms.map (f := fun x => x * .finite (n : F)) fun k =>
    ⟨k * n, by rw [finite_mul, Int.cast_mul]⟩
  rw [monomial, scale, hk, finite_mul, ← Int.cast_mul]
  exact isWhole_ofTerms hterms _

theorem eval_monomial_of_lt (ht : (Tolerance.tolerance : F) < 1) (a : Assignment F) (n : Int)
    (v : Variable (Extended F)) : (monomial (.finite (n : F)) v).eval a = n * a v.id := by
  rw [monomial_eq ht, eval]
  split
  · simp
  next h =>
    have hzero : (n : F) = 0 := (retained_intCast ht n).kept_eq.symm.trans (kept_of_not_lt h)
    simp [hzero]

omit [IsStrictOrderedRing F] in
theorem isWhole_foldl_add (vs : List (Variable (Extended F))) {ts : Terms (Extended F)}
    (h : ts.IsWhole) : Terms.IsWhole (vs.foldl (fun ts v => ts.add v one) ts) := by
  induction vs generalizing ts with
  | nil => exact h
  | cons v vs ih =>
    have hadd := h.add v 1
    rw [Int.cast_one] at hadd
    exact ih hadd

omit [IsStrictOrderedRing F] in
instance isWhole_total (vs : List (Variable (Extended F))) : (total vs).IsWhole := by
  have := isWhole_ofTerms (isWhole_foldl_add vs fun _ h => absurd h List.not_mem_nil) 0
  rwa [Int.cast_zero] at this

theorem eval_total_of_lt (ht : (Tolerance.tolerance : F) < 1) (a : Assignment F)
    (vs : List (Variable (Extended F))) : (total vs).eval a = (vs.map fun v => a v.id).sum := by
  rw [total, zero_eq, eval_ofTerms_of_isWhole ht a
    (isWhole_foldl_add vs fun _ h => absurd h List.not_mem_nil),
    sum_foldl_add a vs Terms.isFinite_nil, Terms.sum_nil, zero_add, zero_add]

end LinearExpr

end MixedInteger
