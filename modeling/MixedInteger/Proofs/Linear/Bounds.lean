import MixedInteger.Proofs.Linear.Evaluation

/-!
# Bounds of expressions

The bounds of its variables bound an expression from both sides.

## What is here

* `Interval.Contains` — a number between two bounds, either of which may be infinite.
* `LinearExpr.interval_contains` — the bounds of an expression contain what it comes to.
* `LinearExpr.exists_of_finiteInterval` — the bounds that a reformulation works with.
-/

set_option autoImplicit false

namespace MixedInteger

open Arithmetic

variable {F : Type} [Field F] [LinearOrder F] [FloorRing F] [ToString F] [Extended.Tolerance F]

/-- A number is between two bounds. -/
structure Interval.Contains (i : Interval (Extended F)) (x : F) : Prop where
  lower : le i.lower (.finite x) = true
  upper : le (.finite x) i.upper = true

theorem Variable.Allows.contains {v : Variable (Extended F)} {x : F} (h : v.Allows x) :
    v.interval.Contains x := ⟨h.lower, h.upper⟩

@[simp] theorem Interval.contains_finite (l u x : F) :
    (⟨.finite l, .finite u⟩ : Interval (Extended F)).Contains x ↔ l ≤ x ∧ x ≤ u := by
  constructor
  · rintro ⟨hl, hu⟩
    exact ⟨by simpa using hl, by simpa using hu⟩
  · rintro ⟨hl, hu⟩
    exact ⟨by simpa using hl, by simpa using hu⟩

/-! ## Sums and multiples -/

namespace Extended

theorem finite_of_le {l : Extended F} {x : F} (h : Arithmetic.le l (finite x) = true) :
    l = infinite true ∨ ∃ y, l = finite y ∧ y ≤ x := by
  rcases l with _ | n | y
  · cases h
  · cases n
    · cases h
    · exact .inl rfl
  · exact .inr ⟨y, rfl, of_decide_eq_true h⟩

theorem finite_of_ge {u : Extended F} {x : F} (h : Arithmetic.le (finite x) u = true) :
    u = infinite false ∨ ∃ y, u = finite y ∧ x ≤ y := by
  rcases u with _ | n | y
  · cases h
  · cases n
    · exact .inl rfl
    · cases h
  · exact .inr ⟨y, rfl, of_decide_eq_true h⟩

variable [IsStrictOrderedRing F]

theorem add_le_finite {l k : Extended F} {x y : F} (hl : Arithmetic.le l (finite x) = true)
    (hk : Arithmetic.le k (finite y) = true) : Arithmetic.le (l + k) (finite (x + y)) = true := by
  rcases finite_of_le hl with rfl | ⟨x', rfl, hx⟩ <;>
    rcases finite_of_le hk with rfl | ⟨y', rfl, hy⟩
  · rfl
  · rfl
  · rfl
  · simpa using add_le_add hx hy

theorem finite_le_add {u k : Extended F} {x y : F} (hu : Arithmetic.le (finite x) u = true)
    (hk : Arithmetic.le (finite y) k = true) : Arithmetic.le (finite (x + y)) (u + k) = true := by
  rcases finite_of_ge hu with rfl | ⟨x', rfl, hx⟩ <;>
    rcases finite_of_ge hk with rfl | ⟨y', rfl, hy⟩
  · rfl
  · rfl
  · rfl
  · simpa using add_le_add hx hy

/-- A positive multiple keeps the side of a bound. -/
theorem mul_le_finite {l : Extended F} {c x : F} (hc : 0 < c)
    (hl : Arithmetic.le l (finite x) = true) :
    Arithmetic.le (finite c * l) (finite (c * x)) = true := by
  rcases finite_of_le hl with rfl | ⟨y, rfl, hy⟩
  · rw [finite_mul_infinite, scaleInfinity_pos true hc]
    rfl
  · simpa using mul_le_mul_of_nonneg_left hy hc.le

theorem finite_le_mul {u : Extended F} {c x : F} (hc : 0 < c)
    (hu : Arithmetic.le (finite x) u = true) :
    Arithmetic.le (finite (c * x)) (finite c * u) = true := by
  rcases finite_of_ge hu with rfl | ⟨y, rfl, hy⟩
  · rw [finite_mul_infinite, scaleInfinity_pos false hc]
    rfl
  · simpa using mul_le_mul_of_nonneg_left hy hc.le

/-- A negative multiple exchanges the sides of a bound. -/
theorem mul_le_finite_of_neg {u : Extended F} {c x : F} (hc : c < 0)
    (hu : Arithmetic.le (finite x) u = true) :
    Arithmetic.le (finite c * u) (finite (c * x)) = true := by
  rcases finite_of_ge hu with rfl | ⟨y, rfl, hy⟩
  · rw [finite_mul_infinite, scaleInfinity_neg false hc]
    rfl
  · simpa using mul_le_mul_of_nonpos_left hy hc.le

theorem finite_le_mul_of_neg {l : Extended F} {c x : F} (hc : c < 0)
    (hl : Arithmetic.le l (finite x) = true) :
    Arithmetic.le (finite (c * x)) (finite c * l) = true := by
  rcases finite_of_le hl with rfl | ⟨y, rfl, hy⟩
  · rw [finite_mul_infinite, scaleInfinity_neg true hc]
    rfl
  · simpa using mul_le_mul_of_nonpos_left hy hc.le

end Extended

/-! ## Expressions -/

variable [IsStrictOrderedRing F]

/-- The bounds of a variable move an interval by a term. -/
theorem Interval.Contains.addTerm {i : Interval (Extended F)} {x y c : F} (h : i.Contains x)
    {v : Variable (Extended F)} (hv : v.interval.Contains y) :
    (i.addTerm (v, .finite c)).Contains (x + c * y) := by
  rw [Interval.addTerm]
  simp only [Extended.zero_eq, Extended.lt_finite, decide_eq_true_iff]
  rcases lt_trichotomy c 0 with hc | hc | hc
  · rw [if_neg hc.not_gt, if_pos hc]
    exact ⟨Extended.add_le_finite h.lower (Extended.mul_le_finite_of_neg hc hv.upper),
      Extended.finite_le_add h.upper (Extended.finite_le_mul_of_neg hc hv.lower)⟩
  · rw [if_neg hc.not_gt, if_neg hc.not_lt, hc, zero_mul, add_zero]
    exact h
  · rw [if_pos hc]
    exact ⟨Extended.add_le_finite h.lower (Extended.mul_le_finite hc hv.lower),
      Extended.finite_le_add h.upper (Extended.finite_le_mul hc hv.upper)⟩

/-- **The bounds of an expression contain what it comes to.** -/
theorem LinearExpr.interval_contains (e : LinearExpr (Extended F)) [he : e.IsFinite]
    {a : Assignment F} (hv : ∀ t ∈ e.terms, t.1.interval.Contains (a t.1.id)) :
    e.interval.Contains (e.eval a) := by
  have hfold : ∀ (ts : Terms (Extended F)) (i : Interval (Extended F)) (x : F), ts.IsFinite →
      (∀ t ∈ ts, t.1.interval.Contains (a t.1.id)) → i.Contains x →
      (ts.foldl Interval.addTerm i).Contains (x + Terms.sum a ts) := by
    intro ts
    induction ts with
    | nil =>
      intro i x _ _ hi
      rwa [Terms.sum_nil, add_zero]
    | cons t ts ih =>
      intro i x hts hv hi
      obtain ⟨v, d⟩ := t
      obtain ⟨⟨c, rfl⟩, hrest⟩ := Terms.isFinite_cons.1 hts
      have hstep := hi.addTerm (c := c) (hv _ List.mem_cons_self)
      rw [Terms.sum_cons, ← add_assoc]
      exact ih _ _ hrest (fun t ht => hv t (List.mem_cons_of_mem _ ht)) hstep
  obtain ⟨c, hc⟩ := he.constant
  rw [LinearExpr.interval, LinearExpr.eval, hc]
  exact hfold e.terms _ _ he.terms hv ((Interval.contains_finite c c c).2 ⟨le_rfl, le_rfl⟩)

omit [IsStrictOrderedRing F] in
theorem Interval.exists_of_isFinite {i : Interval (Extended F)} (h : i.isFinite = true) :
    ∃ l u, i = ⟨.finite l, .finite u⟩ := by
  rw [isFinite, Bool.and_eq_true] at h
  obtain ⟨l, hl⟩ := Extended.eq_finite_of_isFinite h.1
  obtain ⟨u, hu⟩ := Extended.eq_finite_of_isFinite h.2
  exact ⟨l, u, by rw [← hl, ← hu]⟩

omit [IsStrictOrderedRing F] in
/-- The bounds that a reformulation derives are those of the expression, and finite. -/
theorem LinearExpr.exists_of_finiteInterval {e : LinearExpr (Extended F)} {context : String}
    {i : Interval (Extended F)} (h : e.finiteInterval context none = .ok i) :
    i = e.interval ∧ ∃ l u, i = ⟨.finite l, .finite u⟩ := by
  rw [LinearExpr.finiteInterval, Interval.requireFinite] at h
  split at h
  next hf =>
    cases h
    exact ⟨rfl, Interval.exists_of_isFinite hf⟩
  next => cases h

end MixedInteger
