import MixedInteger.Proofs.Linear.Proper
import MixedInteger.Proofs.Linear.Retained

/-!
# Slopes

How much a linear function changes with one variable can be seen from two of its values.  For an
expression with one term for each variable, this is the coefficient.  So an operation on expressions
drops nothing if the function that it is to compute has no slope that is too small.

## What is here

* `slope` — the change of a function with a variable.
* `LinearExpr.slope_eval` — the slopes of an expression are its coefficients.
* `LinearExpr.eval_combine_of_slope` and its kin — operations that drop nothing are exact.
-/

set_option autoImplicit false

namespace MixedInteger

open Arithmetic Extended

variable {F : Type} [Field F]

/-- How much a function changes when a variable goes from zero to one and all others are zero. -/
def slope (f : Assignment F → F) (i : VariableId) : F := f (Pi.single i 1) - f 0

namespace Terms

variable {ts : Terms (Extended F)}

theorem sum_zero (ts : Terms (Extended F)) : sum 0 ts = 0 := by
  refine List.sum_eq_zero fun x hx => ?_
  obtain ⟨t, -, rfl⟩ := List.mem_map.1 hx
  exact mul_zero _

theorem sum_single_of_forall_ne {i : VariableId} (h : ∀ t ∈ ts, t.1.id ≠ i) :
    sum (Pi.single i 1) ts = 0 := by
  refine List.sum_eq_zero fun x hx => ?_
  obtain ⟨t, ht, rfl⟩ := List.mem_map.1 hx
  rw [Pi.single_eq_of_ne (h t ht), mul_zero]

/-- With a one for one variable and zeros for all others, terms come to the coefficient of the
variable, if it occurs once. -/
theorem sum_single (hn : (ts.map fun t => t.1.id).Nodup) {t : Variable (Extended F) × Extended F}
    (ht : t ∈ ts) : sum (Pi.single t.1.id 1) ts = t.2.number := by
  induction ts with
  | nil => exact absurd ht List.not_mem_nil
  | cons u ts ih =>
    obtain ⟨hfresh, hn⟩ := List.nodup_cons.1 hn
    rw [sum_cons]
    rcases List.mem_cons.1 ht with rfl | ht
    · have hne : ∀ s ∈ ts, s.1.id ≠ t.1.id := fun s hs hid => hfresh (List.mem_map.2 ⟨s, hs, hid⟩)
      rw [Pi.single_eq_same, mul_one, sum_single_of_forall_ne hne, add_zero]
    · have hne : u.1.id ≠ t.1.id := fun hid => hfresh (List.mem_map.2 ⟨t, ht, hid.symm⟩)
      rw [Pi.single_eq_of_ne hne, mul_zero, zero_add, ih hn ht]

end Terms

theorem slope_add_sum (c : F) (ts : Terms (Extended F)) (i : VariableId) :
    slope (fun a => c + Terms.sum a ts) i = Terms.sum (Pi.single i 1) ts := by
  rw [slope, Terms.sum_zero, add_sub_add_left_eq_sub, sub_zero]

namespace LinearExpr

/-- **The slopes of an expression are its coefficients.** -/
theorem slope_eval {e : LinearExpr (Extended F)} (hn : (e.terms.map fun t => t.1.id).Nodup)
    {t : Variable (Extended F) × Extended F} (ht : t ∈ e.terms) :
    slope (fun a => e.eval a) t.1.id = t.2.number :=
  (slope_add_sum _ _ _).trans (Terms.sum_single hn ht)

theorem slope_eval_of_forall_ne {e : LinearExpr (Extended F)} {i : VariableId}
    (h : ∀ t ∈ e.terms, t.1.id ≠ i) : slope (fun a => e.eval a) i = 0 :=
  (slope_add_sum _ _ _).trans (Terms.sum_single_of_forall_ne h)

variable [LinearOrder F] [FloorRing F] [ToString F] [Extended.Tolerance F]

/-! ## Operations that drop nothing -/

/-- Terms of which none is too small make an expression that comes to what they come to. -/
theorem eval_ofTerms_of_slope {ts : Terms (Extended F)} (hts : ts.IsFinite)
    (hn : (ts.map fun t => t.1.id).Nodup) (c : F)
    (h : ∀ i, Retained (slope (fun a => c + Terms.sum a ts) i)) (a : Assignment F) :
    (ofTerms ts (.finite c)).eval a = c + Terms.sum a ts := by
  rw [eval_ofTerms_kept a hts, Terms.sum]
  congr 2
  refine List.map_congr_left fun t ht => ?_
  have hkept := h t.1.id
  rw [slope_add_sum, Terms.sum_single hn ht] at hkept
  rw [hkept.kept_eq]

variable {e f : LinearExpr (Extended F)} {P : Variable (Extended F) → Prop} [he : e.IsFinite]

theorem eval_combine_of_slope [hf : f.IsFinite] (hover : e.IsOver P) {s : F}
    (h : ∀ i, Retained (slope (fun a => e.eval a + s * f.eval a) i)) (a : Assignment F) :
    (e.combine (.finite s) f).eval a = e.eval a + s * f.eval a := by
  obtain ⟨c, hc⟩ := he.constant
  obtain ⟨d, hd⟩ := hf.constant
  have hmap := Terms.isFinite_map (f := fun c => .finite s * c) hf.terms fun c => ⟨s * c, rfl⟩
  have hsum : ∀ a, e.eval a + s * f.eval a = c + s * d +
      Terms.sum a (Terms.addAll e.terms (f.terms.map fun t => (t.1, .finite s * t.2))) := by
    intro a
    rw [Terms.sum_addAll a he.terms hmap, Terms.sum_map a hf.terms fun c => rfl, eval, eval, hc, hd,
      number_finite, number_finite]
    ring
  simp only [hsum] at h ⊢
  rw [combine, hc, hd, finite_mul, finite_add]
  exact eval_ofTerms_of_slope (Terms.isFinite_addAll he.terms hmap) (hover.nodup_combined _ f) _ h a

theorem eval_scale_of_slope (hover : e.IsOver P) {s : F}
    (h : ∀ i, Retained (slope (fun a => s * e.eval a) i)) (a : Assignment F) :
    (e.scale (.finite s)).eval a = s * e.eval a := by
  obtain ⟨c, hc⟩ := he.constant
  have hmap := Terms.isFinite_map (f := fun c => c * .finite s) he.terms fun c => ⟨c * s, rfl⟩
  have hsum : ∀ a, s * e.eval a =
      c * s + Terms.sum a (e.terms.map fun t => (t.1, t.2 * .finite s)) := by
    intro a
    rw [Terms.sum_map a (f := fun c => c * .finite s) (s := s) he.terms
      fun c => congrArg finite (mul_comm c s), eval, hc, number_finite]
    ring
  simp only [hsum] at h ⊢
  rw [scale, hc, finite_mul]
  exact eval_ofTerms_of_slope hmap (hover.nodup_scaled _) _ h a

theorem isFinite_shift (s x : F) : (e.shift (.finite s) (.finite x)).IsFinite := by
  obtain ⟨c, hc⟩ := he.constant
  rw [shift, hc, finite_mul, finite_add]
  exact isFinite_ofTerms he.terms _

/-- A number that is added drops nothing. -/
theorem eval_shift_of_isKept (hk : e.IsKept) (s x : F) (a : Assignment F) :
    (e.shift (.finite s) (.finite x)).eval a = e.eval a + s * x := by
  obtain ⟨c, hc⟩ := he.constant
  have hfilter : (e.terms.filter fun t => significant t.2) = e.terms := List.filter_eq_self.2 hk
  rw [shift, ofTerms, hfilter, hc, finite_mul, finite_add, eval, eval, hc, number_finite,
    number_finite]
  ring

end LinearExpr

end MixedInteger
