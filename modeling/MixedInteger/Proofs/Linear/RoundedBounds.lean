import MixedInteger.Proofs.Linear.Kept
import MixedInteger.Proofs.Number.RoundedDouble
import MixedInteger.Proofs.Value.Evaluation

/-!
# Rounded bounds

The bounds of an expression and its value are added up term by term in the same order, from the same
constant.  A rounding that keeps the order therefore keeps the value between the bounds after each
term, whatever it does to the sums.

## What is here

* `Interval.Around` — a number between two ends, as long as all three are numbers.
* `Interval.Around.addTerm`, `LinearExpr.around_value` — one more term, and all of them.
* `Value.evaluate_within` — **the computed value is between the computed bounds**.
-/

set_option autoImplicit false

namespace MixedInteger

open Arithmetic

variable {K F : Type} [Arithmetic K] [Field F] [LinearOrder F]

/-! ## One term -/

namespace Interval

/-- The number is between the two ends, as long as all three are numbers. -/
structure Around (i : Interval K) (x : K) : Prop where
  lower : AtMost i.lower x
  upper : AtMost x i.upper

theorem isFinite_addTerm (R : Rounding K F) (hR : R.IsTotal) {i : Interval K}
    (hi : i.isFinite = true) {t : Variable K × K} (ht : Arithmetic.isFinite t.2 = true)
    (hv : t.1.interval.isFinite = true) : (i.addTerm t).isFinite = true := by
  rw [isFinite, Bool.and_eq_true] at hi hv ⊢
  rw [addTerm]
  split
  · exact ⟨R.isFinite_add hR hi.1 (R.isFinite_mul hR ht hv.1),
      R.isFinite_add hR hi.2 (R.isFinite_mul hR ht hv.2)⟩
  split
  · exact ⟨R.isFinite_add hR hi.1 (R.isFinite_mul hR ht hv.2),
      R.isFinite_add hR hi.2 (R.isFinite_mul hR ht hv.1)⟩
  · exact hi

variable [IsStrictOrderedRing F]

/-- **A further term keeps a number between two ends** that are moved by the same term. -/
theorem Around.addTerm (R : Rounding K F) {i : Interval K} {x y c : K} (h : i.Around x)
    {v : Variable K} (hl : le v.lower y = true) (hu : le y v.upper = true)
    (hc : significant c = true) : (i.addTerm (v, c)).Around (x + c * y) := by
  rw [Interval.addTerm]
  split
  next hpos =>
    exact ⟨R.atMost_add h.lower (R.atMost_mul hpos hl), R.atMost_add h.upper (R.atMost_mul hpos hu)⟩
  next hpos =>
    have hneg : lt c zero = true := (R.pos_or_neg hc).resolve_left hpos
    rw [if_pos hneg]
    exact ⟨R.atMost_add h.lower (R.atMost_mul_of_neg hneg hu),
      R.atMost_add h.upper (R.atMost_mul_of_neg hneg hl)⟩

end Interval

/-! ## All terms -/

namespace LinearExpr

variable {e : LinearExpr K} {a : Variable K → K}

/-- The numbers of an expression and of the bounds of its variables are finite. -/
structure IsBounded (e : LinearExpr K) : Prop where
  constant : isFinite e.constant = true
  terms : ∀ t ∈ e.terms, isFinite t.2 = true
  vars : ∀ v ∈ e.vars, v.interval.isFinite = true

theorem isFinite_interval (R : Rounding K F) (hR : R.IsTotal) (he : e.IsBounded) :
    e.interval.isFinite = true := by
  have hconstant : (Interval.mk e.constant e.constant).isFinite = true := by
    rw [Interval.isFinite, he.constant, Bool.and_self]
  refine List.foldlRecOn (motive := fun i : Interval K => i.isFinite = true) e.terms
    Interval.addTerm hconstant fun i hi t ht => ?_
  exact Interval.isFinite_addTerm R hR hi (he.terms t ht) (he.vars _ (List.mem_map_of_mem ht))

theorem isFinite_value (R : Rounding K F) (hR : R.IsTotal) (he : e.IsBounded)
    (ha : ∀ v ∈ e.vars, isFinite (a v) = true) : isFinite (e.value a) = true := by
  refine List.foldlRecOn (motive := fun x : K => isFinite x = true) e.terms
    (fun total t => total + t.2 * a t.1) he.constant fun x hx t ht => ?_
  exact R.isFinite_add hR hx (R.isFinite_mul hR (he.terms t ht) (ha _ (List.mem_map_of_mem ht)))

variable [IsStrictOrderedRing F]

/-- **The bounds of an expression are around its value**, after each term and so after all. -/
theorem around_value (R : Rounding K F) (he : e.IsKept)
    (ha : ∀ v ∈ e.vars, le v.lower (a v) = true ∧ le (a v) v.upper = true) :
    e.interval.Around (e.value a) := by
  have hconstant : (Interval.mk e.constant e.constant).Around e.constant :=
    ⟨R.atMost_self _, R.atMost_self _⟩
  -- both sums take the terms in the same order, so that one relation holds after each of them
  refine List.foldl_rel hconstant fun t ht i x hi => ?_
  obtain ⟨hl, hu⟩ := ha t.1 (List.mem_map_of_mem ht)
  exact hi.addTerm R hl hu (he t ht)

end LinearExpr

/-! ## Evaluation -/

namespace Value

variable [IsStrictOrderedRing F]

/-- **The computed value of an expression is between its computed bounds**, with no tolerance.  If
each sum and each product is rounded by a function that keeps the order, then this holds whenever
the two bounds and the value are numbers; and they are numbers if nothing is rounded to an infinity
and everything is finite to begin with. -/
theorem evaluate_within (R : Rounding K F) {e : LinearExpr K} (he : e.IsKept) {values : Value K}
    {a : Variable K → K} (hvalues : ∀ v ∈ e.vars, values.Gives v (a v))
    (ha : ∀ v ∈ e.vars, le v.lower (a v) = true ∧ le (a v) v.upper = true) :
    ∃ i x, (expr e).intervalOf = .ok i ∧ evaluate e values = .ok (real x) ∧
      (isNaN i.lower = false → isNaN x = false → isNaN i.upper = false →
        le i.lower x = true ∧ le x i.upper = true) ∧
      (R.IsTotal → e.IsBounded →
        isFinite i.lower = true ∧ isFinite x = true ∧ isFinite i.upper = true ∧
          le i.lower x = true ∧ le x i.upper = true) := by
  have haround := LinearExpr.around_value R he ha
  have hbetween : isNaN e.interval.lower = false → isNaN (e.value a) = false →
      isNaN e.interval.upper = false →
        le e.interval.lower (e.value a) = true ∧ le (e.value a) e.interval.upper = true :=
    fun hl hx hu => ⟨haround.lower hl hx, haround.upper hx hu⟩
  refine ⟨e.interval, e.value a, rfl, evaluate_eq hvalues, hbetween, fun hR hbounded => ?_⟩
  have hvars : ∀ v ∈ e.vars, isFinite (a v) = true := by
    intro v hv
    have hfinite := hbounded.vars v hv
    rw [Interval.isFinite, Bool.and_eq_true] at hfinite
    exact R.isFinite_of_le hfinite.1 hfinite.2 (ha v hv).1 (ha v hv).2
  have hinterval := LinearExpr.isFinite_interval R hR hbounded
  rw [Interval.isFinite, Bool.and_eq_true] at hinterval
  have hvalue := LinearExpr.isFinite_value R hR hbounded hvars
  exact ⟨hinterval.1, hvalue, hinterval.2, hbetween (R.isNaN_of_isFinite hinterval.1)
    (R.isNaN_of_isFinite hvalue) (R.isNaN_of_isFinite hinterval.2)⟩

end Value

section Instances

local instance roundedTolerance : Extended.Tolerance ℚ := .standard

/-- A variable of a sum. -/
def summand {K : Type} (n : ℕ) (lower upper : K) : Variable K :=
  ⟨⟨0, n⟩, .text "x", .continuous, lower, upper⟩

/-- A sum of doubles, of which every part is rounded. -/
def doubleSum : LinearExpr Float :=
  ⟨[(summand 0 0.1 3.3, 0.1), (summand 1 (-2.2) 0.6, -0.3)], 0.7⟩

/-- Numbers between the bounds of the variables. -/
def doubleValues : Value Float :=
  .table [(.var (summand 0 0.1 3.3), .real 1.7), (.var (summand 1 (-2.2) 0.6), .real 0.2)] none

/-- Numbers that are rounded down to integers. -/
abbrev Truncated : Type := Extended.Rounded fun q : ℚ => .finite ⌊q⌋

/-- A sum of numbers that are rounded down. -/
def truncatedSum : LinearExpr Truncated :=
  ⟨[(summand 0 (.finite 0) (.finite (7 / 2)), .finite (3 / 2)),
    (summand 1 (.finite (-1)) (.finite 2), .finite (-1 / 3))], .finite (1 / 5)⟩

/-- Numbers between the bounds of the variables. -/
def truncatedValues : Value Truncated :=
  .table [(.var (summand 0 (.finite 0) (.finite (7 / 2))), .int 3),
    (.var (summand 1 (.finite (-1)) (.finite 2)), .real (.finite (1 / 2)))] none

theorem Value.evaluate_within_rounded :
    (∃ i x, (Value.expr doubleSum).intervalOf = .ok i ∧
      evaluate doubleSum doubleValues = .ok (.real x) ∧
      le i.lower x = true ∧ le x i.upper = true) ∧
    ∃ i x, (Value.expr truncatedSum).intervalOf = .ok i ∧
      evaluate truncatedSum truncatedValues = .ok (.real x) ∧
      isFinite x = true ∧ le i.lower x = true ∧ le x i.upper = true := by
  constructor
  · let a : Variable Float → Float := fun v => if v.id.index = 0 then 1.7 else 0.2
    have hkept : doubleSum.IsKept :=
      List.forall_mem_cons.2 ⟨by decide +kernel, List.forall_mem_singleton.2 (by decide +kernel)⟩
    have hvalues : ∀ v ∈ doubleSum.vars, doubleValues.Gives v (a v) :=
      List.forall_mem_cons.2 ⟨⟨_, rfl, rfl⟩, List.forall_mem_singleton.2 ⟨_, rfl, rfl⟩⟩
    have hbounds : ∀ v ∈ doubleSum.vars, le v.lower (a v) = true ∧ le (a v) v.upper = true :=
      List.forall_mem_cons.2 ⟨by decide +kernel, List.forall_mem_singleton.2 (by decide +kernel)⟩
    obtain ⟨i, x, hi, hx, hwithin, -⟩ := evaluate_within Double.rounding hkept hvalues hbounds
    obtain rfl : doubleSum.interval = i := Except.ok.inj hi
    have hvalue := Except.ok.inj ((evaluate_eq hvalues).symm.trans hx)
    obtain rfl : doubleSum.value a = x := (Scalar.real.inj (Value.scalar.inj hvalue)).1
    exact ⟨_, _, hi, hx, hwithin (by decide +kernel) (by decide +kernel) (by decide +kernel)⟩
  · let a : Variable Truncated → Truncated :=
      fun v => if v.id.index = 0 then .finite 3 else .finite (1 / 2)
    have hkept : truncatedSum.IsKept :=
      List.forall_mem_cons.2 ⟨by decide +kernel, List.forall_mem_singleton.2 (by decide +kernel)⟩
    have hvalues : ∀ v ∈ truncatedSum.vars, truncatedValues.Gives v (a v) :=
      List.forall_mem_cons.2 ⟨⟨_, rfl, rfl⟩, List.forall_mem_singleton.2 ⟨_, rfl, rfl⟩⟩
    have hbounds : ∀ v ∈ truncatedSum.vars, le v.lower (a v) = true ∧ le (a v) v.upper = true :=
      List.forall_mem_cons.2 ⟨by decide +kernel, List.forall_mem_singleton.2 (by decide +kernel)⟩
    have hbounded : truncatedSum.IsBounded :=
      ⟨rfl, List.forall_mem_cons.2 ⟨rfl, List.forall_mem_singleton.2 rfl⟩,
        List.forall_mem_cons.2 ⟨rfl, List.forall_mem_singleton.2 rfl⟩⟩
    let R : Rounding Truncated ℚ := Extended.Rounded.rounding (by decide +kernel)
      fun h => decide_eq_true (Int.cast_le.2 (Int.floor_mono h))
    obtain ⟨i, x, hi, hx, -, hfinite⟩ := evaluate_within R hkept hvalues hbounds
    obtain ⟨-, hfinite, -, hwithin⟩ := hfinite (fun q => ⟨⌊q⌋, rfl⟩) hbounded
    exact ⟨i, x, hi, hx, hfinite, hwithin⟩

end Instances

end MixedInteger
