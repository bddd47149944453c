import MixedInteger.Proofs.Reformulation.Sequence
import MixedInteger.Proofs.Reformulation.Completion

/-!
# Premises of completions

What a call leaves to be completed is a matter of exact numbers.  A call that drops only coefficients
that are zero builds what it would build without a tolerance, and what completes an assignment does
not depend on the tolerance either.  So the rows of such a call can be read as they are written.  The
constants in them come from the bounds of the operands, or else from the caller.

## What is here

* `Model.Call.DropsNothing` — a call that drops only coefficients that are zero.
* `Interval.contains_tolerance`, `Model.completes_tolerance` — what does not depend on the tolerance.
* `Assignment.Respects` — variables that take numbers within their bounds.
* `Value.HasBounds` — an operand with bounds, or with a number in their place.
* `Value.IsRead`, `Value.HasBounds.exists_isRead` — the expression that such an operand is read as.
-/

set_option autoImplicit false

namespace MixedInteger

open Arithmetic Extended

variable {F : Type} [Field F] [LinearOrder F] [FloorRing F] [ToString F]

/-! ## Tolerances -/

theorem Interval.Contains.tolerance {t u : Extended.Tolerance F} {i : Interval (Extended F)} {x : F}
    (h : letI := t; i.Contains x) : letI := u; i.Contains x := by
  obtain ⟨hl, hu⟩ := h
  let _ := u
  exact ⟨hl, hu⟩

/-- Which numbers are between two bounds does not depend on which coefficients are dropped. -/
theorem Interval.contains_tolerance (t u : Extended.Tolerance F) :
    (letI _ := t; Contains (F := F)) = (letI _ := u; Contains (F := F)) :=
  funext₂ fun _ _ => propext ⟨.tolerance, .tolerance⟩

/-- Bounds that contain a number are in order. -/
theorem Interval.Contains.isProper [Extended.Tolerance F] {i : Interval (Extended F)} {x : F}
    (h : i.Contains x) : i.isProper = true := by
  obtain ⟨l, u⟩ := i
  obtain ⟨hl, hu⟩ := h
  rcases Extended.finite_of_le hl with rfl | ⟨y, rfl, hy⟩ <;>
    rcases Extended.finite_of_ge hu with rfl | ⟨z, rfl, hz⟩
  · rfl
  · rfl
  · rfl
  · have hle : ¬z < y := not_lt.2 (hy.trans hz)
    simpa [Interval.isProper, hle] using ⟨rfl, rfl⟩

namespace Model

theorem Completes.tolerance {t u : Extended.Tolerance F} {m n : Model (Extended F)}
    {a b : Assignment F} (h : letI := t; m.Completes n a b) : letI := u; m.Completes n a b := by
  obtain ⟨hagrees, hvars, hrows⟩ := h
  let _ := u
  refine ⟨hagrees, fun v hv => ?_, hrows⟩
  obtain ⟨hl, hu, hn⟩ := hvars v hv
  exact ⟨hl, hu, hn⟩

/-- What completes an assignment does not depend on which coefficients are dropped. -/
theorem completes_tolerance (t u : Extended.Tolerance F) :
    (letI _ := t; Completes (F := F)) = (letI _ := u; Completes (F := F)) :=
  funext₂ fun _ _ => funext₂ fun _ _ => propext ⟨.tolerance, .tolerance⟩

theorem determines_tolerance (t u : Extended.Tolerance F) :
    (letI _ := t; Determines (F := F)) = (letI _ := u; Determines (F := F)) :=
  funext₂ fun m n => funext₂ fun a b => by unfold Determines; rw [completes_tolerance t u]

/-- The call drops only coefficients that are zero: it does the same without a tolerance. -/
def Call.DropsNothing [Extended.Tolerance F] (c : Call (Extended F)) (m : Model (Extended F)) :
    Prop :=
  Build.exec (Build.performKept c) m = Build.exec (Build.perform c) m

/-- What such a call does without a tolerance, it does. -/
theorem Call.DropsNothing.succeeds [Extended.Tolerance F] {c : Call (Extended F)}
    {m : Model (Extended F)} (h : c.DropsNothing m)
    {P : Value (Extended F) → Model (Extended F) → Prop}
    (hkept : Build.Succeeds (Build.performKept c) m P) : Build.Succeeds (Build.perform c) m P := by
  obtain ⟨answer, n, hexec, hp⟩ := hkept
  exact ⟨answer, n, h.symm.trans hexec, hp⟩

theorem Call.DropsNothing.exists_var [Extended.Tolerance F] {c : Call (Extended F)}
    {m : Model (Extended F)} (h : c.DropsNothing m)
    {P : Variable (Extended F) → Model (Extended F) → Prop}
    (hkept : Build.Succeeds (Build.performKept c) m fun answer n => ∃ v, answer = .var v ∧ P v n) :
    ∃ v n, Build.exec (Build.perform c) m = (.ok (.var v), n) ∧ P v n := by
  obtain ⟨_, n, hexec, v, rfl, hp⟩ := h.succeeds hkept
  exact ⟨v, n, hexec, hp⟩

end Model

/-! ## Operands with bounds -/

theorem Value.WellFormed.knows {K : Type} {m : Model K} {x : Value K} (h : x.WellFormed m) :
    ∀ v ∈ x.vars, m.Knows v := by
  intro v hv
  cases x with
  | var w => exact List.mem_singleton.1 hv ▸ h
  | expr e | constraint c i =>
    obtain ⟨t, ht, rfl⟩ := List.mem_map.1 hv
    exact Terms.WellFormed.known h t ht
  | _ => cases hv

section Operands

variable [Extended.Tolerance F]

/-- The variables take numbers within their bounds. -/
def Assignment.Respects (a : Assignment F) (vs : List (Variable (Extended F))) : Prop :=
  ∀ v ∈ vs, v.interval.Contains (a v.id)

/-- The value is a variable, an expression or a number.  Its bounds are finite, or a number is given
in their place. -/
def Value.HasBounds (x bigM : Value (Extended F)) : Prop :=
  ∃ i, x.intervalOf = .ok i ∧ ((bigM = .none ∧ i.isFinite = true) ∨ ∃ s, bigM = .scalar s)

/-- The expression that an operand is read as: it is over the variables of the operand and has the
same number, and its bounds are finite unless a number is given in their place. -/
structure Value.IsRead (x bigM : Value (Extended F)) (e : LinearExpr (Extended F)) : Prop where
  toExpr : x.toExpr = .ok e
  finite : e.IsFinite
  vars : ∀ v ∈ e.vars, v ∈ x.vars
  eval : ∀ a, e.eval a = x.eval a
  bounds : bigM = .none → e.interval.isFinite = true

theorem Value.HasBounds.given {x bigM : Value (Extended F)} (h : x.HasBounds bigM) :
    bigM = .none ∨ ∃ s, bigM = .scalar s := by
  obtain ⟨i, -, hgiven⟩ := h
  exact hgiven.imp_left And.left

omit [Extended.Tolerance F] in
theorem Value.HasBounds.tolerance {t u : Extended.Tolerance F} {x bigM : Value (Extended F)}
    (h : letI := t; x.HasBounds bigM) : letI := u; x.HasBounds bigM := by
  let _ := u
  exact h

omit [Extended.Tolerance F] in
theorem Assignment.respects_tolerance (t u : Extended.Tolerance F) :
    (letI _ := t; Respects (F := F)) = (letI _ := u; Respects (F := F)) :=
  funext₂ fun a vs => by unfold Respects; rw [Interval.contains_tolerance t u]

/-- What stands in place of bounds can be read. -/
theorem Value.exists_toNumber? {bigM : Value (Extended F)} (hbig : bigM.IsExact)
    (h : bigM = .none ∨ ∃ s, bigM = .scalar s) : ∃ k, bigM.toNumber? = .ok k := by
  obtain rfl | ⟨s, rfl⟩ := h
  · exact ⟨Option.none, rfl⟩
  · exact ⟨_, hbig.toNumber?_eq_ok⟩

variable [IsStrictOrderedRing F] [Extended.Tolerance.IsZero F]

omit [Extended.Tolerance.IsZero F] in
/-- A variable as an expression has the bounds of the variable, as long as one is not dropped. -/
theorem LinearExpr.interval_ofVariable_of_lt (ht : (Tolerance.tolerance : F) < 1)
    (v : Variable (Extended F)) : (ofVariable v).interval = v.interval := by
  have hpos : Arithmetic.lt (zero : Extended F) (finite 1) = true := decide_eq_true zero_lt_one
  have hzero : (finite 0 : Extended F) = 0 := rfl
  rw [interval, ofVariable_eq ht, List.foldl_cons, List.foldl_nil, Interval.addTerm,
    if_pos hpos, finite_one_mul, finite_one_mul, hzero, zero_add, zero_add]
  rfl

theorem LinearExpr.interval_ofVariable (v : Variable (Extended F)) :
    (ofVariable v).interval = v.interval :=
  interval_ofVariable_of_lt tolerance_lt_one v

/-- An operand with bounds is read as an expression with these bounds. -/
theorem Value.exists_toExpr {x : Value (Extended F)} (hx : x.IsExact) {i : Interval (Extended F)}
    (h : x.intervalOf = .ok i) : ∃ e, x.toExpr = .ok e ∧ e.interval = i := by
  cases x with
  | var v =>
    cases h
    exact ⟨_, rfl, LinearExpr.interval_ofVariable v⟩
  | expr e =>
    cases h
    exact ⟨e, rfl, rfl⟩
  | scalar s =>
    rw [intervalOf, hx.toNumber_eq_ok] at h
    cases h
    refine ⟨.ofConstant (.finite s.number), ?_, rfl⟩
    rw [toExpr, hx.toNumber_eq_ok]
    rfl
  | _ => cases h

/-- **An operand with bounds is read as an expression.** -/
theorem Value.HasBounds.exists_isRead {x bigM : Value (Extended F)} (h : x.HasBounds bigM)
    (hx : x.IsExact) : ∃ e, x.IsRead bigM e := by
  obtain ⟨i, hi, hbounds⟩ := h
  obtain ⟨e, he, rfl⟩ := exists_toExpr hx hi
  obtain ⟨hfinite, hvars, heval⟩ := hx.toExpr he
  refine ⟨e, he, hfinite, hvars, heval, fun hnone => ?_⟩
  rcases hbounds with ⟨-, hf⟩ | ⟨s, rfl⟩
  · exact hf
  · cases hnone

omit [Extended.Tolerance.IsZero F] in
/-- Variables within their bounds keep an operand within its own. -/
theorem Value.IsRead.contains {x bigM : Value (Extended F)} {e : LinearExpr (Extended F)}
    (h : x.IsRead bigM e) {a : Assignment F} (ha : a.Respects x.vars) :
    e.interval.Contains (e.eval a) := by
  have := h.finite
  exact e.interval_contains fun t ht => ha t.1 (h.vars t.1 (List.mem_map_of_mem ht))

end Operands

end MixedInteger
