import MixedInteger.Proofs.Reformulation.PiecewiseExact
import MixedInteger.Proofs.Reformulation.ProductCompletion

/-!
# What a magnitude allows

A magnitude is the sum of a positive and a negative part, and a selector lets only one of them differ
from zero.  So every completion has the right parts, whatever constant its rows are built with.  A
number within the bounds has its parts for a completion, wherever zero is, and with a constant in
place of the bounds a number has them as long as the constant is large enough.

## What is here

* `Build.magnitudeOf_succeeds` — the call, with bounds that can be derived or are given.
* `Model.Measures` — what the new variables are.
* `Model.magnitude_measures` — the call and its completions.
-/

set_option autoImplicit false

namespace MixedInteger

open Arithmetic Extended

/-- With bounds that are numbers, the magnitude of an argument is added. -/
theorem Build.magnitudeOf_succeeds {K : Type} [Arithmetic K] [Sensible K] {x bigM : Value K}
    {e : LinearExpr K} {k : Option K} {i : Interval K} (he : x.toExpr = .ok e)
    (hk : bigM.toNumber? = .ok k) (hi : e.finiteInterval "abs" k = .ok i)
    (hu : isNaN i.upper = false) (m : Model K) :
    Succeeds (magnitudeOf x bigM) m fun t n => ∃ p : MagnitudeParts K, p.result = t ∧
      MagnitudeBounds (larger i.upper zero) (larger (-i.lower) zero) p ∧
      m.Grown [p.positive, p.negative, p.sign, p.result]
        (Extremum.magnitudeRows e (larger i.upper zero) (larger (-i.lower) zero) p) n := by
  rw [magnitudeOf, he, hk]
  refine .lift_bind (.lift_bind ?_)
  rw [hi]
  exact .lift_bind (magnitude_succeeds e hu (isNaN_neg_finiteInterval hi hu) m)

namespace Model

variable {F : Type} [Field F] [LinearOrder F] [FloorRing F] [ToString F] [Extended.Tolerance F]

/-- The new variables are a positive part, a negative part, a sign and a magnitude.  In every
completion the parts and the magnitude are those of an operand, whatever constant the rows are built
with, and there is one as long as the operand is within reach of the constant. -/
structure Measures (m n : Model (Extended F)) (x bigM : Value (Extended F))
    (p : MagnitudeParts (Extended F)) : Prop where
  newVars : m.newVars n = [p.positive, p.negative, p.sign, p.result]
  values : ∀ a b, m.Completes n a b → Extremum.Measures p b (x.eval a)
  exists_completes : ∀ a, x.InReach a bigM → ∃ b, m.Completes n a b

variable {m n : Model (Extended F)} {x bigM : Value (Extended F)} {p : MagnitudeParts (Extended F)}

omit [Extended.Tolerance F] in
theorem Measures.tolerance {t u : Extended.Tolerance F} (h : letI := t; m.Measures n x bigM p) :
    letI := u; m.Measures n x bigM p := by
  obtain ⟨hvars, hvalues, hexists⟩ := h
  rw [completes_tolerance t u] at hvalues hexists
  let _ := u
  exact ⟨hvars, hvalues, fun a ha => hexists a ha.tolerance⟩

variable [IsStrictOrderedRing F]

/-- The rows of a magnitude measure the operand that they are built from. -/
theorem Grown.measures [Extended.Tolerance.IsZero F] {e : LinearExpr (Extended F)} {l u : F}
    (hm : m.WellFormed) (hknows : ∀ v ∈ x.vars, m.Knows v) (he : x.IsRead bigM e)
    (hreach : ∀ a, x.InReach a bigM → l ≤ e.eval a ∧ e.eval a ≤ u)
    (hp : Build.MagnitudeBounds (.finite (max u 0)) (.finite (max (-l) 0)) p)
    (hg : m.Grown [p.positive, p.negative, p.sign, p.result]
      (Extremum.magnitudeRows e (.finite (max u 0)) (.finite (max (-l) 0)) p) n) :
    m.Measures n x bigM p := by
  have := he.finite
  have hsame : ∀ {a b : Assignment F}, (∀ i, (∀ v ∈ [p.positive, p.negative, p.sign, p.result],
      v.id ≠ i) → b i = a i) → e.eval b = e.eval a :=
    hg.eval_eq hm fun v hv => hknows v (he.vars v hv)
  refine ⟨hg.newVars_eq, fun a b hb => ?_, fun a ha => ?_⟩
  · obtain ⟨hagrees, hallows, hrows⟩ := hg.completes_iff.1 hb
    rw [← he.eval, ← hsame hagrees]
    exact Extremum.measures_of_magnitudeRows hp hallows hrows
  · obtain ⟨hl, hu⟩ := hreach a ha
    obtain ⟨b, hb, -⟩ := hg.exists_completes (a := a) [max (e.eval a) 0, max (-e.eval a) 0,
      if 0 ≤ e.eval a then 1 else 0, |e.eval a|] rfl fun b hagrees hnew => by
      simp only [List.map_cons, List.map_nil, List.cons.injEq, and_true] at hnew
      obtain ⟨hpos, hneg, hsign, hres⟩ := hnew
      rw [← hsame hagrees] at hl hu hpos hneg hsign hres
      exact Extremum.Measures.passes hp hl hu ⟨hpos, hneg, hres⟩ hsign
    exact ⟨b, hb⟩

/-- **The magnitude of an operand.**  As long as no coefficient is dropped that is not zero, the call
succeeds; in every completion its variable is the magnitude, for any constant; and what is within
reach of the constant has a completion. -/
theorem magnitude_measures (hm : m.Reachable)
    (hadmissible : (Call.magnitude x bigM).Admissible m)
    (hexact : (Call.magnitude x bigM).IsExact) (hdrops : (Call.magnitude x bigM).DropsNothing m)
    (hx : x.HasBounds bigM) :
    ∃ p n, Build.exec (Build.perform (.magnitude x bigM)) m = (.ok (.var p.result), n) ∧
      m.Measures n x bigM p := by
  have hexactx := hexact.arg (x := x) (by simp [Call.arguments])
  have hbig := hexact.arg (x := bigM) (by simp [Call.arguments])
  have hknows := (hadmissible x (by simp [Call.arguments])).wellFormed.knows
  suffices hkept : Build.Succeeds (Build.performKept (.magnitude x bigM)) m fun answer n =>
      ∃ p : MagnitudeParts (Extended F), answer = .var p.result ∧ m.Measures n x bigM p by
    obtain ⟨_, n, hexec, p, rfl, hp⟩ := hdrops.succeeds hkept
    exact ⟨p, n, hexec, hp⟩
  have hm := hm.wellFormed.tolerance (u := .none)
  have hzero := Extended.Tolerance.isZero_none (F := F)
  have hx := hx.tolerance (u := .none)
  let _ : Extended.Tolerance F := .none
  obtain ⟨e, he⟩ := hx.exists_isRead hexactx
  obtain ⟨k, l, u, hk, hi, hreach⟩ := he.exists_interval hbig hx.given
  refine .map ((Build.magnitudeOf_succeeds he.toExpr hk (hi _) rfl m).mono ?_)
  rintro _ n ⟨p, rfl, hp, hg⟩
  rw [zero_eq, neg_finite, larger_finite, larger_finite] at hp hg
  exact ⟨p, rfl, (hg.measures hm hknows he hreach hp).tolerance⟩

/-! ## A distance that is zero inside the bounds -/

section Rational

local instance magnitudeTolerance : Extended.Tolerance ℚ := .standard

/-- A variable between zero and ten minus four. -/
def shiftedOperand : Value (Extended ℚ) := .expr ⟨[(boundedVariable, .finite 1)], .finite (-4)⟩

theorem magnitude_measures_shiftedOperand : ∃ p n,
    Build.exec (Build.perform (.magnitude shiftedOperand .none)) boundedModel =
      (.ok (.var p.result), n) ∧ boundedModel.Measures n shiftedOperand .none p := by
  refine magnitude_measures boundedModel_reachable ?_ ?_ ?_
    ⟨_, rfl, .inl ⟨rfl, by decide +kernel⟩⟩
  · have hwell : shiftedOperand.WellFormed boundedModel :=
      ⟨List.nodup_singleton _, List.forall_mem_singleton.2 (knows_of_mem List.mem_cons_self)⟩
    exact List.forall_mem_cons.2 ⟨List.forall_mem_singleton.2 hwell,
      List.forall_mem_singleton.2 (List.forall_mem_singleton.2 trivial)⟩
  · have hoperand : shiftedOperand.IsExact :=
      ⟨⟨List.forall_mem_singleton.2 ⟨1, rfl⟩, -4, rfl⟩, List.forall_mem_singleton.2 (by decide)⟩
    exact List.forall_mem_cons.2 ⟨List.forall_mem_singleton.2 hoperand,
      List.forall_mem_singleton.2 (List.forall_mem_singleton.2 trivial)⟩
  · rw [Call.DropsNothing]
    cbv

end Rational

end Model

end MixedInteger
