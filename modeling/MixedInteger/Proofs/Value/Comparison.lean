import MixedInteger.Proofs.Linear.Slope
import MixedInteger.Proofs.Model.Reachable
import MixedInteger.Proofs.Reformulation.Meaning
import MixedInteger.Proofs.Value.Calculation

/-!
# Comparisons of operands

A comparison of two operands, not both numbers, builds a constraint.  A number ends up on the right,
which turns the comparison around if it was written on the left.  Two operands that are no numbers
both end up on the left, the second one with its signs changed.  The constraint says what has been
written in all of these cases, also once a model has taken it in under a name.

## What is here

* `Value.IsOperand`, `Value.amount` — what can be compared, and what it comes to.
* `Relation.compare_flip`, `Relation.compare_sub` — a comparison turned around, and one with a
  difference.
* `Value.compare_spec` — **the constraint holds exactly where the operands compare as written**.
-/

set_option autoImplicit false

namespace MixedInteger

open Arithmetic Extended

variable {F : Type} [Field F] [LinearOrder F] [FloorRing F] [ToString F] [Extended.Tolerance F]

/-! ## Relations -/

namespace Relation

/-- A comparison with its sides exchanged turns around. -/
theorem compare_flip (r : Relation) (x y : Extended F) : r.flip.compare y x = r.compare x y := by
  cases r with
  | le | ge => rfl
  | eq =>
    change Arithmetic.eq y x = Arithmetic.eq x y
    rw [eq_eq_le, eq_eq_le, Bool.and_comm]

variable [IsStrictOrderedRing F]

/-- Two numbers compare like their difference with zero. -/
theorem compare_sub (r : Relation) (x y : F) :
    r.compare (finite (x - y)) zero = r.compare (finite x) (finite y) := by
  cases r with
  | le => simp [compare]
  | ge => simp [compare]
  | eq => simp [compare, sub_eq_zero]

end Relation

/-! ## Operands -/

namespace Value

/-- What is compared in exact arithmetic: a number, which may be infinite, a variable, or an
expression in finite numbers with one term for each of its variables. -/
def IsOperand : Value (Extended F) → Prop
  | scalar _ | var _ => True
  | expr e => e.IsFinite ∧ e.IsOver fun _ => True
  | _ => False

/-- What an operand comes to, which may be infinite if it is a number. -/
def amount (a : Assignment F) : Value (Extended F) → Extended F
  | scalar (.real x _) => x
  | v => .finite (v.eval a)

variable {a b : Value (Extended F)} {e f : LinearExpr (Extended F)}

/-- A number is read as what it comes to. -/
theorem toNumber_eq_amount (s : Scalar (Extended F)) (v : Assignment F) :
    s.toNumber = .ok ((scalar s).amount v) := by
  cases s with
  | truth t => cases t <;> rfl
  | integer n => rfl
  | real x mark => rfl

theorem amount_of_linear (h : a.linear? = some e) (v : Assignment F) :
    a.amount v = .finite (a.eval v) := by
  obtain ⟨w, rfl, rfl⟩ | rfl := linear_cases h <;> rfl

variable [IsStrictOrderedRing F]

/-- The expression of an operand that is no number comes to what the operand comes to. -/
theorem IsOperand.linear (ht : (Tolerance.tolerance : F) < 1) (ha : a.IsOperand)
    (h : a.linear? = some e) : e.IsFinite ∧ e.IsOver (fun _ => True) ∧ ∀ v, e.eval v = a.eval v := by
  obtain ⟨w, rfl, rfl⟩ | rfl := linear_cases h
  · exact ⟨inferInstance, LinearExpr.isOver_ofVariable trivial,
      fun v => LinearExpr.eval_ofVariable_of_lt ht v w⟩
  · exact ⟨ha.1, ha.2, fun v => rfl⟩

/-! ## Constraints -/

/-- A constraint says that two operands compare in a way: it holds under an assignment exactly if
what they come to does. -/
def Relates (a b : Value (Extended F)) (r : Relation) (c : Constraint (Extended F)) : Prop :=
  ∀ v : Assignment F, c.holds v.lift = r.compare (a.amount v) (b.amount v)

/-- A number stays on the right of an expression. -/
theorem relateExpr_scalar (ht : (Tolerance.tolerance : F) < 1) (ha : a.IsOperand)
    (h : a.linear? = some e) (r : Relation) (s : Scalar (Extended F)) :
    ∃ c, relateExpr e r none (scalar s) = .ok c ∧ c.name = none ∧ a.Relates (scalar s) r c := by
  obtain ⟨hfinite, -, heval⟩ := ha.linear ht h
  refine ⟨⟨e, r, (scalar s).amount 0, none⟩, ?_, rfl, fun v => ?_⟩
  · rw [relateExpr, toNumber_eq_amount s 0]
    rfl
  · have hs : (scalar s).amount 0 = (scalar s).amount v := by cases s <;> rfl
    rw [Constraint.holds, LinearExpr.value_eq_eval, heval, hs, amount_of_linear h]

/-- Another expression moves to the left. -/
theorem relateExpr_linear (ht : (Tolerance.tolerance : F) < 1) (ha : a.IsOperand)
    (hb : b.IsOperand) (he : a.linear? = some e) (hf : b.linear? = some f) (r : Relation)
    (h : ∀ i, Retained (slope (fun v => a.eval v - b.eval v) i)) :
    ∃ c, relateExpr e r none b = .ok c ∧ c.name = none ∧ a.Relates b r c := by
  obtain ⟨hfe, hover, hea⟩ := ha.linear ht he
  obtain ⟨hff, -, hfb⟩ := hb.linear ht hf
  have hc : relateExpr e r none b = .ok ⟨e.minus f, r, zero, none⟩ := by
    obtain ⟨w, rfl, rfl⟩ | rfl := linear_cases hf <;> rfl
  have hsub : ∀ x y : F, x - y = x + -1 * y := fun x y => by ring
  simp only [hsub, ← hea, ← hfb] at h
  have heval : ∀ v, (e.minus f).eval v = a.eval v - b.eval v := by
    intro v
    rw [hsub, ← hea, ← hfb]
    exact LinearExpr.eval_combine_of_slope hover h v
  refine ⟨_, hc, rfl, fun v => ?_⟩
  rw [Constraint.holds, LinearExpr.value_eq_eval, heval, Relation.compare_sub, amount_of_linear he,
    amount_of_linear hf]

/-- **What is written is what is said.** -/
theorem compare?_relates (ht : (Tolerance.tolerance : F) < 1) (ha : a.IsOperand) (hb : b.IsOperand)
    (hab : ¬(a.IsScalar ∧ b.IsScalar)) (r : Relation)
    (h : ∀ i, Retained (slope (fun v => a.eval v - b.eval v) i)) :
    ∃ c, compare? r a b = some (.ok c) ∧ c.name = none ∧ a.Relates b r c := by
  rw [compare?]
  cases he : a.linear? with
  | some e =>
    have hright : ∃ c, relateExpr e r none b = .ok c ∧ c.name = none ∧ a.Relates b r c := by
      cases b with
      | scalar s => exact relateExpr_scalar ht ha he r s
      | var w => exact relateExpr_linear ht ha hb he rfl r h
      | expr f => exact relateExpr_linear ht ha hb he rfl r h
      | _ => exact hb.elim
    obtain ⟨c, hc, hname, hrelates⟩ := hright
    exact ⟨c, congrArg some hc, hname, hrelates⟩
  | none =>
    cases a with
    | scalar s =>
      -- The operand on the right is asked instead, with the comparison turned around.
      have hleft : ∃ f, b.linear? = some f := by
        cases b with
        | scalar t => exact absurd ⟨trivial, trivial⟩ hab
        | var w => exact ⟨_, rfl⟩
        | expr f => exact ⟨_, rfl⟩
        | _ => exact hb.elim
      obtain ⟨f, hf⟩ := hleft
      obtain ⟨c, hc, hname, hrelates⟩ := relateExpr_scalar ht hb hf r.flip s
      refine ⟨c, ?_, hname, fun v => (hrelates v).trans (Relation.compare_flip r _ _)⟩
      rw [hf]
      exact congrArg some hc
    | var w => cases he
    | expr f => cases he
    | _ => exact ha.elim

end Value

/-! ## Registered constraints -/

namespace Build

variable {K : Type} [Arithmetic K]

/-- A constraint that a model has taken in differs from the one that was handed over in its name
only. -/
theorem perform_addConstraint_eq_ok {c : Constraint K} {i : Option ConstraintId} {name answer : Value K}
    {m n : Model K}
    (h : exec (perform (.addConstraint (.constraint c i) name)) m = (.ok answer, n)) :
    ∃ d j, answer = .constraint d j ∧ n.constraints = m.constraints ++ [d] ∧
      d = c.withName d.name := by
  obtain ⟨d, k, hd, hlast⟩ := exec_bind_eq_ok.1 h
  obtain ⟨l, hs, -, hname, rfl, -⟩ := (register_taken c name m).of_ok hd
  cases hlast
  refine ⟨d, _, rfl, ?_, hname⟩
  rw [← hs.constraints_eq]
  rfl

/-- A nameless constraint is always taken in. -/
theorem perform_addConstraint_succeeds {c : Constraint K} (hc : c.name = .none)
    (i : Option ConstraintId) (m : Model K) :
    ∃ answer n, exec (perform (.addConstraint (.constraint c i) .none)) m = (.ok answer, n) := by
  obtain ⟨answer, n, h, -⟩ := (register_spec hc m).bind (P := fun _ _ => True) fun d k _ =>
    (lastRow_spec d k).mono fun _ _ _ => trivial
  exact ⟨answer, n, h⟩

end Build

namespace Value

variable {a b : Value (Extended F)} [IsStrictOrderedRing F]

/-- **Comparisons say what is written.**  Two operands, not both numbers, build a constraint that
holds under an assignment exactly if the first one compares with the second one as written, whichever
of them is a number.  Each model takes this constraint in, and what it has taken in, under whatever
name, says the same. -/
theorem compare_spec (ht : (Tolerance.tolerance : F) < 1) (ha : a.IsOperand) (hb : b.IsOperand)
    (hab : ¬(a.IsScalar ∧ b.IsScalar)) (r : Relation)
    (h : ∀ i, Retained (slope (fun v => a.eval v - b.eval v) i)) :
    ∃ c, compare r a b = .ok (made c) ∧
      (∀ v : Assignment F, c.holds v.lift = r.compare (a.amount v) (b.amount v)) ∧
      ∀ m : Model (Extended F),
        (∃ answer n, Build.exec (Build.perform (.addConstraint (made c) none)) m =
          (.ok answer, n)) ∧
        ∀ name answer n, Build.exec (Build.perform (.addConstraint (made c) name)) m =
          (.ok answer, n) → ∃ d i, answer = .constraint d i ∧ n.constraints = m.constraints ++ [d] ∧
            ∀ v : Assignment F, d.holds v.lift = r.compare (a.amount v) (b.amount v) := by
  obtain ⟨c, hc, hname, hrelates⟩ := compare?_relates ht ha hb hab r h
  refine ⟨c, ?_, hrelates, fun m => ⟨Build.perform_addConstraint_succeeds hname _ m, ?_⟩⟩
  · unfold compare
    rw [hc]
    rfl
  · intro name answer n hexec
    obtain ⟨d, i, hanswer, hconstraints, hd⟩ := Build.perform_addConstraint_eq_ok hexec
    refine ⟨d, i, hanswer, hconstraints, fun v => ?_⟩
    rw [hd]
    exact hrelates v

section Rational

local instance comparisonTolerance : Extended.Tolerance ℚ := .standard

/-- A number of workers. -/
def workers : Variable (Extended ℚ) :=
  ⟨⟨0, 0⟩, .text "workers", .integer, .finite 0, .infinite false⟩

/-- A number of hours. -/
def hours : Variable (Extended ℚ) :=
  ⟨⟨0, 1⟩, .text "hours", .continuous, .finite 0, .finite 8⟩

/-- Two times the workers plus three times the hours plus one. -/
def demand : LinearExpr (Extended ℚ) := ⟨[(workers, .finite 2), (hours, .finite 3)], .finite 1⟩

/-- Three times the hours minus the workers plus four. -/
def supply : LinearExpr (Extended ℚ) := ⟨[(hours, .finite 3), (workers, .finite (-1))], .finite 4⟩

theorem isOperand_demand : (expr demand).IsOperand := by
  refine ⟨⟨?_, 1, rfl⟩, by decide, fun _ _ => trivial, ?_⟩
  · exact List.forall_mem_cons.2 ⟨⟨2, rfl⟩, List.forall_mem_singleton.2 ⟨3, rfl⟩⟩
  · exact List.forall_mem_cons.2 ⟨by decide +kernel, List.forall_mem_singleton.2 (by decide +kernel)⟩

theorem isOperand_supply : (expr supply).IsOperand := by
  refine ⟨⟨?_, 4, rfl⟩, by decide, fun _ _ => trivial, ?_⟩
  · exact List.forall_mem_cons.2 ⟨⟨3, rfl⟩, List.forall_mem_singleton.2 ⟨-1, rfl⟩⟩
  · exact List.forall_mem_cons.2 ⟨by decide +kernel, List.forall_mem_singleton.2 (by decide +kernel)⟩

/-- The hours cancel when one expression is compared with the other, and a number on the left is a
lower bound of the expression on its right. -/
theorem compare_spec_cancelled :
    (∃ c, compare .le (.expr demand) (.expr supply) = .ok (made c) ∧
      ∀ v : Assignment ℚ, c.holds v.lift = decide (v workers.id ≤ 1)) ∧
    ∃ c, compare .le (.int 5) (.expr supply) = .ok (made c) ∧
      ∀ v : Assignment ℚ, c.holds v.lift = decide (5 ≤ (expr supply).eval v) := by
  have htolerance : (Tolerance.tolerance : ℚ) = 1 / 10 ^ 15 := rfl
  have hdemand : ∀ v, (expr demand).eval v = 1 + (2 * v workers.id + 3 * v hours.id) := by
    intro v
    simp [Value.eval, LinearExpr.eval, demand]
  have hsupply : ∀ v, (expr supply).eval v = 4 + (3 * v hours.id + -1 * v workers.id) := by
    intro v
    simp [Value.eval, LinearExpr.eval, supply]
  have hfive : ∀ v, (int 5 : Value (Extended ℚ)).eval v = 5 := fun v => rfl
  constructor
  · obtain ⟨c, hc, hholds, -⟩ := compare_spec standard_lt_one isOperand_demand isOperand_supply
      (fun h => h.1) .le fun i => by
        simp only [hdemand, hsupply, slope, Pi.single_apply, Retained, htolerance, Pi.zero_apply]
        by_cases hx : workers.id = i <;> by_cases hy : hours.id = i <;> norm_num [hx, hy]
    refine ⟨c, hc, fun v => (hholds v).trans ?_⟩
    change decide ((expr demand).eval v ≤ (expr supply).eval v) = _
    rw [hdemand, hsupply]
    exact decide_eq_decide.2 ⟨fun h => by linarith, fun h => by linarith⟩
  · obtain ⟨c, hc, hholds, -⟩ := compare_spec standard_lt_one (a := .int 5) trivial isOperand_supply
      (fun h => h.2) .le fun i => by
        simp only [hfive, hsupply, slope, Pi.single_apply, Retained, htolerance, Pi.zero_apply]
        by_cases hx : workers.id = i <;> by_cases hy : hours.id = i <;> norm_num [hx, hy]
    exact ⟨c, hc, hholds⟩

end Rational

end Value

end MixedInteger
