import MixedInteger.Proofs.Number.Extended
import MixedInteger.Model.Basic

/-!
# What a model says

An assignment gives an exact number to each variable.  A model allows some assignments and forbids
others: the variables have bounds and may have to be integers, and the rows have to hold.

## What is here

* `Assignment`, `Assignment.lift` — numbers by variable.
* `Variable.Allows`, `Model.Feasible` — what is allowed.
* `LinearExpr.value_eq_sum` — the value of an expression as a sum.
* `Extended.le_add`, `Extended.add_le` — a number moves from one side of a comparison to the other.
-/

set_option autoImplicit false

namespace MixedInteger

open Arithmetic

/-- A number for each variable. -/
abbrev Assignment (F : Type) := VariableId → F

/-- The number of a variable, among the numbers of a model. -/
def Assignment.lift {F : Type} (a : Assignment F) (v : Variable (Extended F)) : Extended F :=
  .finite (a v.id)

variable {F : Type} [Field F] [LinearOrder F] [FloorRing F] [ToString F] [Extended.Tolerance F]

/-- A variable may take a number: it is between the bounds, and an integer where it has to be. -/
structure Variable.Allows (v : Variable (Extended F)) (x : F) : Prop where
  lower : le v.lower (.finite x) = true
  upper : le (.finite x) v.upper = true
  integral : v.isInteger = true → ∃ n : Int, x = n

/-- All variables may take their numbers, and all rows hold. -/
structure Model.Feasible (m : Model (Extended F)) (a : Assignment F) : Prop where
  vars : ∀ v ∈ m.vars, v.Allows (a v.id)
  rows : ∀ c ∈ m.constraints, c.holds a.lift = true

/-! ## Values -/

omit [LinearOrder F] [FloorRing F] [ToString F] [Extended.Tolerance F] in
theorem foldl_add_eq_sum {ι : Type} (f : ι → Extended F) (l : List ι) (x : Extended F) :
    l.foldl (fun total i => total + f i) x = x + (l.map f).sum := by
  induction l generalizing x with
  | nil => rw [List.foldl_nil, List.map_nil, List.sum_nil, add_zero]
  | cons i l ih => rw [List.foldl_cons, ih, List.map_cons, List.sum_cons, add_assoc]

/-- The value of an expression is its constant plus the sum of its terms. -/
theorem LinearExpr.value_eq_sum (e : LinearExpr (Extended F))
    (a : Variable (Extended F) → Extended F) :
    e.value a = e.constant + (e.terms.map fun t => t.2 * a t.1).sum :=
  foldl_add_eq_sum _ _ _

/-! ## Comparisons -/

namespace Extended

/-- Equality is being at most each other. -/
theorem eq_eq_le (x y : Extended F) :
    Arithmetic.eq x y = (Arithmetic.le y x && Arithmetic.le x y) := by
  rcases x with _ | m | x <;> rcases y with _ | n | y
  · rfl
  · rfl
  · rfl
  · cases m <;> rfl
  · cases m <;> cases n <;> rfl
  · cases m <;> rfl
  · rfl
  · cases n <;> rfl
  · rw [eq_finite, le_finite, le_finite, ← Bool.decide_and]
    exact decide_eq_decide.2 (le_antisymm_iff.trans and_comm)

variable [IsStrictOrderedRing F]

/-- **What is not infinite moves from one side of a comparison to the other.** -/
theorem le_add {c : Extended F} (hc : ∀ n, c ≠ infinite n) (s r : Extended F) :
    Arithmetic.le (c + s) r = Arithmetic.le s (r - c) := by
  rcases c with _ | n | x
  · cases s <;> cases r <;> rfl
  · exact absurd rfl (hc n)
  · rcases s with _ | n | y
    · rfl
    · cases n <;> cases r <;> rfl
    · rcases r with _ | k | z
      · rfl
      · cases k <;> rfl
      · rw [finite_add, finite_sub, le_finite, le_finite]
        exact decide_eq_decide.2 le_sub_iff_add_le'.symm

theorem add_le {c : Extended F} (hc : ∀ n, c ≠ infinite n) (s r : Extended F) :
    Arithmetic.le r (c + s) = Arithmetic.le (r - c) s := by
  rcases c with _ | n | x
  · cases s <;> cases r <;> rfl
  · exact absurd rfl (hc n)
  · rcases s with _ | n | y
    · cases r <;> rfl
    · cases n <;> cases r <;> rfl
    · rcases r with _ | k | z
      · rfl
      · cases k <;> rfl
      · rw [finite_add, finite_sub, le_finite, le_finite]
        exact decide_eq_decide.2 sub_le_iff_le_add'.symm

end Extended

end MixedInteger
