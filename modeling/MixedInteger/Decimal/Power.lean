/-!
# Powers of two and of ten

The two bases of the exact arithmetic on floating-point numbers and decimals.

## What is here

* `twoPow`, `tenPow`: the powers as natural numbers.
* `twoPow_pos`, `tenPow_pos`: they are never zero.
-/

set_option autoImplicit false

namespace MixedInteger

/-- Two to the power of `n`. -/
def twoPow (n : Nat) : Nat := Nat.pow 2 n

/-- Ten to the power of `n`. -/
def tenPow (n : Nat) : Nat := Nat.pow 10 n

theorem twoPow_succ (n : Nat) : twoPow (n + 1) = twoPow n * 2 := rfl

theorem tenPow_succ (n : Nat) : tenPow (n + 1) = tenPow n * 10 := rfl

theorem twoPow_pos (n : Nat) : 0 < twoPow n := by
  induction n with
  | zero => exact Nat.one_pos
  | succ n ih =>
    rw [twoPow_succ]
    exact Nat.mul_pos ih Nat.two_pos

theorem tenPow_pos (n : Nat) : 0 < tenPow n := by
  induction n with
  | zero => exact Nat.one_pos
  | succ n ih =>
    rw [tenPow_succ]
    exact Nat.mul_pos ih (by decide)

end MixedInteger
