import MixedInteger.Decimal.Rounding
import MixedInteger.Proofs.Number.Rounding

/-!
# The nearest double

A rational number is rounded to a multiple of a power of two that depends on its size, a half going
to the even multiple.  Out of range it becomes an infinity.  The larger of two numbers may be
rounded to a coarser multiple, but the power of two between the two is a multiple of both kinds, so
that the order is kept.

## What is here

* `roundEven` — the nearest integer, a half going to the even one.
* `gridExponent`, `nearestMagnitude` — the multiples that a number is rounded to.
* `nearest` — the double that is nearest to a rational number.
* `nearest_mono` — **rounding keeps the order**.
-/

set_option autoImplicit false

namespace MixedInteger

/-! ## Integers -/

/-- The integer nearest to a rational number that is not negative; a half goes to the even one. -/
def roundEven (q : ℚ) : ℕ :=
  let n := ⌊q⌋₊
  if 2 * (q - n) < 1 then n
  else if 1 < 2 * (q - n) then n + 1
  else if n % 2 = 0 then n else n + 1

theorem floor_le_roundEven (q : ℚ) : ⌊q⌋₊ ≤ roundEven q := by
  rw [roundEven]
  split_ifs <;> omega

theorem roundEven_le_floor_add_one (q : ℚ) : roundEven q ≤ ⌊q⌋₊ + 1 := by
  rw [roundEven]
  split_ifs <;> omega

theorem roundEven_natCast (n : ℕ) : roundEven n = n := by
  simp [roundEven]

theorem roundEven_mono {p q : ℚ} (h : p ≤ q) : roundEven p ≤ roundEven q := by
  rcases (Nat.floor_mono h).eq_or_lt with heq | hlt
  · rw [roundEven, roundEven, ← heq]
    split_ifs <;> first | omega | linarith
  · have hp := roundEven_le_floor_add_one p
    have hq := floor_le_roundEven q
    omega

/-- A quotient of natural numbers is rounded like the number that it is. -/
theorem roundDiv_eq_roundEven (m : ℕ) {k : ℕ} (hk : 0 < k) : roundDiv m k = roundEven (m / k) := by
  have hk' : (0 : ℚ) < k := Nat.cast_pos.2 hk
  have hfract : 2 * ((m : ℚ) / k - (m / k : ℕ)) = (2 * (m % k) : ℕ) / k := by
    have hdiv : (m : ℚ) = k * (m / k : ℕ) + (m % k : ℕ) := by
      exact_mod_cast (Nat.div_add_mod m k).symm
    rw [hdiv]
    field_simp
    push_cast
    ring
  rw [roundEven, Nat.floor_div_natCast, Nat.floor_natCast, roundDiv]
  simp only [hfract, div_lt_one hk', one_lt_div hk', Nat.cast_lt]

/-! ## Multiples of a power of two -/

/-- The exponent of the power of two of which a number is rounded to a multiple: fifty-two below the
first digit, but not below the smallest one. -/
def gridExponent (q : ℚ) : ℤ := max (Int.log 2 q - 52) (-1074)

/-- What a number that is not negative is rounded to, if it is in range. -/
def nearestMagnitude (q : ℚ) : ℚ := roundEven (q / 2 ^ gridExponent q) * 2 ^ gridExponent q

theorem nearestMagnitude_zero : nearestMagnitude 0 = 0 := by
  simp [nearestMagnitude, roundEven]

theorem nearestMagnitude_nonneg (q : ℚ) : 0 ≤ nearestMagnitude q := by
  rw [nearestMagnitude]
  positivity

/-- A greater power of two is a multiple of a smaller one. -/
theorem zpow_eq_mul_zpow {g k : ℤ} (h : g ≤ k) :
    (2 : ℚ) ^ k = (2 ^ (k - g).toNat : ℕ) * 2 ^ g := by
  push_cast
  rw [← zpow_natCast, ← zpow_add₀ two_ne_zero, Int.toNat_of_nonneg (by omega), Int.sub_add_cancel]

/-- A number is not rounded up past a power of two that is a multiple. -/
theorem nearestMagnitude_le_zpow {q : ℚ} {k : ℤ} (hk : gridExponent q ≤ k) (hq : q ≤ 2 ^ k) :
    nearestMagnitude q ≤ 2 ^ k := by
  have hpos : (0 : ℚ) < 2 ^ gridExponent q := by positivity
  rw [zpow_eq_mul_zpow hk] at hq ⊢
  have hround := roundEven_mono ((div_le_iff₀ hpos).2 hq)
  rw [roundEven_natCast] at hround
  exact mul_le_mul_of_nonneg_right (Nat.cast_le.2 hround) hpos.le

/-- A number is not rounded down past a power of two that is a multiple. -/
theorem zpow_le_nearestMagnitude {q : ℚ} {k : ℤ} (hk : gridExponent q ≤ k) (hq : 2 ^ k ≤ q) :
    2 ^ k ≤ nearestMagnitude q := by
  have hpos : (0 : ℚ) < 2 ^ gridExponent q := by positivity
  rw [zpow_eq_mul_zpow hk] at hq ⊢
  have hround := roundEven_mono ((le_div_iff₀ hpos).2 hq)
  rw [roundEven_natCast] at hround
  exact mul_le_mul_of_nonneg_right (Nat.cast_le.2 hround) hpos.le

theorem nearestMagnitude_mono {p q : ℚ} (hp : 0 ≤ p) (h : p ≤ q) :
    nearestMagnitude p ≤ nearestMagnitude q := by
  rcases hp.eq_or_lt with rfl | hp
  · rw [nearestMagnitude_zero]
    exact nearestMagnitude_nonneg q
  have hlog : Int.log 2 p ≤ Int.log 2 q := Int.log_mono_right hp h
  have hgrid : gridExponent p ≤ gridExponent q := max_le_max_right _ (by omega)
  rcases hgrid.eq_or_lt with heq | hlt
  · rw [nearestMagnitude, nearestMagnitude, ← heq]
    have hpos : (0 : ℚ) < 2 ^ gridExponent p := by positivity
    exact mul_le_mul_of_nonneg_right (Nat.cast_le.2 (roundEven_mono (by gcongr))) hpos.le
  · -- the first digit of the larger number is a multiple of both powers of two, and between the two
    have hcoarse : gridExponent q = Int.log 2 q - 52 := by
      rw [gridExponent] at hlt ⊢
      rw [gridExponent] at hlt
      omega
    have hfine : Int.log 2 p - 52 ≤ gridExponent p := le_max_left _ _
    have hbelow : p ≤ 2 ^ Int.log 2 q := by
      refine (Int.lt_zpow_succ_log_self one_lt_two p).le.trans ?_
      exact zpow_le_zpow_right₀ one_le_two (by omega)
    have habove : 2 ^ Int.log 2 q ≤ q := Int.zpow_log_le_self one_lt_two (hp.trans_le h)
    exact (nearestMagnitude_le_zpow (by omega) hbelow).trans
      (zpow_le_nearestMagnitude (by omega) habove)

/-! ## Doubles -/

/-- A number that is not negative, or infinity if it is out of range. -/
def inRange (x : ℚ) : Extended ℚ := if x < 2 ^ 1024 then .finite x else .infinite false

/-- The double that is nearest to a rational number. -/
def nearest (q : ℚ) : Extended ℚ :=
  if q < 0 then -inRange (nearestMagnitude (-q)) else inRange (nearestMagnitude q)

theorem inRange_mono {x y : ℚ} (h : x ≤ y) : (inRange x).le (inRange y) = true := by
  rw [inRange, inRange]
  split_ifs with hx hy hy
  · exact decide_eq_true h
  · rfl
  · exact absurd (h.trans_lt hy) hx
  · rfl

/-- **Rounding keeps the order.** -/
theorem nearest_mono {p q : ℚ} (h : p ≤ q) : (nearest p).le (nearest q) = true := by
  have hnonneg : ∀ {x : ℚ},
      0 ≤ x → (Extended.finite 0).le (inRange (nearestMagnitude x)) = true := by
    intro x hx
    have hzero : inRange 0 = .finite 0 := if_pos (by positivity)
    rw [← hzero, ← nearestMagnitude_zero]
    exact inRange_mono (nearestMagnitude_mono le_rfl hx)
  rw [nearest, nearest]
  split_ifs with hp hq hq
  · rw [Extended.neg_le_neg_eq]
    exact inRange_mono (nearestMagnitude_mono (by linarith) (by linarith))
  · have hneg := hnonneg (neg_nonneg.2 hp.le)
    rw [← Extended.neg_le_neg_eq, Extended.neg_finite, neg_zero] at hneg
    exact Extended.le_trans hneg (hnonneg (not_lt.1 hq))
  · linarith
  · exact inRange_mono (nearestMagnitude_mono (by linarith) h)

end MixedInteger
