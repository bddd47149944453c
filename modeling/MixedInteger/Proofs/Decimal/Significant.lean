import MixedInteger.Proofs.Decimal.Reading
import MixedInteger.Proofs.Number.Nearest

/-!
# Rounding to significant digits

A number is rounded to a multiple of the power of ten at which its last significant digit stands.
Numbers with as many digits may be finer than that, but then they lie below the first digit, which
is a multiple itself.  So the multiple that is nearest is the nearest of all numbers with as many
digits, wherever their last digit stands.

## What is here

* `Decimal.HasPlaces` — numbers that can be written with a given number of significant digits.
* `Decimal.IsNearest` — a number is the nearest of these, and what follows from that: it keeps the
  sign, the order and the numbers that need no rounding, and only zero becomes zero.
* `leadingExponent_eq_log` — where the first digit stands.
* `Decimal.isNearest_rounded`, `Decimal.nearestValue_mono` — **rounding to significant digits gives
  the nearest number**, and keeps the order.
* `Decimal.value_significant_eq` — the rounding of quotients is this one.
-/

set_option autoImplicit false

namespace MixedInteger

/-! ## The nearest integer -/

/-- On which side of the middle between two integers a number lies, and which of them it is rounded
to. -/
theorem roundEven_cases {x : ℚ} (hx : 0 ≤ x) : ∃ n : ℕ, (n : ℚ) ≤ x ∧ x < n + 1 ∧
    ((roundEven x = n ∧ 2 * (x - n) ≤ 1 ∧ (2 * (x - n) = 1 → Even n)) ∨
      (roundEven x = n + 1 ∧ 1 ≤ 2 * (x - n) ∧ (2 * (x - n) = 1 → Even (n + 1)))) := by
  refine ⟨⌊x⌋₊, Nat.floor_le hx, Nat.lt_floor_add_one x, ?_⟩
  rw [roundEven]
  split_ifs with hbelow habove heven
  · exact .inl ⟨rfl, hbelow.le, fun h => absurd h hbelow.ne⟩
  · exact .inr ⟨rfl, habove.le, fun h => absurd h habove.ne'⟩
  · exact .inl ⟨rfl, not_lt.1 habove, fun _ => Nat.even_iff.2 heven⟩
  · exact .inr ⟨rfl, not_lt.1 hbelow, fun _ =>
      (Nat.not_even_iff_odd.1 (mt Nat.even_iff.1 heven)).add_one⟩

/-- No integer is nearer than the one that a number is rounded to, and if another one is as near,
the number is rounded to an even one. -/
theorem roundEven_nearest {x : ℚ} (hx : 0 ≤ x) (k : ℤ) : |x - roundEven x| ≤ |x - k| ∧
    (|x - k| = |x - roundEven x| → k ≠ roundEven x → Even (roundEven x)) := by
  obtain ⟨n, hle, hlt, hround⟩ := roundEven_cases hx
  have hside : ((k : ℚ) ≤ n ∧ |x - k| = x - k) ∨ ((n : ℚ) + 1 ≤ k ∧ |x - k| = k - x) := by
    rcases le_or_gt k n with hk | hk
    · have hk' : (k : ℚ) ≤ n := by exact_mod_cast hk
      exact .inl ⟨hk', abs_of_nonneg (by linarith)⟩
    · have hk' : (n : ℚ) + 1 ≤ k := by exact_mod_cast hk
      exact .inr ⟨hk', by rw [abs_sub_comm, abs_of_nonneg (by linarith)]⟩
  rcases hround with ⟨hn, hhalf, heven⟩ | ⟨hn, hhalf, heven⟩
  · rw [hn, abs_of_nonneg (sub_nonneg.2 hle)]
    rcases hside with ⟨hk, habs⟩ | ⟨hk, habs⟩ <;> rw [habs]
    · refine ⟨by linarith, fun heq hne => absurd ?_ hne⟩
      have hsame : (k : ℚ) = n := by linarith
      exact_mod_cast hsame
    · exact ⟨by linarith, fun heq _ => heven (by linarith)⟩
  · have hup : |x - (n + 1 : ℕ)| = n + 1 - x := by
      rw [abs_sub_comm, Nat.cast_add_one, abs_of_nonneg (by linarith)]
    rw [hn, hup]
    rcases hside with ⟨hk, habs⟩ | ⟨hk, habs⟩ <;> rw [habs]
    · exact ⟨by linarith, fun heq _ => heven (by linarith)⟩
    · refine ⟨by linarith, fun heq hne => absurd ?_ hne⟩
      have hsame : (k : ℚ) = n + 1 := by linarith
      exact_mod_cast hsame

/-! ## Where the first digit stands -/

theorem digitCount_le_iff {n k : ℕ} : digitCount n ≤ k ↔ n < 10 ^ k := by
  rw [digitCount]
  split
  next hn => simp [hn]
  next hn =>
    rcases Nat.eq_zero_or_pos k with rfl | hk
    · have hlen := Nat.length_toDigits_pos (b := 10) (n := n)
      omega
    · exact Nat.length_toDigits_le_iff (by decide) hk

theorem digitCount_eq_log {n : ℕ} (hn : n ≠ 0) : digitCount n = Nat.log 10 n + 1 :=
  eq_of_forall_ge_iff fun k => by
    rw [digitCount_le_iff, ← Nat.log_lt_iff_lt_pow (by decide) hn, Nat.succ_le_iff]

theorem digitCount_sub_one (n : ℕ) : digitCount (n - 1) = Nat.clog 10 n :=
  eq_of_forall_ge_iff fun k => by
    have hpos : 0 < 10 ^ k := Nat.pow_pos (by decide)
    rw [digitCount_le_iff, Nat.clog_le_iff_le_pow (by decide)]
    omega

/-- The least natural number that is not below a quotient. -/
theorem ceil_natCast_div (m : ℕ) {k : ℕ} (hk : 0 < k) : ⌈(m / k : ℚ)⌉₊ = (m + k - 1) / k := by
  rw [← Nat.ceilDiv_eq_add_pred_div]
  refine eq_of_forall_ge_iff fun n => ?_
  rw [Nat.ceil_le, ceilDiv_le_iff_le_mul hk, div_le_iff₀' (Nat.cast_pos.2 hk)]
  exact_mod_cast Iff.rfl

/-- **The first digit of a quotient stands at the logarithm.** -/
theorem leadingExponent_eq_log {num den : ℕ} (hnum : 0 < num) (hden : 0 < den) :
    leadingExponent num den = Int.log 10 (num / den : ℚ) := by
  have hden' : (0 : ℚ) < den := Nat.cast_pos.2 hden
  rw [leadingExponent]
  split
  next h =>
    have hone : (1 : ℚ) ≤ num / den := (one_le_div hden').2 (Nat.cast_le.2 h)
    rw [Int.log_of_one_le_right _ hone, Nat.floor_div_natCast, Nat.floor_natCast,
      digitCount_eq_log (Nat.div_pos h hden).ne', Nat.cast_add_one, Int.add_sub_cancel]
  next h =>
    have hone : (num / den : ℚ) ≤ 1 := (div_le_one hden').2 (Nat.cast_le.2 (not_le.1 h).le)
    rw [Int.log_of_right_le_one _ hone, inv_div, ceil_natCast_div den hnum, digitCount_sub_one]

namespace Decimal

/-! ## Numbers with few digits -/

/-- A number that can be written with at most `places` significant digits. -/
def HasPlaces (places : ℕ) (q : ℚ) : Prop := ∃ c e : ℤ, |c| < 10 ^ places ∧ q = c * 10 ^ e

theorem HasPlaces.neg {places : ℕ} {q : ℚ} (h : HasPlaces places q) : HasPlaces places (-q) := by
  obtain ⟨c, e, hc, rfl⟩ := h
  exact ⟨-c, e, by rwa [abs_neg], by push_cast; ring⟩

theorem hasPlaces_zpow {places : ℕ} (hplaces : 0 < places) (e : ℤ) :
    HasPlaces places (10 ^ e : ℚ) :=
  ⟨1, e, by rw [abs_one]; exact one_lt_pow₀ (by decide) hplaces.ne', by simp⟩

/-- A number is rounded to the nearest one with `places` significant digits.  If another one is as
near, the last of these digits is even. -/
structure IsNearest (places : ℕ) (x p : ℚ) : Prop where
  hasPlaces : HasPlaces places p
  nearest : ∀ r, HasPlaces places r → |x - p| ≤ |x - r|
  even : ∀ r, HasPlaces places r → |x - r| = |x - p| → r ≠ p →
    ∃ c e : ℤ, Even c ∧ 10 ^ (places - 1) ≤ |c| ∧ |c| < 10 ^ places ∧ p = c * 10 ^ e

namespace IsNearest

variable {places : ℕ} {x y p q : ℚ}

theorem zero (places : ℕ) : IsNearest places 0 0 := by
  refine ⟨⟨0, 0, by simp, by simp⟩, fun r _ => by simp, fun r _ hr hne => absurd ?_ hne⟩
  simpa using hr

/-- The sign does not matter. -/
theorem neg (h : IsNearest places x p) : IsNearest places (-x) (-p) := by
  have habs : ∀ r : ℚ, |-x - r| = |x - -r| := fun r => by
    rw [← abs_neg]
    congr 1
    ring
  refine ⟨h.hasPlaces.neg, fun r hr => ?_, fun r hr heq hne => ?_⟩
  · rw [habs, habs, neg_neg]
    exact h.nearest _ hr.neg
  · rw [habs, habs, neg_neg] at heq
    obtain ⟨c, e, hc, hge, hlt, rfl⟩ := h.even _ hr.neg heq fun hp => hne (by rw [← hp, neg_neg])
    refine ⟨-c, e, hc.neg, ?_, ?_, ?_⟩
    · rwa [abs_neg]
    · rwa [abs_neg]
    · push_cast
      ring

/-- **A number with few digits is not changed.** -/
theorem eq_self (h : IsNearest places x p) (hx : HasPlaces places x) : p = x := by
  have hle := h.nearest x hx
  rw [sub_self, abs_zero] at hle
  exact (sub_eq_zero.1 (abs_eq_zero.1 (hle.antisymm (abs_nonneg _)))).symm

/-- **Rounding keeps the order.** -/
theorem le_of_lt (hp : IsNearest places x p) (hq : IsNearest places y q) (hxy : x < y) : p ≤ q := by
  by_contra hlt
  have hx := sq_le_sq.2 (hp.nearest q hq.hasPlaces)
  have hy := sq_le_sq.2 (hq.nearest p hp.hasPlaces)
  -- of the middle between `q` and `p`, `x` would be above and `y` below
  have hmiddle : p + q ≤ 2 * x := by nlinarith
  have hmiddle' : 2 * y ≤ p + q := by nlinarith
  linarith

/-- **Only zero is rounded to zero.** -/
theorem eq_zero_iff (hplaces : 0 < places) (h : IsNearest places x p) : p = 0 ↔ x = 0 := by
  have hpos : ∀ {x : ℚ}, 0 < x → ¬IsNearest places x 0 := by
    intro x hx h
    have hlog := Int.zpow_log_le_self (b := 10) (by decide) hx
    have hten : (0 : ℚ) < (10 : ℕ) ^ Int.log 10 x := by positivity
    have hle := h.nearest _ (hasPlaces_zpow hplaces (Int.log 10 x))
    rw [sub_zero, abs_of_pos hx] at hle
    rw [Nat.cast_ofNat] at hlog hten
    rw [abs_of_nonneg (sub_nonneg.2 hlog)] at hle
    linarith
  constructor
  · rintro rfl
    rcases lt_trichotomy x 0 with hx | hx | hx
    · have hneg := h.neg
      rw [neg_zero] at hneg
      exact absurd hneg (hpos (neg_pos.2 hx))
    · exact hx
    · exact absurd h (hpos hx)
  · rintro rfl
    exact h.eq_self ⟨0, 0, by simp, by simp⟩

end IsNearest

/-! ## The nearest multiple -/

section Rounded

variable {places : ℕ} {x : ℚ}

/-- The exponent of ten of the last of `places` significant digits. -/
def lastExponent (places : ℕ) (x : ℚ) : ℤ := Int.log 10 x - (places - 1)

/-- A positive number rounded to the nearest multiple of the power of ten at which the last of
`places` significant digits stands. -/
def rounded (places : ℕ) (x : ℚ) : ℚ :=
  roundEven (x / 10 ^ lastExponent places x) * 10 ^ lastExponent places x

theorem pow_mul_zpow_lastExponent (hplaces : 0 < places) (k : ℕ) :
    (10 : ℚ) ^ (places - 1 + k) * 10 ^ lastExponent places x = 10 ^ (Int.log 10 x + k) := by
  rw [← zpow_natCast, ← zpow_add₀ (by norm_num), lastExponent]
  congr 1
  omega

/-- In units of the last digit, a number has `places` digits before the point. -/
theorem div_lastExponent_mem (hplaces : 0 < places) (hx : 0 < x) :
    (10 : ℚ) ^ (places - 1) ≤ x / 10 ^ lastExponent places x ∧
      x / 10 ^ lastExponent places x < 10 ^ places := by
  have hunit : (0 : ℚ) < 10 ^ lastExponent places x := by positivity
  have hfirst := pow_mul_zpow_lastExponent (x := x) hplaces 0
  have hnext := pow_mul_zpow_lastExponent (x := x) hplaces 1
  rw [Nat.add_zero, Nat.cast_zero, add_zero] at hfirst
  rw [Nat.sub_add_cancel hplaces, Nat.cast_one] at hnext
  rw [le_div_iff₀ hunit, div_lt_iff₀ hunit, hfirst, hnext]
  exact ⟨Int.zpow_log_le_self (by decide) hx, Int.lt_zpow_succ_log_self (by decide) x⟩

theorem abs_sub_mul_zpow {y z : ℚ} (e : ℤ) : |y * 10 ^ e - z * 10 ^ e| = |y - z| * 10 ^ e := by
  rw [← sub_mul, abs_mul, abs_of_pos (by positivity : (0 : ℚ) < 10 ^ e)]

/-- **A number with few digits is no nearer than some multiple** of the power of ten at which the
last digit stands. -/
theorem exists_multiple (hplaces : 0 < places) (hx : 0 < x) {r : ℚ} (hr : HasPlaces places r) :
    ∃ k : ℤ, |x - k * 10 ^ lastExponent places x| ≤ |x - r| ∧
      (|x - k * 10 ^ lastExponent places x| = |x - r| → r = k * 10 ^ lastExponent places x) := by
  obtain ⟨c, e, hc, rfl⟩ := hr
  rcases le_or_gt (lastExponent places x) e with he | he
  · refine ⟨c * 10 ^ (e - lastExponent places x).toNat, ?_⟩
    have hsame : (c : ℚ) * 10 ^ e =
        (c * 10 ^ (e - lastExponent places x).toNat : ℤ) * 10 ^ lastExponent places x := by
      push_cast
      rw [mul_assoc, ← zpow_natCast, ← zpow_add₀ (by norm_num)]
      congr 2
      omega
    rw [← hsame]
    exact ⟨le_rfl, fun _ => rfl⟩
  · -- a finer number lies below the first digit of `x`, which is a multiple
    refine ⟨10 ^ (places - 1), ?_⟩
    have hunit : (0 : ℚ) < 10 ^ lastExponent places x := by positivity
    have hfirst : (10 : ℚ) ^ (places - 1) * 10 ^ lastExponent places x ≤ x :=
      (le_div_iff₀ hunit).1 (div_lastExponent_mem hplaces hx).1
    have hbelow : (c : ℚ) * 10 ^ e < 10 ^ (places - 1) * 10 ^ lastExponent places x := by
      have hc' : (c : ℚ) < 10 ^ places := by exact_mod_cast (le_abs_self c).trans_lt hc
      have hpow : (10 : ℚ) ^ places * 10 ^ e ≤
          10 ^ (places - 1) * 10 ^ lastExponent places x := by
        rw [← zpow_natCast, ← zpow_natCast, ← zpow_add₀ (by norm_num), ← zpow_add₀ (by norm_num)]
        exact zpow_le_zpow_right₀ (by norm_num) (by omega)
      exact (mul_lt_mul_of_pos_right hc' (by positivity)).trans_le hpow
    have hlt : |x - (10 ^ (places - 1) : ℤ) * 10 ^ lastExponent places x| < |x - c * 10 ^ e| := by
      push_cast
      rw [abs_of_nonneg (sub_nonneg.2 hfirst)]
      exact (sub_lt_sub_left hbelow x).trans_le (le_abs_self _)
    exact ⟨hlt.le, fun heq => absurd heq hlt.ne⟩

/-- The multiple that a number is rounded to has as many digits, even if a digit is carried. -/
theorem exists_digits_rounded (hplaces : 2 ≤ places) (hx : 0 < x) :
    ∃ c e : ℤ, 10 ^ (places - 1) ≤ |c| ∧ |c| < 10 ^ places ∧ rounded places x = c * 10 ^ e ∧
      (Even (roundEven (x / 10 ^ lastExponent places x)) → Even c) := by
  have hmem := div_lastExponent_mem (by omega : 0 < places) hx
  obtain ⟨N, hN⟩ : ∃ N, N = roundEven (x / 10 ^ lastExponent places x) := ⟨_, rfl⟩
  have hlower : 10 ^ (places - 1) ≤ N := by
    rw [hN, ← roundEven_natCast (10 ^ (places - 1))]
    exact roundEven_mono (by exact_mod_cast hmem.1)
  have hupper : N ≤ 10 ^ places := by
    rw [hN, ← roundEven_natCast (10 ^ places)]
    exact roundEven_mono (by exact_mod_cast hmem.2.le)
  rw [rounded, ← hN]
  rcases hupper.lt_or_eq with hlt | heq
  · refine ⟨N, lastExponent places x, ?_, ?_, by push_cast; ring, fun h => by exact_mod_cast h⟩
    · rw [Nat.abs_cast]
      exact_mod_cast hlower
    · rw [Nat.abs_cast]
      exact_mod_cast hlt
  · refine ⟨10 ^ (places - 1), lastExponent places x + 1, ?_, ?_, ?_, fun _ => ?_⟩
    · exact le_abs_self _
    · rw [abs_of_pos (by positivity)]
      exact pow_lt_pow_right₀ (by decide) (by omega)
    · rw [heq, zpow_add_one₀ (by norm_num)]
      obtain ⟨k, rfl⟩ : ∃ k, places = k + 1 := ⟨places - 1, by omega⟩
      rw [Nat.add_sub_cancel]
      push_cast
      ring
    · exact (by decide : Even (10 : ℤ)).pow_of_ne_zero (by omega)

/-- **The nearest multiple is the nearest number** with as many digits. -/
theorem isNearest_rounded (hplaces : 2 ≤ places) (hx : 0 < x) :
    IsNearest places x (rounded places x) := by
  have hunit : (0 : ℚ) < 10 ^ lastExponent places x := by positivity
  have hround := roundEven_nearest (div_nonneg hx.le hunit.le)
  obtain ⟨c, e, hge, hlt, hp, heven⟩ := exists_digits_rounded hplaces hx
  -- distances in units of the last digit
  have hscale : ∀ z : ℚ, |x - z * 10 ^ lastExponent places x| =
      |x / 10 ^ lastExponent places x - z| * 10 ^ lastExponent places x := fun z => by
    rw [← abs_sub_mul_zpow, div_mul_cancel₀ x hunit.ne']
  have hnearest : ∀ k : ℤ, |x - rounded places x| ≤ |x - k * 10 ^ lastExponent places x| := by
    intro k
    rw [rounded, hscale, hscale]
    exact mul_le_mul_of_nonneg_right (hround k).1 hunit.le
  refine ⟨⟨c, e, hlt, hp⟩, fun r hr => ?_, fun r hr heq hne => ?_⟩
  · obtain ⟨k, hk, -⟩ := exists_multiple (by omega) hx hr
    exact (hnearest k).trans hk
  · obtain ⟨k, hk, hsame⟩ := exists_multiple (by omega) hx hr
    have hrk := hsame (hk.antisymm (heq.trans_le (hnearest k)))
    rw [hrk, rounded, hscale, hscale] at heq
    rw [hrk, rounded] at hne
    have hdist := mul_right_cancel₀ hunit.ne' heq
    have hother : k ≠ roundEven (x / 10 ^ lastExponent places x) := fun h =>
      hne (by rw [h, Int.cast_natCast])
    exact ⟨c, e, heven ((hround k).2 hdist hother), hge, hlt, hp⟩

theorem rounded_zero (places : ℕ) : rounded places 0 = 0 := by
  rw [rounded, zero_div, roundEven, Nat.floor_zero]
  simp

end Rounded

/-! ## Significant digits -/

/-- The nearest number with `places` significant digits; of a negative number the magnitude is
rounded. -/
def nearestValue (places : ℕ) (x : ℚ) : ℚ :=
  if x < 0 then -rounded places (-x) else rounded places x

theorem isNearest_nearestValue {places : ℕ} (hplaces : 2 ≤ places) (x : ℚ) :
    IsNearest places x (nearestValue places x) := by
  rw [nearestValue]
  split
  next hx => simpa using (isNearest_rounded hplaces (neg_pos.2 hx)).neg
  next hx =>
    rcases (not_lt.1 hx).eq_or_lt with rfl | hx
    · rw [rounded_zero]
      exact .zero places
    · exact isNearest_rounded hplaces hx

theorem nearestValue_zero (places : ℕ) : nearestValue places 0 = 0 := by
  rw [nearestValue, if_neg (lt_irrefl 0), rounded_zero]

theorem nearestValue_mono {places : ℕ} (hplaces : 2 ≤ places) {x y : ℚ} (h : x ≤ y) :
    nearestValue places x ≤ nearestValue places y := by
  rcases h.eq_or_lt with rfl | h
  · exact le_rfl
  · exact (isNearest_nearestValue hplaces x).le_of_lt (isNearest_nearestValue hplaces y) h

theorem nearestValue_nonneg {places : ℕ} (hplaces : 2 ≤ places) {x : ℚ} (h : 0 ≤ x) :
    0 ≤ nearestValue places x := by
  rw [← nearestValue_zero places]
  exact nearestValue_mono hplaces h

theorem nearestValue_nonpos {places : ℕ} (hplaces : 2 ≤ places) {x : ℚ} (h : x ≤ 0) :
    nearestValue places x ≤ 0 := by
  rw [← nearestValue_zero places]
  exact nearestValue_mono hplaces h

theorem scaledQuotient_pos {num den : ℕ} (hden : 0 < den) (shift : ℤ) :
    0 < (scaledQuotient num den shift).2 := by
  rw [scaledQuotient]
  split
  · exact hden
  · exact Nat.mul_pos hden (tenPow_pos _)

theorem scaledQuotient_eq (num den : ℕ) (shift : ℤ) :
    ((scaledQuotient num den shift).1 / (scaledQuotient num den shift).2 : ℚ) =
      num / den * 10 ^ shift := by
  rw [scaledQuotient]
  split
  next h =>
    obtain ⟨k, rfl⟩ := Int.eq_ofNat_of_zero_le h
    simp [tenPow, div_mul_eq_mul_div]
  next h =>
    obtain ⟨k, hk⟩ := Int.eq_ofNat_of_zero_le (by omega : 0 ≤ -shift)
    obtain rfl : shift = -k := by omega
    simp [tenPow, div_mul_eq_div_div, div_eq_mul_inv _ ((10 : ℚ) ^ k)]

/-- **A quotient is rounded like the number that it is.** -/
theorem value_significant_eq {places num den : ℕ} (hplaces : 0 < places) (hnum : 0 < num)
    (hden : 0 < den) : (significant places num den).value = rounded places (num / den) := by
  have hlast : leadingExponent num den - (places - 1) = lastExponent places (num / den) := by
    rw [lastExponent, leadingExponent_eq_log hnum hden]
  have hround : roundDiv (scaledQuotient num den (-lastExponent places (num / den))).1
      (scaledQuotient num den (-lastExponent places (num / den))).2 =
        roundEven (num / den / 10 ^ lastExponent places (num / den)) := by
    rw [roundDiv_eq_roundEven _ (scaledQuotient_pos hden _), scaledQuotient_eq, zpow_neg,
      div_eq_mul_inv (num / den : ℚ)]
  rw [significant, hlast, hround, rounded]
  split
  next hc =>
    have hcarry := value_shift (tenPow (places - 1)) 1 (lastExponent places (num / den) + 1)
    rw [pow_one, ← tenPow_succ, Nat.sub_add_cancel hplaces, Nat.cast_one, Int.add_sub_cancel]
      at hcarry
    rw [← hcarry, hc, value]
  next => rfl

end Decimal

end MixedInteger
