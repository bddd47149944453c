import MixedInteger.Proofs.Number.Nearest
import MixedInteger.Proofs.Number.Printed

/-!
# Rounding mantissas

The operations on doubles end by rounding a mantissa and an exponent and packing the outcome.  This
file says which number that is: the nearest one that a double can be, or an infinity.

## What is here

* `Double.number` — the number of a double that has been taken apart.
* `Double.IsCanonical` — the mantissas and exponents that doubles have.
* `Double.roundedMantissa_eq` — a mantissa that is shifted is rounded to the nearest.
* `Double.number_roundWithAccuracy`, `Double.number_round` — **a mantissa and an exponent are
  rounded to the nearest double**.
-/

set_option autoImplicit false

namespace MixedInteger

namespace Double

open Float.Model (UnpackedFloat Format totalExponent)
open Float.Model.UnpackedFloat

/-! ## Numbers of doubles -/

/-- The number that a double is, once it has been taken apart. -/
def number (f : UnpackedFloat) : Extended ℚ := (Binary64.ofUnpacked f).exact

/-- A number with a sign. -/
def signed : Sign → Extended ℚ → Extended ℚ
  | .positive, x => x
  | .negative, x => -x

theorem number_finite (s : Sign) {m : ℕ} {e : ℤ} (h : 0 < m) :
    number (.finite s m e h) = signed s (.finite (m * 2 ^ e)) := by
  cases s <;> rfl

theorem number_infinity (s : Sign) : number (.infinity s) = signed s (.infinite false) := by
  cases s <;> rfl

theorem signed_zero (s : Sign) : signed s (.finite 0) = .finite 0 := by
  cases s <;> simp [signed]

theorem number_zero (s : Sign) : number (.zero s) = .finite 0 := by
  rw [← signed_zero s]
  cases s <;> simp [number, Binary64.ofUnpacked, Binary64.exact, Binary64.withSign, signed]

theorem number_eq (x : Float) : (Binary64.ofFloat x).exact = number x.toModel.unpack := by
  rw [ofFloat_eq, number]

/-! ## Packing -/

/-- A number below the normal ones is not changed by packing. -/
theorem unpack_pack_of_subnormal (s : Sign) {m : ℕ} (h : 0 < m) (hm : m < 2 ^ 52) :
    (Float.Model.pack (.finite s m (-1074) h)).unpack = .finite s m (-1074) h := by
  have hl : ¬m.log2 + 1 = Format.binary64.mantissaBits := by
    have hlt : m.log2 < 52 := (Nat.log2_lt h.ne').2 hm
    change ¬m.log2 + 1 = 53
    omega
  have hmantissa : (BitVec.ofNat 52 m).toNat = m := by
    rw [BitVec.toNat_ofNat, Nat.mod_eq_of_lt hm]
  rw [unpack_pack, pack]
  dsimp only
  rw [if_neg (by decide), if_neg hl, unpack]
  dsimp only
  simp only [unpackExponent_packComponents, unpackMantissa_packComponents]
  rw [if_neg (by decide), if_pos trivial, dif_neg]
  · exact finite_congr (sign_packComponents _ _ _) hmantissa (by decide)
  · intro h0
    have := congrArg BitVec.toNat h0
    rw [hmantissa] at this
    exact h.ne' this

/-- A number out of range is packed as an infinity. -/
theorem unpack_pack_of_overflow (s : Sign) {m : ℕ} {e : ℤ} (h : 0 < m) (he : 971 < e) :
    (Float.Model.pack (.finite s m e h)).unpack = .infinity s := by
  rw [unpack_pack, pack]
  dsimp only
  rw [if_pos (by rw [exponentBias_eq]; omega), packedInfinity, unpack]
  dsimp only
  simp only [unpackExponent_packComponents, unpackMantissa_packComponents]
  rw [if_pos trivial]
  exact congrArg UnpackedFloat.infinity (sign_packComponents s _ _)

/-- The mantissas and exponents that doubles have, if the exponent is not too large. -/
def IsCanonical (m : ℕ) (e : ℤ) : Prop := m < 2 ^ 53 ∧ -1074 ≤ e ∧ (2 ^ 52 ≤ m ∨ e = -1074)

/-- The number of a canonical mantissa and exponent is not changed by packing, unless it is out of
range. -/
theorem number_pack (s : Sign) {m : ℕ} {e : ℤ} (h : 0 < m) (hc : IsCanonical m e) :
    number (Float.Model.pack (.finite s m e h)).unpack = signed s (inRange (m * 2 ^ e)) := by
  obtain ⟨hm, he, hmin⟩ := hc
  have hlt : ((m : ℕ) : ℚ) < 2 ^ (53 : ℤ) := by exact_mod_cast hm
  rcases Int.lt_or_le 971 e with hover | hle
  · have hlo : (2 : ℚ) ^ (52 : ℤ) ≤ m := by
      have := hmin.resolve_right (by omega)
      exact_mod_cast this
    have hout : ¬(m : ℚ) * 2 ^ e < 2 ^ 1024 := by
      have hpow : (2 : ℚ) ^ (1024 : ℕ) ≤ 2 ^ (52 : ℤ) * 2 ^ e := by
        rw [← zpow_natCast, ← zpow_add₀ two_ne_zero]
        exact zpow_le_zpow_right₀ one_le_two (by push_cast; omega)
      exact not_lt.2 (hpow.trans (mul_le_mul_of_nonneg_right hlo (by positivity)))
    rw [unpack_pack_of_overflow s h hover, number_infinity, inRange, if_neg hout]
  · have hin : (m : ℚ) * 2 ^ e < 2 ^ 1024 := by
      have hpow : (2 : ℚ) ^ (53 : ℤ) * 2 ^ e ≤ 2 ^ (1024 : ℕ) := by
        rw [← zpow_natCast, ← zpow_add₀ two_ne_zero]
        exact zpow_le_zpow_right₀ one_le_two (by push_cast; omega)
      exact (mul_lt_mul_of_pos_right hlt (by positivity)).trans_le hpow
    rw [inRange, if_pos hin, ← number_finite s h]
    rcases Nat.lt_or_ge m (2 ^ 52) with hsub | hnormal
    · obtain rfl : e = -1074 := hmin.resolve_left (by omega)
      rw [unpack_pack_of_subnormal s h hsub]
    · rw [unpack_pack_of_normal s hnormal hm he hle]

/-! ## Rounding -/

/-- The last bit says whether one of the bits that have been dropped before is set. -/
theorem shiftRight_stickyBit (m k : ℕ) :
    ((⟨m, false, false⟩ : ExtendedMantissa) >>> (k + 1)).stickyBit = (m % 2 ^ k != 0) := by
  induction k with
  | zero =>
    rw [pow_zero, Nat.mod_one]
    rfl
  | succ k ih =>
    rw [shiftRight_succ, ExtendedMantissa.shiftRightOne, ih, shiftRight_roundBit, Nat.mod_pow_succ]
    have hpos := Nat.two_pow_pos k
    rcases Nat.mod_two_eq_zero_or_one (m / 2 ^ k) with h | h <;> simp [h]

/-- **A mantissa that is shifted is rounded to the nearest**, a half going to the even one. -/
theorem roundedMantissa_eq (m k : ℕ) :
    ((⟨m, false, false⟩ : ExtendedMantissa) >>> k).roundedMantissa = roundEven (m / 2 ^ k) := by
  cases k with
  | zero =>
    rw [pow_zero, div_one, roundEven_natCast]
    rfl
  | succ k =>
    have hdiv := roundDiv_eq_roundEven m (Nat.two_pow_pos (k + 1))
    push_cast at hdiv
    rw [← hdiv, roundDiv]
    have hmod : m % 2 ^ (k + 1) = m % 2 ^ k + 2 ^ k * (m / 2 ^ k % 2) := Nat.mod_pow_succ
    have hlt := Nat.mod_lt m (Nat.two_pow_pos k)
    have hpow : 2 ^ (k + 1) = 2 * 2 ^ k := pow_succ' 2 k
    have hq : ((⟨m, false, false⟩ : ExtendedMantissa) >>> (k + 1)).mantissa = m / 2 ^ (k + 1) :=
      shiftRight_mantissa _ _
    have hround := shiftRight_roundBit ⟨m, false, false⟩ k
    have hsticky := shiftRight_stickyBit m k
    generalize (⟨m, false, false⟩ : ExtendedMantissa) >>> (k + 1) = em at hq hround hsticky
    rw [← hq]
    -- the round bit says on which side of one half the rest is, and the sticky bit if it is beyond
    rcases Nat.mod_two_eq_zero_or_one (m / 2 ^ k) with h | h
    · rw [h] at hround hmod
      rw [roundedMantissa_of_not_roundBit hround, if_pos (by omega)]
    · rw [h] at hround hmod
      obtain ⟨q, r, s⟩ := em
      obtain rfl : r = true := hround
      by_cases hs : m % 2 ^ k = 0
      · obtain rfl : s = false := hsticky.trans (bne_eq_false_iff_eq.2 hs)
        rw [if_neg (by omega), if_neg (by omega)]
        change q + q % 2 = if q % 2 = 0 then q else q + 1
        split_ifs <;> omega
      · obtain rfl : s = true := hsticky.trans (bne_iff_ne.2 hs)
        rw [if_neg (by omega), if_pos (by omega)]
        rfl

/-- The exponent that a number is shifted to is that of the multiples it is rounded to. -/
theorem gridExponent_eq {m : ℕ} (h : 0 < m) (e : ℤ) :
    gridExponent (m * 2 ^ e) = max (totalExponent m e - 53) (-1074) := by
  have hpos : (0 : ℚ) < m * 2 ^ e := by positivity
  have hlog : Int.log 2 ((m : ℚ) * 2 ^ e) = m.log2 + e := by
    have hlo : (2 : ℚ) ^ (m.log2 : ℤ) ≤ m := by
      rw [zpow_natCast]
      exact_mod_cast Nat.log2_self_le h.ne'
    have hhi : (m : ℚ) < 2 ^ ((m.log2 : ℤ) + 1) := by
      exact_mod_cast @Nat.lt_log2_self m
    refine le_antisymm (Int.lt_add_one_iff.1 ?_) ?_
    · refine (Int.lt_zpow_iff_log_lt one_lt_two hpos).1 ?_
      rw [Nat.cast_ofNat, add_right_comm, zpow_add₀ two_ne_zero]
      exact mul_lt_mul_of_pos_right hhi (by positivity)
    · refine (Int.zpow_le_iff_le_log one_lt_two hpos).1 ?_
      rw [Nat.cast_ofNat, zpow_add₀ two_ne_zero]
      exact mul_le_mul_of_nonneg_right hlo (by positivity)
  rw [gridExponent, hlog, totalExponent]
  congr 1
  ring

theorem unpack_pack_zero (s : Sign) : (Float.Model.pack (.zero s)).unpack = .zero s := by
  rw [unpack_pack]
  exact unpack_packedZero

/-- A canonical mantissa and exponent are not changed by shifting, and the mantissa that is one too
large is halved. -/
theorem number_pack_shifted (s : Sign) {r : ℕ} {e : ℤ} (hr : r ≤ 2 ^ 53) (he : -1074 ≤ e)
    (hmin : 2 ^ 52 ≤ r ∨ e = -1074) :
    let t := shiftToTargetExponent Format.binary64 r e .exact
    number (Float.Model.pack (if h : t.1.mantissa = 0 then .zero s
      else .finite s t.1.mantissa t.2 (Nat.pos_of_ne_zero h))).unpack =
        signed s (inRange (r * 2 ^ e)) := by
  intro t
  have hmantissa : t.1.mantissa = r / 2 ^ (max (totalExponent r e - 53) (-1074) - e).toNat :=
    shiftToTargetExponent_mantissa r e .exact
  have hexponent : t.2 = max e (max (totalExponent r e - 53) (-1074)) :=
    shiftToTargetExponent_exponent r e .exact
  -- the number stays the same, and the mantissa and the exponent become canonical
  have hshift : (t.1.mantissa : ℚ) * 2 ^ t.2 = r * 2 ^ e ∧ IsCanonical t.1.mantissa t.2 := by
    rw [hmantissa, hexponent, totalExponent]
    rcases hr.eq_or_lt with rfl | hr
    · have hmax : max ((((2 ^ 53 : ℕ).log2 : ℤ) + 1 + e) - 53) (-1074) = e + 1 := by
        rw [Nat.log2_two_pow]
        omega
      have hhalf : (2 ^ 53 : ℕ) / 2 ^ (e + 1 - e).toNat = 2 ^ 52 := by
        rw [add_sub_cancel_left]
        rfl
      rw [hmax, hhalf, max_eq_right (by omega), zpow_add_one₀ two_ne_zero]
      refine ⟨?_, by omega, by omega, .inl le_rfl⟩
      push_cast
      ring
    · have hlog : r.log2 ≤ 52 := by
        rcases Nat.eq_zero_or_pos r with rfl | hpos
        · exact Nat.zero_le _
        · exact Nat.lt_succ_iff.1 ((Nat.log2_lt hpos.ne').2 hr)
      have hmax : max (((r.log2 : ℤ) + 1 + e) - 53) (-1074) ≤ e := by omega
      rw [Int.toNat_of_nonpos (by omega), pow_zero, Nat.div_one, max_eq_left hmax]
      exact ⟨rfl, hr, he, hmin⟩
  split
  next h0 =>
    rw [unpack_pack_zero, number_zero, ← hshift.1, h0, Nat.cast_zero, zero_mul]
    have hzero : inRange 0 = .finite 0 := if_pos (by positivity)
    rw [hzero, signed_zero]
  next h0 => rw [number_pack s _ hshift.2, hshift.1]

/-- **What a mantissa and an exponent are rounded to**, if the exponent is small enough: the nearest
double. -/
theorem number_roundWithAccuracy (s : Sign) {m : ℕ} {e : ℤ} (h : 0 < m)
    (he : e ≤ gridExponent (m * 2 ^ e)) :
    number (Float.Model.pack (roundWithAccuracy Format.binary64 s m e .exact)).unpack =
      signed s (inRange (nearestMagnitude (m * 2 ^ e))) := by
  have hgrid := gridExponent_eq h e
  obtain ⟨k, hk⟩ := Int.eq_ofNat_of_zero_le (sub_nonneg.2 he)
  have hshift : shiftToTargetExponent Format.binary64 m e .exact =
      ((⟨m, false, false⟩ : ExtendedMantissa) >>> k, gridExponent (m * 2 ^ e)) := by
    rw [shiftToTargetExponent, shiftToExponent, targetExponent_eq, ← hgrid, hk, Int.toNat_natCast]
    exact congrArg (Prod.mk _) (by omega)
  have hquotient : (m : ℚ) / 2 ^ k = m * 2 ^ e / 2 ^ gridExponent (m * 2 ^ e) := by
    have hexponent : gridExponent (m * 2 ^ e) = e + k := by omega
    rw [hexponent, zpow_add₀ two_ne_zero, zpow_natCast]
    field_simp
  rw [totalExponent] at hgrid
  have hle : roundEven (m / 2 ^ k) ≤ 2 ^ 53 := by
    have hlt : m < 2 ^ (53 + k) :=
      Nat.lt_log2_self.trans_le (Nat.pow_le_pow_right two_pos (by omega))
    rw [← roundEven_natCast (2 ^ 53)]
    refine roundEven_mono ((div_le_iff₀ (by positivity)).2 ?_)
    rw [pow_add] at hlt
    exact_mod_cast hlt.le
  have hmin : 2 ^ 52 ≤ roundEven (m / 2 ^ k) ∨ gridExponent (m * 2 ^ e) = -1074 := by
    rcases eq_or_ne (gridExponent (m * 2 ^ e)) (-1074) with hg | hg
    · exact .inr hg
    · have hge : 2 ^ (52 + k) ≤ m := by
        have hlog : 52 + k = m.log2 := by omega
        rw [hlog]
        exact Nat.log2_self_le h.ne'
      left
      rw [← roundEven_natCast (2 ^ 52)]
      refine roundEven_mono ((le_div_iff₀ (by positivity)).2 ?_)
      rw [pow_add] at hge
      exact_mod_cast hge
  rw [roundWithAccuracy]
  dsimp only
  rw [hshift]
  dsimp only
  rw [roundedMantissa_eq, nearestMagnitude, ← hquotient]
  exact number_pack_shifted s hle (hgrid ▸ le_max_right _ _) hmin

/-- **What a mantissa and an exponent are rounded to**: the nearest double. -/
theorem number_round (s : Sign) {m : ℕ} (h : 0 < m) (e : ℤ) :
    number (Float.Model.pack (UnpackedFloat.round Format.binary64 s m e)).unpack =
      signed s (inRange (nearestMagnitude (m * 2 ^ e))) := by
  have hgrid := gridExponent_eq h e
  rw [UnpackedFloat.round]
  dsimp only
  rw [targetExponent_eq, ← hgrid, decreaseExponent, Nat.shiftLeft_eq]
  dsimp only
  obtain ⟨k, hk⟩ : ∃ k : ℕ, (e - gridExponent (m * 2 ^ e)).toNat = k := ⟨_, rfl⟩
  have hvalue : ((m * 2 ^ k : ℕ) : ℚ) * 2 ^ (e - k) = m * 2 ^ e := by
    rw [zpow_sub₀ two_ne_zero, zpow_natCast]
    push_cast
    field_simp
  have hpos : 0 < m * 2 ^ k := Nat.mul_pos h (Nat.two_pow_pos k)
  rw [hk, number_roundWithAccuracy s hpos, hvalue]
  rw [hvalue]
  omega

end Double

end MixedInteger
