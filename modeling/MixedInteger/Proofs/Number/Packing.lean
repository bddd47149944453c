import MixedInteger.Number.Arithmetic
import Mathlib

/-!
# Doubles and their parts

The operations on doubles take a number apart, compute on a sign, a mantissa and an exponent, round,
and pack the outcome.  This file says which outcomes are numbers and which are finite, and how
rounding moves the exponent.

## What is here

* `Double.isNaN_pack`, `Double.isFinite_pack` — packing keeps what is not a number, and overflows
  above an exponent.
* `Double.unpack_pack_of_normal` — a normal number is not changed by packing.
* `Double.round_scaled` — the exponent to which a natural number rounds.
-/

set_option autoImplicit false

namespace MixedInteger

namespace Double

open Float.Model (UnpackedFloat Format totalExponent)
open Float.Model.UnpackedFloat

/-! ## Packing -/

theorem unpack_pack (f : UnpackedFloat) :
    (Float.Model.pack f).unpack = unpack Format.binary64 (pack Format.binary64 f) := by
  rw [Float.Model.unpack, Float.Model.pack]

theorem isFinite_unpack (b : BitVec Format.binary64.numBits) :
    (unpack Format.binary64 b).isFinite = decide (unpackExponent b ≠ (-1#_)) := by
  rw [unpack]
  dsimp only
  split
  · split <;> simp_all [UnpackedFloat.isFinite]
  · split
    · split <;> simp_all [UnpackedFloat.isFinite]
    · simp_all [UnpackedFloat.isFinite]

theorem isNaN_unpack (b : BitVec Format.binary64.numBits) :
    (unpack Format.binary64 b).isNaN =
      decide (unpackExponent b = (-1#_) ∧ unpackMantissa b ≠ 0) := by
  rw [unpack]
  dsimp only
  split
  · split <;> simp_all [UnpackedFloat.isNaN]
  · split
    · split <;> simp_all [UnpackedFloat.isNaN]
    · simp_all [UnpackedFloat.isNaN]

theorem exponentBias_eq : Format.binary64.exponentBias = 1023 := rfl

theorem ofNat_ne_neg_one {k : Nat} (h : k < 2047) : BitVec.ofNat 11 k ≠ (-1#11) := by
  intro hk
  have := congrArg BitVec.toNat hk
  simp only [BitVec.toNat_ofNat, BitVec.reduceNeg] at this
  omega

/-- A finite number stays finite when it is packed, up to the greatest exponent. -/
theorem isFinite_pack (s : Sign) (m : Nat) (e : Int) (h : 0 < m) :
    (Float.Model.pack (.finite s m e h)).unpack.isFinite = decide (e ≤ 971) := by
  rw [unpack_pack, isFinite_unpack, pack]
  dsimp only
  split
  next hb =>
    have he : ¬e ≤ 971 := by
      rw [exponentBias_eq] at hb
      omega
    simp [packedInfinity, he]
  next hb =>
    have he : e ≤ 971 := by
      rw [exponentBias_eq] at hb
      omega
    split
    · simp only [unpackExponent_packComponents, he, decide_true, decide_eq_true_eq]
      exact ofNat_ne_neg_one (by omega)
    · simp only [unpackExponent_packComponents, he, decide_true, decide_eq_true_eq]
      decide

/-- Packing keeps what is not a number, and makes nothing else into it. -/
theorem isNaN_pack (f : UnpackedFloat) : (Float.Model.pack f).unpack.isNaN = f.isNaN := by
  cases f with
  | notANumber =>
    rw [unpack_pack, isNaN_unpack]
    decide
  | infinity s =>
    rw [unpack_pack, isNaN_unpack]
    simp [pack, packedInfinity, UnpackedFloat.isNaN]
  | zero s =>
    rw [unpack_pack, isNaN_unpack]
    simp [pack, packedZero, UnpackedFloat.isNaN]
  | finite s m e h =>
    rcases Int.lt_or_le 971 e with he | he
    · rw [unpack_pack, isNaN_unpack, pack]
      dsimp only
      rw [if_pos (by rw [exponentBias_eq]; omega)]
      simp [packedInfinity, UnpackedFloat.isNaN]
    · have hf : (Float.Model.pack (.finite s m e h)).unpack.isFinite = true := by
        rw [isFinite_pack, decide_eq_true he]
      cases hu : (Float.Model.pack (.finite s m e h)).unpack with
      | notANumber => simp [hu, UnpackedFloat.isFinite] at hf
      | infinity t => simp [hu, UnpackedFloat.isFinite] at hf
      | zero t => rfl
      | finite t n k hn => rfl

theorem isNaN_neg (x : Float) : (-x).isNaN = x.isNaN := by
  refine (isNaN_pack x.toModel.unpack.neg).trans ?_
  cases hx : x.toModel.unpack <;>
    simp [Float.isNaN, Float.Model.isNaN, hx, UnpackedFloat.neg, UnpackedFloat.isNaN]

theorem one_append_toNat {m : Nat} (hm : 2 ^ 52 ≤ m) (hm' : m < 2 ^ 53) :
    (1#1 ++ BitVec.ofNat 52 m).toNat = m := by
  have h := Nat.shiftLeft_add_eq_or_of_lt (Nat.mod_lt m (by decide : 2 ^ 52 > 0)) 1
  rw [BitVec.toNat_append, BitVec.toNat_ofNat, BitVec.toNat_ofNat, Nat.mod_eq_of_lt (by decide),
    ← h, Nat.shiftLeft_eq]
  omega

theorem finite_congr {s s' : Sign} {m m' : Nat} {e e' : Int} {h : 0 < m} {h' : 0 < m'}
    (hs : s = s') (hm : m = m') (he : e = e') :
    UnpackedFloat.finite s m e h = .finite s' m' e' h' := by
  subst hs hm he
  rfl

theorem sign_packComponents (s : Sign) (e : BitVec 11) (m : BitVec 52) :
    Sign.ofBitVec (@unpackSign Format.binary64 (packComponents Format.binary64 s e m)) = s := by
  rw [unpackSign, packComponents, BitVec.extractLsb,
    BitVec.extractLsb'_append_eq_of_le (by decide), BitVec.extractLsb'_append_eq_of_le (by decide)]
  cases s <;> rfl

/-- A normal number is not changed by packing. -/
theorem unpack_pack_of_normal (s : Sign) {m : Nat} {e : Int} (hm : 2 ^ 52 ≤ m) (hm' : m < 2 ^ 53)
    (he : -1074 ≤ e) (he' : e ≤ 971) :
    (Float.Model.pack (.finite s m e (by omega))).unpack = .finite s m e (by omega) := by
  have hl : m.log2 + 1 = Format.binary64.mantissaBits :=
    congrArg (· + 1) ((Nat.log2_eq_iff (by omega)).2 ⟨hm, hm'⟩)
  have hk : (e + Format.binary64.exponentBias + (52 : Nat)).toNat < 2047 := by
    rw [exponentBias_eq]
    omega
  rw [unpack_pack, pack]
  dsimp only
  rw [if_neg (by omega), if_pos hl, unpack]
  dsimp only
  simp only [unpackExponent_packComponents, unpackMantissa_packComponents]
  rw [if_neg (ofNat_ne_neg_one hk), if_neg]
  · refine finite_congr (sign_packComponents _ _ _) (one_append_toNat hm hm') ?_
    rw [BitVec.toNat_ofNat, Nat.mod_eq_of_lt (by omega), exponentBias_eq]
    omega
  · intro h0
    have := congrArg BitVec.toNat h0
    rw [BitVec.toNat_ofNat, Nat.mod_eq_of_lt (by omega), exponentBias_eq] at this
    simp only [BitVec.toNat_ofNat, Nat.zero_mod] at this
    omega

/-! ## Rounding -/

theorem shiftRight_succ (em : ExtendedMantissa) (k : Nat) :
    em >>> (k + 1) = (em >>> k).shiftRightOne := rfl

theorem shiftRight_mantissa (em : ExtendedMantissa) (k : Nat) :
    (em >>> k).mantissa = em.mantissa / 2 ^ k := by
  induction k with
  | zero => exact (Nat.div_one _).symm
  | succ k ih =>
    rw [shiftRight_succ, ExtendedMantissa.shiftRightOne, ih, Nat.div_div_eq_div_mul, Nat.pow_succ]

theorem shiftRight_roundBit (em : ExtendedMantissa) (k : Nat) :
    (em >>> (k + 1)).roundBit = (em.mantissa / 2 ^ k % 2 != 0) := by
  rw [shiftRight_succ, ExtendedMantissa.shiftRightOne, shiftRight_mantissa]

theorem ofMantissaAndAccuracy_mantissa (m : Nat) (acc : Accuracy) :
    (ExtendedMantissa.ofMantissaAndAccuracy m acc).mantissa = m := by
  cases acc with
  | exact => rfl
  | inexact o => cases o <;> rfl

theorem roundedMantissa_le (em : ExtendedMantissa) : em.roundedMantissa ≤ em.mantissa + 1 := by
  rw [ExtendedMantissa.roundedMantissa]
  cases em.accuracy with
  | exact => exact Nat.le_succ _
  | inexact o => cases o <;> simp only [Accuracy.roundToNearestEven] <;> omega

theorem targetExponent_eq (t : Int) : Format.binary64.targetExponent t = max (t - 53) (-1074) := rfl

theorem shiftToTargetExponent_exponent (m : Nat) (e : Int) (acc : Accuracy) :
    (shiftToTargetExponent Format.binary64 m e acc).2 =
      max e (max (totalExponent m e - 53) (-1074)) := by
  rw [shiftToTargetExponent, shiftToExponent, targetExponent_eq]
  omega

theorem shiftToTargetExponent_mantissa (m : Nat) (e : Int) (acc : Accuracy) :
    (shiftToTargetExponent Format.binary64 m e acc).1.mantissa =
      m / 2 ^ (max (totalExponent m e - 53) (-1074) - e).toNat := by
  rw [shiftToTargetExponent, shiftToExponent, targetExponent_eq]
  dsimp only
  rw [shiftRight_mantissa, ofMantissaAndAccuracy_mantissa]

theorem le_roundedMantissa (em : ExtendedMantissa) : em.mantissa ≤ em.roundedMantissa := by
  rw [ExtendedMantissa.roundedMantissa]
  cases em.accuracy with
  | exact => exact Nat.le_refl _
  | inexact o => cases o <;> simp only [Accuracy.roundToNearestEven] <;> omega

theorem roundedMantissa_of_not_roundBit {em : ExtendedMantissa} (h : em.roundBit = false) :
    em.roundedMantissa = em.mantissa := by
  rcases em with ⟨m, r, s⟩
  subst h
  cases s <;> rfl

theorem roundedMantissa_of_odd {em : ExtendedMantissa} (h : em.roundBit = true)
    (hm : em.mantissa % 2 = 1) : em.roundedMantissa = em.mantissa + 1 := by
  rcases em with ⟨m, r, s⟩
  subst h
  cases s
  · exact congrArg (m + ·) hm
  · rfl

/-- The mantissa that is left when all but fifty-four bits are dropped, the last of which only
rounds. -/
theorem roundedMantissa_shiftRight (em : ExtendedMantissa) {k : Nat}
    (h : 2 ^ 53 ≤ em.mantissa / 2 ^ k) (h' : em.mantissa / 2 ^ k < 2 ^ 54) :
    ((em >>> (k + 1)).roundedMantissa = 2 ^ 53 ∧ 2 ^ 54 - 1 ≤ em.mantissa / 2 ^ k) ∨
      (2 ^ 52 ≤ (em >>> (k + 1)).roundedMantissa ∧ (em >>> (k + 1)).roundedMantissa < 2 ^ 53 ∧
        em.mantissa / 2 ^ k < 2 ^ 54 - 1) := by
  have hq : (em >>> (k + 1)).mantissa = em.mantissa / 2 ^ k / 2 := by
    rw [shiftRight_mantissa, Nat.div_div_eq_div_mul, Nat.pow_succ]
  have hle := le_roundedMantissa (em >>> (k + 1))
  have hge := roundedMantissa_le (em >>> (k + 1))
  cases hb : (em >>> (k + 1)).roundBit with
  | false =>
    have hr := roundedMantissa_of_not_roundBit hb
    rw [shiftRight_roundBit, bne_eq_false_iff_eq] at hb
    right
    omega
  | true =>
    have hr := roundedMantissa_of_odd hb
    rw [shiftRight_roundBit, bne_iff_ne] at hb
    rcases Nat.lt_or_ge (em.mantissa / 2 ^ k) (2 ^ 54 - 1) with hlt | hge'
    · right
      omega
    · left
      have := hr (by omega)
      omega

/-- The exponent of the first digit after rounding: one more where the mantissa rounds up to the
next power of two. -/
def topExponent (n : Nat) : Nat := n.log2 + if 2 ^ 54 - 1 ≤ n * 2 ^ 53 / 2 ^ n.log2 then 1 else 0

theorem topExponent_mono {a b : Nat} (h : a ≤ b) (ha : a ≠ 0) : topExponent a ≤ topExponent b := by
  have hl : a.log2 ≤ b.log2 := (Nat.le_log2 (by omega)).2 (Nat.le_trans (Nat.log2_self_le ha) h)
  rw [topExponent, topExponent]
  rcases Nat.eq_or_lt_of_le hl with he | hlt
  · have hd : a * 2 ^ 53 / 2 ^ a.log2 ≤ b * 2 ^ 53 / 2 ^ b.log2 := by
      rw [he]
      exact Nat.div_le_div_right (Nat.mul_le_mul_right _ h)
    split <;> split <;> omega
  · split <;> split <;> omega

theorem log2_mul_two_pow {n : Nat} (hn : n ≠ 0) (k : Nat) : (n * 2 ^ k).log2 = n.log2 + k := by
  refine (Nat.log2_eq_iff (Nat.mul_ne_zero hn (Nat.ne_of_gt (Nat.two_pow_pos k)))).2 ⟨?_, ?_⟩
  · rw [Nat.pow_add]
    exact Nat.mul_le_mul_right _ (Nat.log2_self_le hn)
  · rw [Nat.add_right_comm, Nat.pow_add]
    exact Nat.mul_lt_mul_of_pos_right Nat.lt_log2_self (Nat.two_pow_pos k)

/-- **The exponent of a rounded natural number** follows from its first fifty-four digits. -/
theorem round_scaled (s : Sign) {n : Nat} (hn : n ≠ 0) :
    ∃ m h, roundWithAccuracy Format.binary64 s (n * 2 ^ 53) (-53) .exact =
      .finite s m (topExponent n - 52) h ∧ 2 ^ 52 ≤ m ∧ m < 2 ^ 53 := by
  have hd : (max (totalExponent (n * 2 ^ 53) (-53) - 53) (-1074) - (-53)).toNat = n.log2 + 1 := by
    rw [totalExponent, log2_mul_two_pow hn]
    omega
  have he : (shiftToTargetExponent Format.binary64 (n * 2 ^ 53) (-53) .exact).2 =
      (n.log2 : Int) - 52 := by
    rw [shiftToTargetExponent_exponent, totalExponent, log2_mul_two_pow hn]
    omega
  have hem : (shiftToTargetExponent Format.binary64 (n * 2 ^ 53) (-53) .exact).1 =
      (⟨n * 2 ^ 53, false, false⟩ : ExtendedMantissa) >>> (n.log2 + 1) := by
    rw [← hd]
    rfl
  have hlo : 2 ^ 53 ≤ n * 2 ^ 53 / 2 ^ n.log2 := by
    rw [Nat.le_div_iff_mul_le (Nat.two_pow_pos _), Nat.mul_comm]
    exact Nat.mul_le_mul_right _ (Nat.log2_self_le hn)
  have hhi : n * 2 ^ 53 / 2 ^ n.log2 < 2 ^ 54 := by
    rw [Nat.div_lt_iff_lt_mul (Nat.two_pow_pos _)]
    have := @Nat.lt_log2_self n
    rw [Nat.pow_succ] at this
    omega
  rw [roundWithAccuracy]
  dsimp only
  rw [hem, he]
  have hr := roundedMantissa_shiftRight ⟨n * 2 ^ 53, false, false⟩ hlo hhi
  generalize ((⟨n * 2 ^ 53, false, false⟩ : ExtendedMantissa) >>> (n.log2 + 1)).roundedMantissa = r
    at hr ⊢
  have ht : (shiftToTargetExponent Format.binary64 r ((n.log2 : Int) - 52) .exact).2 =
      topExponent n - 52 ∧
      2 ^ 52 ≤ (shiftToTargetExponent Format.binary64 r ((n.log2 : Int) - 52) .exact).1.mantissa ∧
      (shiftToTargetExponent Format.binary64 r ((n.log2 : Int) - 52) .exact).1.mantissa < 2 ^ 53 := by
    rw [shiftToTargetExponent_exponent, shiftToTargetExponent_mantissa, totalExponent, topExponent]
    rcases hr with ⟨rfl, ht⟩ | ⟨hr, hr', ht⟩
    · rw [if_pos ht, Nat.log2_two_pow]
      have hk : (max ((53 : Nat) + 1 + ((n.log2 : Int) - 52) - 53) (-1074) -
          ((n.log2 : Int) - 52)).toNat = 1 := by omega
      rw [hk]
      omega
    · have hl : r.log2 = 52 := (Nat.log2_eq_iff (by omega)).2 ⟨hr, hr'⟩
      have hk : (max ((52 : Nat) + 1 + ((n.log2 : Int) - 52) - 53) (-1074) -
          ((n.log2 : Int) - 52)).toNat = 0 := by omega
      rw [if_neg (Nat.not_le_of_lt ht), hl, hk]
      omega
  have h0 := Nat.ne_of_gt (Nat.lt_of_lt_of_le (Nat.two_pow_pos 52) ht.2.1)
  rw [dif_neg h0]
  exact ⟨_, Nat.pos_of_ne_zero h0, finite_congr rfl rfl ht.1, ht.2⟩

/-- A normal number is not shifted. -/
theorem shiftToTargetExponent_of_normal {m : Nat} {e : Int} (hm : 2 ^ 52 ≤ m) (hm' : m < 2 ^ 53)
    (he : -1074 ≤ e) :
    shiftToTargetExponent Format.binary64 m e .exact = (⟨m, false, false⟩, e) := by
  have hl : m.log2 = 52 := (Nat.log2_eq_iff (by omega)).2 ⟨hm, hm'⟩
  have hd : (max (totalExponent m e - 53) (-1074) - e).toNat = 0 := by
    rw [totalExponent, hl]
    omega
  rw [shiftToTargetExponent, shiftToExponent, targetExponent_eq, hd]
  exact congrArg (Prod.mk _) (Int.add_zero e)

/-- A normal number is already rounded. -/
theorem roundWithAccuracy_of_normal (s : Sign) {m : Nat} {e : Int} (hm : 2 ^ 52 ≤ m)
    (hm' : m < 2 ^ 53) (he : -1074 ≤ e) :
    roundWithAccuracy Format.binary64 s m e .exact = .finite s m e (by omega) := by
  have ht := shiftToTargetExponent_of_normal hm hm' he
  have hr : (⟨m, false, false⟩ : ExtendedMantissa).roundedMantissa = m := rfl
  have h0 : m ≠ 0 := by omega
  rw [roundWithAccuracy]
  dsimp only
  rw [ht]
  dsimp only
  rw [hr, ht]
  exact dif_neg h0

/-- A normal number is rounded to itself, though it is written with more digits. -/
theorem roundWithAccuracy_of_shifted (s : Sign) {m : Nat} {e : Int} (hm : 2 ^ 52 ≤ m)
    (hm' : m < 2 ^ 53) (he : -1074 ≤ e) :
    roundWithAccuracy Format.binary64 s (m * 2 ^ 52) (e - 52) .exact =
      .finite s m e (by omega) := by
  have h0 : m ≠ 0 := by omega
  have hl : (m * 2 ^ 52).log2 = 104 := by
    rw [log2_mul_two_pow h0, (Nat.log2_eq_iff h0).2 ⟨hm, hm'⟩]
  have hd : (max (totalExponent (m * 2 ^ 52) (e - 52) - 53) (-1074) - (e - 52)).toNat = 52 := by
    rw [totalExponent, hl]
    omega
  have hs : shiftToTargetExponent Format.binary64 (m * 2 ^ 52) (e - 52) .exact =
      ((⟨m * 2 ^ 52, false, false⟩ : ExtendedMantissa) >>> 52, e) := by
    rw [shiftToTargetExponent, shiftToExponent, targetExponent_eq, hd]
    exact congrArg (Prod.mk _) (Int.sub_add_cancel e 52)
  have hr : ((⟨m * 2 ^ 52, false, false⟩ : ExtendedMantissa) >>> 52).roundedMantissa = m := by
    rw [roundedMantissa_of_not_roundBit, shiftRight_mantissa]
    · exact Nat.mul_div_cancel m (Nat.two_pow_pos 52)
    · rw [shiftRight_roundBit]
      have hhalf : m * 2 ^ 52 / 2 ^ 51 % 2 = 0 := by omega
      rw [hhalf]
      rfl
  rw [roundWithAccuracy]
  dsimp only
  rw [hs]
  dsimp only
  rw [hr, shiftToTargetExponent_of_normal hm hm' he]
  exact dif_neg h0

end Double

end MixedInteger
