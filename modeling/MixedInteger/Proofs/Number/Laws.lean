import MixedInteger.Proofs.Number.Packing

/-!
# Laws of the numbers of a model

The operations on numbers carry no laws by themselves.  Those collected here are what keeps a
reformulation from failing half-way: constants that are in order, a sign that does not change
whether something is a number, and integers that leave the range only upwards.

## What is here

* `Arithmetic.Sensible` — the laws, and the fact that doubles have them.
* `Double.isFinite_ofNat` — which natural numbers are in the range of doubles.
-/

set_option autoImplicit false

namespace MixedInteger

/-- Numbers of which the constants are in order and the integers leave the range upwards only. -/
class Arithmetic.Sensible (K : Type) [Arithmetic K] : Prop where
  isNaN_zero : isNaN (zero : K) = false
  isNaN_one : isNaN (one : K) = false
  lt_one_zero : lt (one : K) zero = false
  lt_zero_zero : lt (zero : K) zero = false
  isNaN_neg (x : K) : isNaN (-x) = isNaN x
  lt_of_isNaN {x : K} (y : K) : isNaN x = true → lt x y = false
  isNaN_of_isFinite {x : K} : isFinite x = true → isNaN x = false
  isNaN_ofInt {n : Int} : 0 ≤ n → isNaN (ofInt n : K) = false
  not_lt_ofInt {n : Int} : 0 ≤ n → lt (ofInt n : K) zero = false
  isFinite_ofInt_one : isFinite (ofInt 1 : K) = true
  isFinite_ofInt_of_le {m n : Int} : 0 ≤ m → m ≤ n → isFinite (ofInt n : K) = true →
    isFinite (ofInt m : K) = true
  isFinite_ofInt_of_compareInt {x : K} {n : Int} : 0 ≤ n → lt x infinity = true →
    compareInt x n = some .gt ∨ compareInt x n = some .eq → isFinite (ofInt n : K) = true
  truncate_pos {x : K} {n : Int} : isInteger x = true → compareInt x 0 ≠ some .lt →
    compareInt x 0 ≠ some .eq → truncate x = some n → 0 < n

namespace Double

open Float.Model (UnpackedFloat Format totalExponent)
open Float.Model.UnpackedFloat

/-! ## Natural numbers -/

theorem ofNat_of_le {n : Nat} (h : 2 ^ 53 ≤ n) :
    Float.ofNat n = .ofModel (.pack (roundWithAccuracy Format.binary64 .positive (n * 2 ^ 53) (-53)
      .exact)) := by
  have h' : ¬(n < 2 ^ 53 ∧ 0 ≤ 22) := fun h' => Nat.not_lt_of_le h h'.1
  have hn : n ≠ 0 := by omega
  have hm : Float.ofNat n = .ofModel (Float.Model.ofScientific n 0) := by
    simp only [Float.ofNat, OfScientific.ofScientific, Float.ofScientific]
    rw [dif_neg h']
    rfl
  have hk : ¬(0 : Int) < -((2 ^ Format.binary64.exponentBits : Int) + n.log2) := by
    have : (0 : Int) < 2 ^ Format.binary64.exponentBits := by decide
    omega
  rw [hm, Float.Model.ofScientific, ofScientific, dif_neg hn, if_neg (by decide), if_neg hk,
    if_pos (Int.le_refl 0), mul]
  simp only [Nat.shiftLeft_eq, Int.toNat_zero, Nat.pow_zero, Nat.mul_one, Int.add_zero]
  rfl

/-- A small natural number as a normal double. -/
theorem toFloat_of_lt {n : Nat} (hn : n ≠ 0) (h : n < 2 ^ 53) :
    ∃ m e h, n.toUInt64.toFloat.toModel.unpack = .finite .positive m e h ∧ 2 ^ 52 ≤ m ∧
      m < 2 ^ 53 ∧ -52 ≤ e ∧ e ≤ 0 := by
  have hl : n.log2 < 53 := (Nat.log2_lt hn).2 h
  have hm : (n * 2 ^ (52 - n.log2)).log2 = 52 := by
    rw [log2_mul_two_pow hn]
    omega
  obtain ⟨hlo, hhi⟩ := (Nat.log2_eq_iff (by intro h0; rw [h0] at hm; cases hm)).1 hm
  have hr : UnpackedFloat.ofUInt64 Format.binary64 n.toUInt64 =
      .finite .positive (n * 2 ^ (52 - n.log2)) ((n.log2 : Int) - 52) (by omega) := by
    have hk : n.toUInt64.toNat = n := Nat.mod_eq_of_lt (by omega)
    have hc : compare (n : Int) 0 = .gt := Int.compare_eq_gt.2 (by omega)
    rw [UnpackedFloat.ofUInt64, UnpackedFloat.ofNat, UnpackedFloat.ofInt, hk,
      UnpackedFloat.normalize, hc]
    dsimp only
    rw [UnpackedFloat.round, decreaseExponent, Int.toNat_natCast, targetExponent_eq, totalExponent]
    have hs : ((0 : Int) - max ((n.log2 : Int) + 1 + 0 - 53) (-1074)).toNat = 52 - n.log2 := by
      omega
    dsimp only
    rw [hs, Nat.shiftLeft_eq, roundWithAccuracy_of_normal _ hlo hhi (by omega)]
    exact finite_congr rfl rfl (by omega)
  have hu : n.toUInt64.toFloat.toModel.unpack =
      .finite .positive (n * 2 ^ (52 - n.log2)) ((n.log2 : Int) - 52) (by omega) := by
    change (Float.Model.pack (UnpackedFloat.ofUInt64 Format.binary64 n.toUInt64)).unpack = _
    rw [hr]
    exact unpack_pack_of_normal _ hlo hhi (by omega) (by omega)
  exact ⟨_, _, _, hu, hlo, hhi, by omega, by omega⟩

theorem one_unpack : (1.0 : Float).toModel.unpack = .finite .positive (2 ^ 52) (-52) (by decide) :=
  rfl

theorem ofNat_of_lt {n : Nat} (hn : n ≠ 0) (h : n < 2 ^ 53) :
    ∃ m e h, Float.ofNat n = .ofModel (.pack (.finite .positive m e h)) ∧ 2 ^ 52 ≤ m ∧
      m < 2 ^ 53 ∧ -52 ≤ e ∧ e ≤ 0 := by
  have h' : n < 2 ^ 53 ∧ 0 ≤ 22 := ⟨h, by decide⟩
  obtain ⟨m, e, hm, hu, hlo, hhi, he, he'⟩ := toFloat_of_lt hn h
  have hs : Float.ofNat n = n.toUInt64.toFloat * 1.0 := by
    simp only [Float.ofNat, OfScientific.ofScientific, Float.ofScientific]
    rw [dif_pos h']
    rfl
  refine ⟨m, e, hm, ?_, hlo, hhi, he, he'⟩
  rw [hs]
  change Float.ofModel (.pack (mul Format.binary64 n.toUInt64.toFloat.toModel.unpack
    (1.0 : Float).toModel.unpack)) = _
  rw [hu, one_unpack, mul, ← roundWithAccuracy_of_shifted .positive hlo hhi (by omega)]
  rfl

/-- A positive natural number is a normal positive number, or out of range. -/
theorem ofNat_eq {n : Nat} (hn : n ≠ 0) : ∃ m e h,
    Float.ofNat n = .ofModel (.pack (.finite .positive m e h)) ∧ 2 ^ 52 ≤ m ∧ m < 2 ^ 53 ∧
      -52 ≤ e := by
  rcases Nat.lt_or_ge n (2 ^ 53) with h | h
  · obtain ⟨m, e, hm, h, hlo, hhi, he, -⟩ := ofNat_of_lt hn h
    exact ⟨m, e, hm, h, hlo, hhi, he⟩
  · obtain ⟨m, hm, hr, hlo, hhi⟩ := round_scaled .positive hn
    exact ⟨m, _, hm, by rw [ofNat_of_le h, hr], hlo, hhi, by omega⟩

/-- **Which natural numbers are in the range of doubles.** -/
theorem isFinite_ofNat {n : Nat} (hn : n ≠ 0) :
    (Float.ofNat n).isFinite = decide (n < 2 ^ 53 ∨ topExponent n ≤ 1023) := by
  rcases Nat.lt_or_ge n (2 ^ 53) with h | h
  · obtain ⟨m, e, hm, hf, -, -, -, he⟩ := ofNat_of_lt hn h
    rw [hf, decide_eq_true (.inl h)]
    change (Float.Model.pack _).unpack.isFinite = true
    rw [isFinite_pack]
    exact decide_eq_true (by omega)
  · obtain ⟨m, hm, hr, -⟩ := round_scaled .positive hn
    rw [ofNat_of_le h]
    change (Float.Model.pack _).unpack.isFinite = _
    rw [hr, isFinite_pack]
    exact decide_eq_decide.2 (by omega)

theorem isFinite_ofNat_of_le {a b : Nat} (h : a ≤ b) (hb : (Float.ofNat b).isFinite = true) :
    (Float.ofNat a).isFinite = true := by
  rcases Nat.eq_zero_or_pos a with rfl | ha
  · decide
  · rw [isFinite_ofNat (by omega), decide_eq_true_eq] at hb ⊢
    have := topExponent_mono h (by omega)
    omega

theorem not_lt_zero_unpack {b : BitVec Format.binary64.numBits}
    (h : Sign.ofBitVec (unpackSign b) = .positive) (s : Sign) :
    (unpack Format.binary64 b).lt (.zero s) = false := by
  rw [unpack, h]
  dsimp only
  split
  · split <;> rfl
  · split
    · split <;> rfl
    · rfl

theorem not_lt_zero_pack {m : Nat} {e : Int} (h : 0 < m) (s : Sign) :
    (Float.Model.pack (.finite .positive m e h)).unpack.lt (.zero s) = false := by
  rw [unpack_pack]
  refine not_lt_zero_unpack ?_ s
  rw [pack]
  dsimp only
  split
  · exact sign_packComponents _ _ _
  · split
    · exact sign_packComponents _ _ _
    · exact sign_packComponents _ _ _

theorem isNaN_ofNat (n : Nat) : (Float.ofNat n).isNaN = false := by
  rcases Nat.eq_zero_or_pos n with rfl | hn
  · decide
  · obtain ⟨m, e, hm, h, -⟩ := ofNat_eq (Nat.ne_of_gt hn)
    rw [h]
    exact isNaN_pack _

theorem zero_unpack : (0.0 : Float).toModel.unpack = .zero .positive := rfl

theorem not_ofNat_lt_zero (n : Nat) : (Float.ofNat n).lt 0.0 = false := by
  rcases Nat.eq_zero_or_pos n with rfl | hn
  · decide
  · obtain ⟨m, e, hm, h, -⟩ := ofNat_eq (Nat.ne_of_gt hn)
    refine decide_eq_false ?_
    change ¬(Float.ofNat n).toModel.unpack.lt (0.0 : Float).toModel.unpack = true
    rw [h, zero_unpack]
    exact Bool.not_eq_true _ ▸ not_lt_zero_pack hm .positive

/-! ## Comparison with integers -/

/-- The greatest finite double. -/
theorem isFinite_greatest : (Float.ofNat ((2 ^ 53 - 1) * 2 ^ 971)).isFinite = true := by
  decide +kernel

theorem twoPow_eq (k : Nat) : twoPow k = 2 ^ k := rfl

theorem signed_le (negative : Bool) (m : Nat) : Binary64.signed negative m ≤ m := by
  cases negative <;> simp only [Binary64.signed] <;> omega

theorem isLE_of_compare {a b : Int} (h : compare a b = .gt ∨ compare a b = .eq) : b ≤ a := by
  rcases h with h | h
  · exact Int.le_of_lt (Int.compare_eq_gt.1 h)
  · exact Int.le_of_eq (Int.compare_eq_eq.1 h).symm

theorem le_mul_two_pow (n k : Nat) : n ≤ n * 2 ^ k :=
  Nat.le_mul_of_pos_right n (Nat.two_pow_pos k)

theorem mul_two_pow_le {m q : Nat} (k : Nat) (hm : m < 2 ^ 53) (hq : q ≤ k) :
    m * 2 ^ q ≤ (2 ^ 53 - 1) * 2 ^ k :=
  Nat.mul_le_mul (Nat.le_sub_one_of_lt hm) (Nat.pow_le_pow_right (by decide) hq)

/-- An integer that is not above a finite double is not above the greatest one. -/
theorem le_greatest {negative : Bool} {m : Nat} {q : Int} {n : Nat} (hm : m < 2 ^ 53) (hq : q ≤ 971)
    (h : Binary64.compareInt (.finite negative m q) n = some .gt ∨
      Binary64.compareInt (.finite negative m q) n = some .eq) : n ≤ (2 ^ 53 - 1) * 2 ^ 971 := by
  have hs := signed_le negative m
  rw [Binary64.compareInt] at h
  rcases Int.lt_or_le q 0 with hn | hp
  · rw [if_neg (by omega), Option.some_inj, Option.some_inj] at h
    have hle := Int.le_trans (isLE_of_compare h) hs
    rw [twoPow_eq, ← Int.natCast_mul, Int.ofNat_le] at hle
    calc n ≤ n * 2 ^ (-q).toNat := le_mul_two_pow n _
      _ ≤ 2 ^ 53 - 1 := by omega
      _ ≤ (2 ^ 53 - 1) * 2 ^ 971 := le_mul_two_pow _ 971
  · rw [if_pos hp, Option.some_inj, Option.some_inj] at h
    have hle := Int.le_trans (isLE_of_compare h)
      (Int.mul_le_mul_of_nonneg_right hs (Int.natCast_nonneg (twoPow q.toNat)))
    rw [twoPow_eq, ← Int.natCast_mul, Int.ofNat_le] at hle
    have hq' : q.toNat ≤ 971 := by omega
    exact Nat.le_trans hle (mul_two_pow_le 971 hm hq')

theorem not_lt_infinity : Float.lt (1.0 / 0.0) (1.0 / 0.0) = false := by
  decide +kernel

/-- **An integer that a double below infinity reaches is in the range of doubles.** -/
theorem isFinite_of_compareInt {x : Float} {n : Nat} (hx : Float.lt x (1.0 / 0.0) = true)
    (h : Binary64.compareInt (.ofFloat x) n = some .gt ∨
      Binary64.compareInt (.ofFloat x) n = some .eq) : (Float.ofNat n).isFinite = true := by
  have hb := x.toBits.toNat_lt
  rw [Binary64.ofFloat, Binary64.ofBits] at h
  simp only [twoPow_eq, Int.ofNat_eq_natCast] at h
  by_cases h1 : x.toBits.toNat / 2 ^ 52 % 2 ^ 11 = 2047
  · simp only [h1, if_true] at h
    by_cases h2 : x.toBits.toNat % 2 ^ 52 = 0
    · simp only [h2, if_true, Binary64.compareInt] at h
      by_cases h3 : 2 ^ 63 ≤ x.toBits.toNat
      · simp only [h3, decide_true, if_true] at h
        rcases h with h | h <;> cases h
      · have hi : x = 1.0 / 0.0 := by
          refine Float.toBits_inj.1 (UInt64.toNat_inj.1 ?_)
          have : (1.0 / 0.0 : Float).toBits.toNat = 2047 * 2 ^ 52 := by decide +kernel
          omega
        rw [hi, not_lt_infinity] at hx
        cases hx
    · simp only [h2, if_false, Binary64.compareInt] at h
      rcases h with h | h <;> cases h
  · simp only [h1, if_false] at h
    have hle : n ≤ (2 ^ 53 - 1) * 2 ^ 971 := by
      by_cases h2 : x.toBits.toNat / 2 ^ 52 % 2 ^ 11 = 0
      · simp only [h2, if_true] at h
        exact le_greatest (by omega) (by omega) h
      · simp only [h2, if_false] at h
        exact le_greatest (by omega) (by omega) h
    exact isFinite_ofNat_of_le hle isFinite_greatest

theorem signed_pos {negative : Bool} {m : Nat} (h : 0 < Binary64.signed negative m) :
    negative = false ∧ 0 < m := by
  cases negative with
  | false => exact ⟨rfl, Int.natCast_pos.1 h⟩
  | true =>
    rw [Binary64.signed, if_pos rfl] at h
    omega

/-- The integer part of a positive integer is positive. -/
theorem truncate_pos {x : Binary64} {n : Int} (hx : x.isInteger = true)
    (hlt : x.compareInt 0 ≠ some .lt) (heq : x.compareInt 0 ≠ some .eq)
    (h : x.truncate = some n) : 0 < n := by
  cases x with
  | nan => cases h
  | infinite negative => cases h
  | finite negative m q =>
    rw [Binary64.truncate] at h
    rw [Binary64.compareInt, Int.zero_mul] at hlt heq
    by_cases hq : 0 ≤ q
    · rw [if_pos hq] at h hlt heq
      cases h
      rcases hc : compare (Binary64.signed negative m * (twoPow q.toNat : Int)) 0 with _ | _ | _
      · rw [hc] at hlt
        exact absurd rfl hlt
      · rw [hc] at heq
        exact absurd rfl heq
      · exact Int.compare_eq_gt.1 hc
    · rw [if_neg hq] at h hlt heq
      cases h
      have hm : 0 < Binary64.signed negative m := by
        rcases hc : compare (Binary64.signed negative m) 0 with _ | _ | _
        · rw [hc] at hlt
          exact absurd rfl hlt
        · rw [hc] at heq
          exact absurd rfl heq
        · exact Int.compare_eq_gt.1 hc
      obtain ⟨rfl, hpos⟩ := signed_pos hm
      simp only [Binary64.isInteger, hq, decide_false, Bool.false_or, decide_eq_true_eq] at hx
      have hdvd : twoPow (-q).toNat ≤ m := Nat.le_of_dvd hpos (Nat.dvd_of_mod_eq_zero hx)
      exact Int.natCast_pos.2 (Nat.div_pos hdvd (twoPow_pos _))

instance : Arithmetic.Sensible Float where
  isNaN_zero := by decide
  isNaN_one := by decide
  lt_one_zero := by decide
  lt_zero_zero := by decide
  isNaN_neg := isNaN_neg
  lt_of_isNaN {x} y h := by
    change x.toModel.unpack.isNaN = true at h
    refine decide_eq_false ?_
    change ¬x.toModel.unpack.lt y.toModel.unpack = true
    cases hx : x.toModel.unpack <;>
      simp [hx, UnpackedFloat.isNaN, UnpackedFloat.lt, UnpackedFloat.compare] at h ⊢
  isNaN_of_isFinite {x} h := by
    change x.toModel.unpack.isFinite = true at h
    change x.toModel.unpack.isNaN = false
    cases hx : x.toModel.unpack <;> simp [hx, UnpackedFloat.isFinite, UnpackedFloat.isNaN] at h ⊢
  isFinite_ofInt_one := by decide
  isNaN_ofInt {n} h := by
    obtain ⟨k, rfl⟩ := Int.eq_ofNat_of_zero_le h
    exact isNaN_ofNat k
  not_lt_ofInt {n} h := by
    obtain ⟨k, rfl⟩ := Int.eq_ofNat_of_zero_le h
    exact not_ofNat_lt_zero k
  isFinite_ofInt_of_le {m n} hm hmn h := by
    obtain ⟨j, rfl⟩ := Int.eq_ofNat_of_zero_le hm
    obtain ⟨k, rfl⟩ := Int.eq_ofNat_of_zero_le (Int.le_trans hm hmn)
    exact isFinite_ofNat_of_le (Int.ofNat_le.1 hmn) h
  isFinite_ofInt_of_compareInt {x n} hn hx h := by
    obtain ⟨k, rfl⟩ := Int.eq_ofNat_of_zero_le hn
    exact isFinite_of_compareInt hx h
  truncate_pos hx hlt heq h := truncate_pos hx hlt heq h

end Double

end MixedInteger
