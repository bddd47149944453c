import MixedInteger.Proofs.Number.Comparison
import MixedInteger.Proofs.Number.Mantissa

/-!
# Rounded doubles

A sum or a product of doubles is the exact sum or product of the numbers that they are, rounded to
the nearest double.  Doubles are compared by their exponents first and by their mantissas then,
which is the order of these numbers because the mantissas are canonical.

## What is here

* `Double.isUnpacked_unpack` — the mantissas and the exponents of doubles are canonical.
* `Double.number_mul`, `Double.number_add` — **products and sums are rounded to the nearest**.
* `Double.compare_magnitude`, `Double.number_order` — **doubles are compared like the numbers that
  they are**.
* `Double.rounding` — doubles are numbers of which each sum and each product is rounded.
-/

set_option autoImplicit false

namespace MixedInteger

namespace Double

open Float.Model (UnpackedFloat Format totalExponent)
open Float.Model.UnpackedFloat

/-! ## Canonical mantissas -/

/-- The mantissa and the exponent are those of a double. -/
def IsUnpacked : UnpackedFloat → Prop
  | .finite _ m e _ => IsCanonical m e
  | _ => True

theorem isUnpacked_unpack (b : BitVec Format.binary64.numBits) :
    IsUnpacked (unpack Format.binary64 b) := by
  have hmantissa : (unpackMantissa b).toNat < 2 ^ 52 := (unpackMantissa b).isLt
  rw [unpack]
  dsimp only
  split
  · split <;> trivial
  split
  next hsmall =>
    split
    · trivial
    · have hexponent : (unpackExponent b).toNat = 0 := congrArg BitVec.toNat hsmall
      refine ⟨by omega, ?_, .inr ?_⟩ <;> rw [hexponent] <;> rfl
  next hsmall =>
    have hexponent : (unpackExponent b).toNat ≠ 0 := fun h => hsmall (BitVec.toNat_inj.1 h)
    have hnormal := one_append_unpackMantissa_toNat b
    have hbias : (Format.binary64.exponentBias : ℤ) = 1023 := rfl
    have hbits : (Format.binary64.mantissaBitsWithoutImplicit : ℤ) = 52 := rfl
    refine ⟨?_, ?_, .inl ?_⟩ <;> omega

/-- A multiple of the power of two that it is rounded to a multiple of is not changed. -/
theorem nearestMagnitude_of_isCanonical {m : ℕ} {e : ℤ} (h : 0 < m) (hc : IsCanonical m e) :
    nearestMagnitude (m * 2 ^ e) = m * 2 ^ e := by
  obtain ⟨hm, he, -⟩ := hc
  have hlog : m.log2 < 53 := (Nat.log2_lt h.ne').2 hm
  have hgrid : gridExponent (m * 2 ^ e) ≤ e := by
    rw [gridExponent_eq h, totalExponent]
    omega
  have hpos : (2 : ℚ) ^ gridExponent (m * 2 ^ e) ≠ 0 := by positivity
  have hmultiple : (m : ℚ) * 2 ^ e =
      (m * 2 ^ (e - gridExponent (m * 2 ^ e)).toNat : ℕ) * 2 ^ gridExponent (m * 2 ^ e) := by
    conv_lhs => rw [zpow_eq_mul_zpow hgrid]
    push_cast
    ring
  have hquotient : (m : ℚ) * 2 ^ e / 2 ^ gridExponent (m * 2 ^ e) =
      (m * 2 ^ (e - gridExponent (m * 2 ^ e)).toNat : ℕ) := (div_eq_iff hpos).2 hmultiple
  rw [nearestMagnitude, hquotient, roundEven_natCast]
  exact hmultiple.symm

/-! ## Signs -/

theorem signed_nan (s : Sign) : signed s .nan = .nan := by
  cases s <;> rfl

theorem signed_mul_signed (s t : Sign) (x y : Extended ℚ) :
    signed s x * signed t y = signed (s * t) (x * y) := by
  cases s <;> cases t <;>
    first | rfl | exact neg_mul_neg x y | exact neg_mul x y | exact mul_neg x y

/-- A number with a sign is rounded like the number without. -/
theorem rounded_signed (s : Sign) {q : ℚ} (h : 0 < q) :
    (signed s (.finite q)).rounded nearest = signed s (inRange (nearestMagnitude q)) := by
  cases s with
  | positive => exact if_neg h.not_gt
  | negative =>
    change nearest (-q) = _
    rw [nearest, if_pos (neg_lt_zero.2 h), neg_neg]
    rfl

theorem unpack_pack_infinity (s : Sign) :
    (Float.Model.pack (.infinity s)).unpack = .infinity s := by
  cases s <;> rfl

theorem rounded_infinity (s : Sign) :
    (signed s (.infinite false)).rounded nearest = signed s (.infinite false) := by
  cases s <;> rfl

theorem nearest_zero : nearest 0 = .finite 0 := by
  rw [nearest, if_neg (lt_irrefl 0), nearestMagnitude_zero]
  exact if_pos (by positivity)

/-- A double that is packed is rounded to itself. -/
theorem number_pack_rounded {f : UnpackedFloat} (hf : IsUnpacked f) :
    number (Float.Model.pack f).unpack = (number f).rounded nearest := by
  rcases f with s | _ | s | ⟨s, m, e, h⟩
  · rw [unpack_pack_infinity, number_infinity, rounded_infinity]
  · rfl
  · rw [unpack_pack_zero, number_zero]
    exact nearest_zero.symm
  · rw [number_pack s h hf, number_finite, rounded_signed s (by positivity),
      nearestMagnitude_of_isCanonical h hf]

/-! ## Products -/

/-- The exponent of a product of doubles is not above the one that it is shifted to. -/
theorem add_le_gridExponent {m n : ℕ} {d e : ℤ} (hm : 0 < m) (hn : 0 < n) (hf : IsCanonical m d)
    (hg : IsCanonical n e) : d + e ≤ gridExponent ((m * n : ℕ) * 2 ^ (d + e)) := by
  obtain ⟨-, -, hm'⟩ := hf
  obtain ⟨-, -, hn'⟩ := hg
  rw [gridExponent_eq (Nat.mul_pos hm hn), totalExponent]
  -- with one normal factor the product has fifty-three digits, and without it is below all doubles
  by_cases hnormal : 2 ^ 52 ≤ m ∨ 2 ^ 52 ≤ n
  · have hle : 2 ^ 52 ≤ m * n := by
      rcases hnormal with h | h
      · exact h.trans (Nat.le_mul_of_pos_right m hn)
      · exact h.trans (Nat.le_mul_of_pos_left n hm)
    have hlog : 52 ≤ (m * n).log2 := (Nat.le_log2 (Nat.mul_pos hm hn).ne').2 hle
    omega
  · omega

/-- **A product is rounded to the nearest.** -/
theorem number_mul {f g : UnpackedFloat} (hf : IsUnpacked f) (hg : IsUnpacked g) :
    number (Float.Model.pack (f.mul Format.binary64 g)).unpack =
      (number f * number g).rounded nearest := by
  rcases f with s | _ | s | ⟨s, m, d, hm⟩ <;> rcases g with t | _ | t | ⟨t, n, e, hn⟩
  case infinity.infinity =>
    rw [UnpackedFloat.mul, unpack_pack_infinity, number_infinity, number_infinity, number_infinity,
      signed_mul_signed]
    exact (rounded_infinity _).symm
  case infinity.finite =>
    rw [UnpackedFloat.mul, unpack_pack_infinity, number_infinity, number_infinity, number_finite,
      signed_mul_signed, Extended.infinite_mul_finite, Extended.scaleInfinity_pos _ (by positivity),
      rounded_infinity]
  case finite.infinity =>
    rw [UnpackedFloat.mul, unpack_pack_infinity, number_infinity, number_infinity, number_finite,
      signed_mul_signed, Extended.finite_mul_infinite, Extended.scaleInfinity_pos _ (by positivity),
      rounded_infinity]
  case finite.finite =>
    rw [UnpackedFloat.mul, number_roundWithAccuracy _ (Nat.mul_pos hm hn)
      (add_le_gridExponent hm hn hf hg), number_finite, number_finite, signed_mul_signed,
      Extended.finite_mul, rounded_signed _ (by positivity), zpow_add₀ two_ne_zero, Nat.cast_mul,
      mul_mul_mul_comm]
  case infinity.zero =>
    rw [number_infinity, number_zero, ← signed_zero t, signed_mul_signed,
      Extended.infinite_mul_finite, Extended.scaleInfinity, if_pos rfl, signed_nan,
      UnpackedFloat.mul]
    rfl
  case zero.infinity =>
    rw [number_infinity, number_zero, ← signed_zero s, signed_mul_signed,
      Extended.finite_mul_infinite, Extended.scaleInfinity, if_pos rfl, signed_nan,
      UnpackedFloat.mul]
    rfl
  case finite.zero =>
    rw [UnpackedFloat.mul, unpack_pack_zero, number_zero, number_zero, number_finite,
      ← signed_zero t, signed_mul_signed, Extended.finite_mul, mul_zero, signed_zero, signed_zero]
    exact nearest_zero.symm
  case zero.finite =>
    rw [UnpackedFloat.mul, unpack_pack_zero, number_zero, number_zero, number_finite,
      ← signed_zero s, signed_mul_signed, Extended.finite_mul, zero_mul, signed_zero, signed_zero]
    exact nearest_zero.symm
  case zero.zero =>
    rw [UnpackedFloat.mul, unpack_pack_zero, number_zero, number_zero, number_zero,
      Extended.finite_mul, zero_mul]
    exact nearest_zero.symm
  -- what is left has a factor that is not a number
  all_goals
    simp only [UnpackedFloat.mul]
    rfl

/-! ## Sums -/

theorem number_finite_apply (s : Sign) {m : ℕ} {e : ℤ} (h : 0 < m) :
    number (.finite s m e h) = .finite ((s.apply m : ℤ) * 2 ^ e) := by
  cases s with
  | positive => rfl
  | negative =>
    refine congrArg Extended.finite ?_
    change -((m : ℚ) * 2 ^ e) = ((-(m : ℤ) : ℤ) : ℚ) * 2 ^ e
    push_cast
    exact (neg_mul _ _).symm

/-- A mantissa with a sign is rounded to the nearest. -/
theorem number_normalize (m e : ℤ) (z : Sign) :
    number (Float.Model.pack (normalize Format.binary64 m e z)).unpack = nearest (m * 2 ^ e) := by
  have hround : ∀ (s : Sign) (n : ℕ), 0 < n →
      number (Float.Model.pack (UnpackedFloat.round Format.binary64 s n e)).unpack =
        nearest ((s.apply n : ℤ) * 2 ^ e) := by
    intro s n hn
    rw [number_round s hn, ← rounded_signed s (by positivity), ← number_finite s hn,
      number_finite_apply s hn, Extended.rounded]
  rw [UnpackedFloat.normalize]
  rcases lt_trichotomy m 0 with h | rfl | h
  · obtain ⟨n, rfl⟩ : ∃ n : ℕ, m = -n := ⟨m.natAbs, by omega⟩
    rw [Int.compare_eq_lt.2 h]
    dsimp only
    rw [neg_neg, Int.toNat_natCast]
    exact hround .negative n (by omega)
  · rw [Int.compare_eq_eq.2 rfl]
    dsimp only
    rw [unpack_pack_zero, number_zero, Int.cast_zero, zero_mul, nearest_zero]
  · obtain ⟨n, rfl⟩ : ∃ n : ℕ, m = n := ⟨m.natAbs, by omega⟩
    rw [Int.compare_eq_gt.2 h]
    dsimp only
    rw [Int.toNat_natCast]
    exact hround .positive n (by omega)

/-- A smaller exponent does not change the number. -/
theorem apply_decreaseExponent (s : Sign) (m : ℕ) {d e : ℤ} (h : e ≤ d) :
    ((s.apply (decreaseExponent m d e).1 : ℤ) : ℚ) * 2 ^ e = (s.apply m : ℤ) * 2 ^ d := by
  rw [decreaseExponent, Nat.shiftLeft_eq, zpow_eq_mul_zpow h]
  cases s <;> simp only [Sign.apply] <;> push_cast <;> ring

/-- **A sum is rounded to the nearest.** -/
theorem number_add {f g : UnpackedFloat} (hf : IsUnpacked f) (hg : IsUnpacked g) :
    number (Float.Model.pack (f.add Format.binary64 g)).unpack =
      (number f + number g).rounded nearest := by
  rcases f with s | _ | s | ⟨s, m, d, hm⟩ <;> rcases g with t | _ | t | ⟨t, n, e, hn⟩
  case infinity.infinity => cases s <;> cases t <;> rfl
  case infinity.zero =>
    simp only [UnpackedFloat.add]
    cases s <;> rfl
  case infinity.finite =>
    simp only [UnpackedFloat.add]
    cases s <;> rfl
  case zero.infinity =>
    simp only [UnpackedFloat.add]
    cases t <;> rfl
  case finite.infinity =>
    simp only [UnpackedFloat.add]
    cases t <;> rfl
  case zero.zero =>
    rw [UnpackedFloat.add, number_zero, number_zero, Extended.finite_add, add_zero,
      Extended.rounded, nearest_zero]
    split <;> rw [unpack_pack_zero, number_zero]
  case zero.finite =>
    simp only [UnpackedFloat.add]
    rw [number_pack_rounded hg, number_zero, ← Extended.zero_def, zero_add]
  case finite.zero =>
    simp only [UnpackedFloat.add]
    rw [number_pack_rounded hf, number_zero, ← Extended.zero_def, add_zero]
  case finite.finite =>
    rw [UnpackedFloat.add]
    dsimp only
    rw [number_normalize, number_finite_apply, number_finite_apply, Extended.finite_add,
      Int.cast_add, add_mul, apply_decreaseExponent s m (min_le_left d e),
      apply_decreaseExponent t n (min_le_right d e)]
    rfl
  -- what is left has a summand that is not a number
  all_goals
    simp only [UnpackedFloat.add]
    rfl

/-! ## Order -/

/-- Of two doubles the one with the smaller exponent is smaller. -/
theorem magnitude_lt {m n : ℕ} {d e : ℤ} (hm : IsCanonical m d) (hn : IsCanonical n e)
    (h : d < e) : (m : ℚ) * 2 ^ d < n * 2 ^ e := by
  have hlo : (2 : ℚ) ^ 52 ≤ n := by
    have := hn.2.2.resolve_right (by have := hm.2.1; omega)
    exact_mod_cast this
  have hhi : (m : ℚ) < 2 ^ 53 := by exact_mod_cast hm.1
  calc (m : ℚ) * 2 ^ d < 2 ^ 53 * 2 ^ d := mul_lt_mul_of_pos_right hhi (by positivity)
    _ = 2 ^ 52 * 2 ^ (d + 1) := by rw [zpow_add_one₀ two_ne_zero]; ring
    _ ≤ 2 ^ 52 * 2 ^ e :=
      mul_le_mul_of_nonneg_left (zpow_le_zpow_right₀ one_le_two h) (by positivity)
    _ ≤ n * 2 ^ e := mul_le_mul_of_nonneg_right hlo (by positivity)

/-- **Exponents first and mantissas then** are the order of the numbers. -/
theorem compare_magnitude {m n : ℕ} {d e : ℤ} (hm : IsCanonical m d) (hn : IsCanonical n e) :
    (compare d e).then (compare m n) = compare ((m : ℚ) * 2 ^ d) (n * 2 ^ e) := by
  rcases lt_trichotomy d e with h | rfl | h
  · rw [Int.compare_eq_lt.2 h, compare_lt_iff_lt.2 (magnitude_lt hm hn h)]
    rfl
  · rw [Int.compare_eq_eq.2 rfl]
    have hpos : (0 : ℚ) < 2 ^ d := by positivity
    rw [← cmp_eq_compare (_ * _), cmp_mul_pos_right hpos, Nat.strictMono_cast.cmp_map_eq,
      cmp_eq_compare]
    rfl
  · rw [Int.compare_eq_gt.2 h, compare_gt_iff_gt.2 (magnitude_lt hn hm h)]
    rfl

/-- Finite doubles are compared like the numbers that they are. -/
theorem compare_eq {f g : UnpackedFloat} (hf : IsUnpacked f) (hg : IsUnpacked g) {p q : ℚ}
    (hp : number f = .finite p) (hq : number g = .finite q) :
    f.compare g = some (compare p q) := by
  have hpos : ∀ {m : ℕ} {e : ℤ}, 0 < m → (0 : ℚ) < m * 2 ^ e := by
    intro m e h
    positivity
  rcases f with s | _ | s | ⟨s, m, d, hm⟩ <;> rcases g with t | _ | t | ⟨t, n, e, hn⟩
  case zero.zero =>
    obtain rfl := Extended.finite.inj ((number_zero s).symm.trans hp)
    obtain rfl := Extended.finite.inj ((number_zero t).symm.trans hq)
    rfl
  case zero.finite =>
    obtain rfl := Extended.finite.inj ((number_zero s).symm.trans hp)
    cases t
    · obtain rfl := Extended.finite.inj hq
      exact congrArg some (compare_gt_iff_gt.2 (neg_lt_zero.2 (hpos hn))).symm
    · obtain rfl := Extended.finite.inj hq
      exact congrArg some (compare_lt_iff_lt.2 (hpos hn)).symm
  case finite.zero =>
    obtain rfl := Extended.finite.inj ((number_zero t).symm.trans hq)
    cases s
    · obtain rfl := Extended.finite.inj hp
      exact congrArg some (compare_lt_iff_lt.2 (neg_lt_zero.2 (hpos hm))).symm
    · obtain rfl := Extended.finite.inj hp
      exact congrArg some (compare_gt_iff_gt.2 (hpos hm)).symm
  case finite.finite =>
    have hm' := hpos (e := d) hm
    have hn' := hpos (e := e) hn
    cases s <;> cases t <;> obtain rfl := Extended.finite.inj hp <;>
      obtain rfl := Extended.finite.inj hq
    · change some ((compare d e).then (compare m n)).swap = _
      rw [swap_magnitude, compare_magnitude hg hf]
      rw [← cmp_eq_compare, ← cmp_eq_compare]
      exact congrArg some (StrictAnti.cmp_map_eq (fun _ _ => neg_lt_neg) _ _).symm
    · exact congrArg some (compare_lt_iff_lt.2 ((neg_lt_zero.2 hm').trans hn')).symm
    · exact congrArg some (compare_gt_iff_gt.2 ((neg_lt_zero.2 hn').trans hm')).symm
    · exact congrArg some (compare_magnitude hf hg)
  all_goals first | (cases hp; done) | cases hq

/-- **Doubles are compared like the numbers that they are.** -/
theorem number_order {f g : UnpackedFloat} (hf : IsUnpacked f) (hg : IsUnpacked g) :
    f.lt g = (number f).lt (number g) ∧ f.le g = (number f).le (number g) := by
  have hfinite : ∀ {p q : ℚ}, number f = .finite p → number g = .finite q →
      f.lt g = (number f).lt (number g) ∧ f.le g = (number f).le (number g) := by
    intro p q hp hq
    rw [UnpackedFloat.lt, UnpackedFloat.le, compare_eq hf hg hp hq, hp, hq]
    change (some (compare p q) == some .lt) = decide (p < q) ∧ (compare p q).isLE = decide (p ≤ q)
    rcases lt_trichotomy p q with h | rfl | h
    · rw [compare_lt_iff_lt.2 h, decide_eq_true h, decide_eq_true h.le]
      exact ⟨rfl, rfl⟩
    · rw [compare_eq_iff_eq.2 rfl, decide_eq_false (lt_irrefl p), decide_eq_true le_rfl]
      exact ⟨rfl, rfl⟩
    · rw [compare_gt_iff_gt.2 h, decide_eq_false h.not_gt, decide_eq_false h.not_ge]
      exact ⟨rfl, rfl⟩
  rcases f with s | _ | s | ⟨s, m, d, hm⟩ <;> rcases g with t | _ | t | ⟨t, n, e, hn⟩
  case zero.zero => exact hfinite rfl rfl
  case zero.finite => exact hfinite rfl rfl
  case finite.zero => exact hfinite rfl rfl
  case finite.finite => exact hfinite rfl rfl
  case infinity.infinity => cases s <;> cases t <;> exact ⟨rfl, rfl⟩
  case infinity.zero => cases s <;> exact ⟨rfl, rfl⟩
  case infinity.finite => cases s <;> exact ⟨rfl, rfl⟩
  case zero.infinity => cases t <;> exact ⟨rfl, rfl⟩
  case finite.infinity => cases t <;> cases s <;> exact ⟨rfl, rfl⟩
  -- what is left has a double that is not a number
  all_goals exact ⟨rfl, rfl⟩

/-! ## Rounding -/

theorem lt_eq (x y : Float) : Float.lt x y = (x.toModel.unpack.lt y.toModel.unpack : Bool) :=
  Bool.eq_iff_iff.2 decide_eq_true_iff

theorem le_eq (x y : Float) : Float.le x y = (x.toModel.unpack.le y.toModel.unpack : Bool) :=
  Bool.eq_iff_iff.2 decide_eq_true_iff

/-- A coefficient has a sign. -/
theorem pos_or_neg {c : Float} (h : Arithmetic.significant c = true) :
    Float.lt 0.0 c = true ∨ Float.lt c 0.0 = true := by
  rw [significant_eq] at h
  rw [lt_eq, lt_eq, zero_unpack]
  rcases hc : c.toModel.unpack with s | _ | s | ⟨s, m, e, hm⟩ <;> rw [hc] at h
  · cases s
    · exact .inr rfl
    · exact .inl rfl
  · cases h
  · cases h
  · cases s
    · exact .inr rfl
    · exact .inl rfl

/-- **Doubles are numbers of which each sum and each product is rounded** to the nearest. -/
def rounding : Arithmetic.Rounding Float ℚ where
  exact x := (Binary64.ofFloat x).exact
  round := nearest
  round_mono := nearest_mono
  exact_add x y := by
    rw [number_eq, number_eq, number_eq]
    exact number_add (isUnpacked_unpack _) (isUnpacked_unpack _)
  exact_mul x y := by
    rw [number_eq, number_eq, number_eq]
    exact number_mul (isUnpacked_unpack _) (isUnpacked_unpack _)
  exact_zero := exact_zero
  le_eq x y := by
    rw [number_eq, number_eq]
    exact (le_eq x y).trans (number_order (isUnpacked_unpack _) (isUnpacked_unpack _)).2
  lt_eq x y := by
    rw [number_eq, number_eq]
    exact (lt_eq x y).trans (number_order (isUnpacked_unpack _) (isUnpacked_unpack _)).1
  isNaN_eq_false_iff {x} := by
    rw [number_eq]
    change x.toModel.unpack.isNaN = false ↔ _
    cases x.toModel.unpack with
    | notANumber => exact ⟨nofun, fun h => absurd rfl h⟩
    | infinity s => exact ⟨fun _ => nofun, fun _ => rfl⟩
    | zero s => exact ⟨fun _ => nofun, fun _ => rfl⟩
    | finite s m e h => exact ⟨fun _ => nofun, fun _ => rfl⟩
  isFinite_iff {x} := by
    rw [number_eq]
    change x.toModel.unpack.isFinite = true ↔ _
    cases x.toModel.unpack with
    | notANumber => exact ⟨nofun, fun ⟨_, h⟩ => nomatch h⟩
    | infinity s => exact ⟨nofun, fun ⟨_, h⟩ => nomatch h⟩
    | zero s => exact ⟨fun _ => ⟨_, rfl⟩, fun _ => rfl⟩
    | finite s m e h => exact ⟨fun _ => ⟨_, rfl⟩, fun _ => rfl⟩
  pos_or_neg := pos_or_neg

end Double

end MixedInteger
