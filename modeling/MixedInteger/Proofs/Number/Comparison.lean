import MixedInteger.Proofs.Number.Decoding
import MixedInteger.Proofs.Number.Extended
import MixedInteger.Number.Scalar

/-!
# Laws of comparisons

## What is here

* `Arithmetic.Comparable` — numbers are in order, one way or the other, and doubles and exact
  numbers are.
* `Arithmetic.KeepsIntegers` — an integer that is large enough to be kept as a coefficient still is
  as a number, and doubles have this law.
-/

set_option autoImplicit false

namespace MixedInteger

/-- Numbers are equal to themselves and in order, one way or the other. -/
class Arithmetic.Comparable (K : Type) [Arithmetic K] : Prop where
  eq_self {x : K} : isNaN x = false → eq x x = true
  eq_comm (x y : K) : eq x y = eq y x
  le_of_not_lt {x y : K} : isNaN x = false → isNaN y = false → lt y x = false → le x y = true

/-- An integer that is large enough to be kept as a coefficient still is as a number. -/
class Arithmetic.KeepsIntegers (K : Type) [Arithmetic K] : Prop where
  significant_one : significant (one : K) = true
  significant_ofInt {n : Int} : (Scalar.integer n : Scalar K).significant = true →
    isFinite (ofInt n : K) = true → significant (ofInt n : K) = true

namespace Double

open Float.Model (UnpackedFloat Format)
open Float.Model.UnpackedFloat

theorem swap_magnitude (m n : Nat) (d e : Int) :
    ((compare d e).then (compare m n)).swap = (compare e d).then (compare n m) := by
  rw [Ordering.swap_then, Int.compare_swap, Nat.compare_swap]

/-- Of two magnitudes one is not greater than the other. -/
theorem isLE_of_ne_lt {m n : Nat} {d e : Int} (h : (compare e d).then (compare n m) ≠ .lt) :
    ((compare d e).then (compare m n)).isLE := by
  rw [← swap_magnitude] at h
  revert h
  cases (compare d e).then (compare m n) <;> decide

theorem le_of_not_lt {f g : UnpackedFloat} (hf : f.isNaN = false) (hg : g.isNaN = false)
    (h : g.lt f = false) : f.le g = true := by
  cases f with
  | notANumber => cases hf
  | infinity s =>
    cases g with
    | notANumber => cases hg
    | infinity t => cases s <;> cases t <;> first | rfl | cases h
    | zero t => cases s <;> first | rfl | cases h
    | finite t n e => cases s <;> first | rfl | cases h
  | zero s =>
    cases g with
    | notANumber => cases hg
    | infinity t => cases t <;> first | rfl | cases h
    | zero t => rfl
    | finite t n e => cases t <;> first | rfl | cases h
  | finite s m d =>
    cases g with
    | notANumber => cases hg
    | infinity t => cases t <;> first | rfl | cases h
    | zero t => cases s <;> first | rfl | cases h
    | finite t n e =>
      rw [UnpackedFloat.lt, beq_eq_false_iff_ne] at h
      cases s <;> cases t
      · have hlt : (compare d e).then (compare m n) ≠ .lt := by
          rw [← swap_magnitude n m]
          exact fun hlt => h (congrArg some hlt)
        have hle := isLE_of_ne_lt hlt
        rw [← swap_magnitude m n] at hle
        exact hle
      · rfl
      · exact absurd rfl h
      · exact isLE_of_ne_lt fun hlt => h (congrArg some hlt)

instance : Arithmetic.Comparable Float where
  eq_self {x} h := by
    change x.toModel.unpack.beq x.toModel.unpack = true
    change x.toModel.unpack.isNaN = false at h
    rw [beq_iff_ne_notANumber_and_eq]
    have hne : x.toModel.unpack ≠ .notANumber := by
      intro hx
      rw [hx] at h
      cases h
    exact ⟨hne, hne, .inl rfl⟩
  eq_comm x y := by
    change x.toModel.unpack.beq y.toModel.unpack = y.toModel.unpack.beq x.toModel.unpack
    rw [Bool.eq_iff_iff, beq_iff_ne_notANumber_and_eq, beq_iff_ne_notANumber_and_eq]
    constructor
    · rintro ⟨hx, hy, h | h | h⟩
      · exact ⟨hy, hx, .inl h.symm⟩
      · exact ⟨hy, hx, .inr (.inr h.symm)⟩
      · exact ⟨hy, hx, .inr (.inl h.symm)⟩
    · rintro ⟨hx, hy, h | h | h⟩
      · exact ⟨hy, hx, .inl h.symm⟩
      · exact ⟨hy, hx, .inr (.inr h.symm)⟩
      · exact ⟨hy, hx, .inr (.inl h.symm)⟩
  le_of_not_lt {x y} hx hy h := by
    refine decide_eq_true (le_of_not_lt (f := x.toModel.unpack) hx hy ?_)
    exact Bool.eq_false_iff.2 fun h' => of_decide_eq_false h h'

/-! ## Integers as coefficients -/

theorem tolerance_unpack :
    (1e-15 : Float).toModel.unpack = .finite .positive 5070602400912918 (-102) (by decide) := rfl

/-- A positive natural number in the range of doubles is above the tolerance. -/
theorem tolerance_lt_ofNat {n : Nat} (hn : n ≠ 0) (h : (Float.ofNat n).isFinite = true) :
    (1e-15 : Float).toModel.unpack.lt (Float.ofNat n).toModel.unpack.abs = true := by
  obtain ⟨m, e, hm, hf, hlo, hhi, he⟩ := ofNat_eq hn
  rw [hf] at h ⊢
  change (Float.Model.pack _).unpack.isFinite = true at h
  rw [isFinite_pack, decide_eq_true_eq] at h
  have hexp : compare (-102 : Int) e = .lt := Int.compare_eq_lt.2 (by omega)
  change (1e-15 : Float).toModel.unpack.lt (Float.Model.pack _).unpack.abs = true
  rw [unpack_pack_of_normal .positive hlo hhi (by omega) h, tolerance_unpack]
  change (some ((compare (-102 : Int) e).then (compare 5070602400912918 m)) == some .lt) = true
  rw [hexp]
  rfl

theorem unpack_ofInt (n : Int) : (Float.ofInt n).toModel.unpack = if n < 0 then
    (Float.ofNat n.natAbs).toModel.unpack.neg else (Float.ofNat n.natAbs).toModel.unpack := by
  cases n with
  | ofNat k => rw [if_neg (by simp)]; rfl
  | negSucc k => rw [if_pos (Int.negSucc_lt_zero k)]; exact unpack_neg _

theorem significant_eq (x : Float) : Arithmetic.significant x =
    (1e-15 : Float).toModel.unpack.lt x.toModel.unpack.abs := by
  rw [← unpack_abs]
  exact Bool.eq_iff_iff.2 decide_eq_true_iff

instance : Arithmetic.KeepsIntegers Float where
  significant_one := by decide
  significant_ofInt {n} h hfinite := by
    have hn : n.natAbs ≠ 0 := by
      intro h0
      rw [Scalar.significant, h0] at h
      revert h
      decide
    change (Float.ofInt n).toModel.unpack.isFinite = true at hfinite
    have hf : (Float.ofNat n.natAbs).isFinite = true := by
      change (Float.ofNat n.natAbs).toModel.unpack.isFinite = true
      rw [← hfinite, unpack_ofInt]
      split
      · cases (Float.ofNat n.natAbs).toModel.unpack <;> rfl
      · rfl
    refine Eq.trans ?_ (tolerance_lt_ofNat hn hf)
    rw [significant_eq]
    change (1e-15 : Float).toModel.unpack.lt (Float.ofInt n).toModel.unpack.abs = _
    rw [unpack_ofInt]
    split
    · cases (Float.ofNat n.natAbs).toModel.unpack <;> rfl
    · rfl

end Double

namespace Extended

variable {F : Type} [Field F] [LinearOrder F] [FloorRing F] [ToString F] [Tolerance F]

instance : Arithmetic.Comparable (Extended F) where
  eq_self {x} h := by
    rcases x with _ | n | x
    · cases h
    · exact decide_eq_true rfl
    · exact decide_eq_true rfl
  eq_comm x y := by
    rcases x with _ | m | x <;> rcases y with _ | n | y
    · rfl
    · rfl
    · rfl
    · rfl
    · exact decide_eq_decide.2 eq_comm
    · rfl
    · rfl
    · rfl
    · exact decide_eq_decide.2 eq_comm
  le_of_not_lt {x y} hx hy h := by
    rcases x with _ | m | x <;> rcases y with _ | n | y
    · cases hx
    · cases hx
    · cases hx
    · cases hy
    · cases m <;> cases n <;> first | rfl | cases h
    · cases m <;> first | rfl | cases h
    · cases hy
    · cases n <;> first | rfl | cases h
    · exact decide_eq_true (not_lt.1 (of_decide_eq_false h))

end Extended

end MixedInteger
