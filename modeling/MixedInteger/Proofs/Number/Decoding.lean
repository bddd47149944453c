import MixedInteger.Proofs.Number.Laws

/-!
# Doubles decoded

The bits of a double are decoded in two ways: by the operations on doubles, and by the exact
questions that a model asks.  This file proves that the two agree, and what the second kind sees of
a negated double and of a double to which zero is added.

## What is here

* `Binary64.ofUnpacked`, `Double.ofFloat_eq` — the two ways to decode agree.
* `Double.ofFloat_neg`, `Double.ofFloat_abs` — the negative and the magnitude differ in the sign
  only.
* `Double.unpack_add_zero`, `Double.unpack_zero_add` — adding zero changes nothing but a negative
  zero.
-/

set_option autoImplicit false

namespace MixedInteger

namespace Binary64

open Float.Model (UnpackedFloat)

/-- The exact form of a double that an operation has taken apart. -/
def ofUnpacked : UnpackedFloat → Binary64
  | .notANumber => nan
  | .infinity s => infinite (s == .negative)
  | .zero s => finite (s == .negative) 0 (-1074)
  | .finite s m e _ => finite (s == .negative) m e

/-- The negative. -/
def neg : Binary64 → Binary64
  | nan => nan
  | infinite negative => infinite !negative
  | finite negative m q => finite (!negative) m q

/-- The magnitude. -/
def abs : Binary64 → Binary64
  | nan => nan
  | infinite _ => infinite false
  | finite _ m q => finite false m q

theorem ofUnpacked_abs (f : UnpackedFloat) : ofUnpacked f.abs = (ofUnpacked f).abs := by
  cases f <;> rfl

theorem ofUnpacked_neg (f : UnpackedFloat) : ofUnpacked f.neg = (ofUnpacked f).neg := by
  rcases f with s | _ | s | s
  · cases s <;> rfl
  · rfl
  · cases s <;> rfl
  · cases s <;> rfl

end Binary64

namespace Double

open Float.Model (UnpackedFloat Format)
open Float.Model.UnpackedFloat

variable (b : BitVec Format.binary64.numBits)

/-! ## The parts of a double -/

theorem unpackExponent_toNat : (unpackExponent b).toNat = b.toNat / 2 ^ 52 % 2 ^ 11 := by
  rw [unpackExponent_def, BitVec.extractLsb'_toNat, Nat.shiftRight_eq_div_pow]

theorem unpackMantissa_toNat : (unpackMantissa b).toNat = b.toNat % 2 ^ 52 := by
  rw [unpackMantissa_def, BitVec.extractLsb'_toNat, Nat.shiftRight_zero]

/-- A normal mantissa has one more bit than is written down. -/
theorem one_append_unpackMantissa_toNat :
    (1#1 ++ unpackMantissa b).toNat = 2 ^ 52 + (unpackMantissa b).toNat := by
  have hor := Nat.shiftLeft_add_eq_or_of_lt (unpackMantissa b).isLt 1
  rw [BitVec.toNat_append, BitVec.toNat_ofNat]
  exact hor.symm.trans rfl

theorem isNegative_unpackSign :
    (Sign.ofBitVec (unpackSign b) == .negative) = decide (2 ^ 63 ≤ b.toNat) := by
  have hb : b.toNat < 2 ^ 64 := b.isLt
  have hs : (unpackSign b).toNat = b.toNat / 2 ^ 63 % 2 := by
    rw [unpackSign_def, BitVec.extractLsb'_toNat, Nat.shiftRight_eq_div_pow]
    rfl
  have hiff : unpackSign b = 0#1 ↔ ¬2 ^ 63 ≤ b.toNat := by
    rw [← BitVec.toNat_inj, hs, BitVec.toNat_ofNat]
    omega
  by_cases h : 2 ^ 63 ≤ b.toNat
  · rw [Sign.ofBitVec, if_neg (fun h0 => hiff.1 h0 h), decide_eq_true h]
    rfl
  · rw [Sign.ofBitVec, if_pos (hiff.2 h), decide_eq_false h]
    rfl

/-- The two ways to decode agree. -/
theorem ofBits_eq : Binary64.ofBits b.toNat = .ofUnpacked (unpack Format.binary64 b) := by
  have hinfinite : unpackExponent b = -1#11 ↔ (unpackExponent b).toNat = 2047 :=
    BitVec.toNat_inj.symm
  have hsmall : unpackExponent b = 0#11 ↔ (unpackExponent b).toNat = 0 := BitVec.toNat_inj.symm
  have hzero : unpackMantissa b = 0#52 ↔ (unpackMantissa b).toNat = 0 := BitVec.toNat_inj.symm
  have hnormal := one_append_unpackMantissa_toNat b
  have hsign := isNegative_unpackSign b
  simp only [Binary64.ofBits, unpack, twoPow_eq, ← unpackExponent_toNat, ← unpackMantissa_toNat]
  by_cases hi : (unpackExponent b).toNat = 2047
  · rw [if_pos hi, if_pos (hinfinite.2 hi)]
    by_cases hm : (unpackMantissa b).toNat = 0
    · rw [if_pos hm, if_pos (hzero.2 hm), Binary64.ofUnpacked]
      exact congrArg Binary64.infinite hsign.symm
    · rw [if_neg hm, if_neg (fun h => hm (hzero.1 h)), Binary64.ofUnpacked]
  · rw [if_neg hi, if_neg (fun h => hi (hinfinite.1 h))]
    by_cases hs : (unpackExponent b).toNat = 0
    · rw [if_pos hs, if_pos (hsmall.2 hs)]
      by_cases hm : (unpackMantissa b).toNat = 0
      · rw [dif_pos (hzero.2 hm), Binary64.ofUnpacked, hm]
        exact congrArg (Binary64.finite · 0 (-1074)) hsign.symm
      · rw [dif_neg (fun h => hm (hzero.1 h)), Binary64.ofUnpacked, hs]
        exact congrArg (Binary64.finite · _ (-1074)) hsign.symm
    · rw [if_neg hs, if_neg (fun h => hs (hsmall.1 h)), Binary64.ofUnpacked, hnormal]
      exact congrArg (Binary64.finite · _ _) hsign.symm

/-- The exact form of a double is that of its parts. -/
theorem ofFloat_eq (x : Float) : Binary64.ofFloat x = .ofUnpacked x.toModel.unpack :=
  ofBits_eq x.toModel.toBits.toBitVec

/-! ## Signs -/

/-- A number that has been taken apart, with another sign. -/
def withSign (s : Sign) : UnpackedFloat → UnpackedFloat
  | .notANumber => .notANumber
  | .infinity _ => .infinity s
  | .zero _ => .zero s
  | .finite _ m e h => .finite s m e h

/-- The other sign in the bits is the other sign in the parts. -/
theorem unpack_packComponents (s : Sign) :
    unpack Format.binary64 (packComponents _ s (unpackExponent b) (unpackMantissa b)) =
      withSign s (unpack Format.binary64 b) := by
  simp only [unpack, unpackExponent_packComponents, unpackMantissa_packComponents,
    unpackSign_packComponents, Sign.ofBitVec_toBitVec]
  split
  · split <;> rfl
  · split
    · split <;> rfl
    · rfl

/-- Packing with another sign loses nothing. -/
theorem unpack_pack_withSign (s : Sign) :
    (Float.Model.pack (withSign s (unpack Format.binary64 b))).unpack =
      withSign s (unpack Format.binary64 b) := by
  rw [unpack_pack, ← unpack_packComponents, pack_unpack]
  split
  next hnan => rw [unpack_packedNaN, isNaN_iff.1 ((isNaN_unpack _).trans hnan)]
  next => rfl

/-- The sign of a number that has been taken apart. -/
def isNegative : UnpackedFloat → Bool
  | .notANumber => false
  | .infinity s | .zero s | .finite s _ _ _ => s == .negative

theorem neg_eq (f : UnpackedFloat) :
    f.neg = withSign (if isNegative f then .positive else .negative) f := by
  rcases f with s | _ | s | s
  · cases s <;> rfl
  · rfl
  · cases s <;> rfl
  · cases s <;> rfl

theorem abs_eq (f : UnpackedFloat) : f.abs = withSign .positive f := by cases f <;> rfl

theorem unpack_neg (x : Float) : (-x).toModel.unpack = x.toModel.unpack.neg := by
  rw [neg_eq]
  refine (congrArg (fun f => (Float.Model.pack f).unpack) (neg_eq _)).trans ?_
  exact unpack_pack_withSign x.toModel.toBits.toBitVec _

theorem unpack_abs (x : Float) : x.abs.toModel.unpack = x.toModel.unpack.abs := by
  rw [abs_eq]
  refine (congrArg (fun f => (Float.Model.pack f).unpack) (abs_eq _)).trans ?_
  exact unpack_pack_withSign x.toModel.toBits.toBitVec _

/-- **Negation changes the sign only.** -/
theorem ofFloat_neg (x : Float) : Binary64.ofFloat (-x) = (Binary64.ofFloat x).neg := by
  rw [ofFloat_eq, ofFloat_eq, unpack_neg, Binary64.ofUnpacked_neg]

/-- **The magnitude drops the sign only.** -/
theorem ofFloat_abs (x : Float) : Binary64.ofFloat x.abs = (Binary64.ofFloat x).abs := by
  rw [ofFloat_eq, ofFloat_eq, unpack_abs, Binary64.ofUnpacked_abs]

/-! ## Adding zero -/

/-- A double is what its parts are packed into. -/
theorem pack_unpack_toModel (x : Float) : Float.ofModel (.pack x.toModel.unpack) = x := by
  obtain ⟨⟨⟨bits⟩, hvalid⟩⟩ := x
  simp only [Float.Model.pack, Float.Model.unpack, pack_unpack_of_valid hvalid]

/-- A number that has been taken apart, where zero has no sign. -/
def dropZeroSign : UnpackedFloat → UnpackedFloat
  | .zero _ => .zero .positive
  | f => f

theorem unpack_pack_dropZeroSign (x : Float) :
    (Float.Model.pack (dropZeroSign x.toModel.unpack)).unpack = dropZeroSign x.toModel.unpack := by
  have hsame : (Float.Model.pack x.toModel.unpack).unpack = x.toModel.unpack :=
    congrArg (fun y => y.toModel.unpack) (pack_unpack_toModel x)
  rcases hx : x.toModel.unpack with s | _ | s | s
  · rwa [hx] at hsame
  · rwa [hx] at hsame
  · rw [unpack_pack]
    exact unpack_packedZero
  · rwa [hx] at hsame

/-- **Adding zero on the right** loses the sign of a zero and nothing else. -/
theorem unpack_add_zero (x : Float) :
    (x + 0.0).toModel.unpack = dropZeroSign x.toModel.unpack := by
  have hadd : UnpackedFloat.add Format.binary64 x.toModel.unpack (.zero .positive) =
      dropZeroSign x.toModel.unpack := by
    rcases x.toModel.unpack with s | _ | s | s
    · rfl
    · rfl
    · cases s <;> rfl
    · rfl
  refine (congrArg (fun f => (Float.Model.pack f).unpack) hadd).trans ?_
  exact unpack_pack_dropZeroSign x

/-- **Adding zero on the left** loses the sign of a zero and nothing else. -/
theorem unpack_zero_add (x : Float) :
    (0.0 + x).toModel.unpack = dropZeroSign x.toModel.unpack := by
  have hadd : UnpackedFloat.add Format.binary64 (.zero .positive) x.toModel.unpack =
      dropZeroSign x.toModel.unpack := by
    rcases x.toModel.unpack with s | _ | s | s
    · rfl
    · rfl
    · cases s <;> rfl
    · rfl
  refine (congrArg (fun f => (Float.Model.pack f).unpack) hadd).trans ?_
  exact unpack_pack_dropZeroSign x

end Double

end MixedInteger
