import MixedInteger.Proofs.Number.Comparison
import MixedInteger.Proofs.Number.Printed

/-!
# Small integers are printed as they are

Fifteen significant digits are enough for an integer of at most fifteen digits, so the number that
a reader finds is the integer itself.  A larger integer may be printed as another one.

## What is here

* `Decimal.value_significant` — an integer that has few enough digits is not rounded.
* `Double.IsSmallInteger` — doubles that are integers of at most fifteen digits.
* `Double.IsSmallInteger.printed_eq` — such a double is printed as it is.
* `Double.numberText_eq` — a double is written like its magnitude, perhaps after a sign.
-/

set_option autoImplicit false

namespace MixedInteger

open Arithmetic

/-! ## Rounding to significant digits -/

theorem roundDiv_mul {den : Nat} (h : 0 < den) (n : Nat) : roundDiv (n * den) den = n := by
  simp [roundDiv, Nat.mul_mod_left, Nat.mul_div_cancel n h, h]

namespace Decimal

/-- **An integer with few enough digits is not rounded.** -/
theorem value_significant {places n num den : Nat} (hden : 0 < den) (hn : 0 < n)
    (hnum : num = n * den) (hlt : n < 10 ^ places) :
    (significant places num den).value = n := by
  have hplaces : 0 < places := by
    by_contra h
    obtain rfl : places = 0 := by omega
    omega
  have hcount : digitCount n ≤ places := by
    rw [digitCount, if_neg hn.ne']
    exact Nat.toDigits_length 10 n places hplaces hlt
  obtain ⟨k, hk⟩ := Nat.exists_eq_add_of_le hcount
  have hleading : leadingExponent num den = (digitCount n : Int) - 1 := by
    rw [leadingExponent, hnum, if_pos (Nat.le_mul_of_pos_left den hn), Nat.mul_div_cancel n hden]
  have hlast : leadingExponent num den - ((places : Int) - 1) = 0 - k := by omega
  have hquotient : scaledQuotient num den (k : Int) = (n * 10 ^ k * den, den) := by
    rw [scaledQuotient, if_pos (Int.natCast_nonneg k), Int.toNat_natCast, hnum, Nat.mul_right_comm]
    rfl
  have hvalue : value ⟨n * 10 ^ k, 0 - k⟩ = n := by
    rw [value_shift]
    simp [value]
  have hshift : -(0 - (k : Int)) = k := by omega
  rw [significant, hlast, hshift, hquotient, roundDiv_mul hden]
  split
  next hc =>
    rw [← hvalue, hc]
    have hten : tenPow places = tenPow (places - 1) * 10 ^ 1 := by
      rw [pow_one, ← tenPow_succ, Nat.sub_add_cancel hplaces]
    rw [hten, ← value_shift (tenPow (places - 1)) 1 (0 - (k : Int) + 1)]
    norm_num
  next => exact hvalue

end Decimal

namespace Binary64

theorem quotient_pos (m : Nat) (q : Int) : 0 < (quotient m q).2 := by
  rw [quotient]
  split
  · exact Nat.one_pos
  · exact twoPow_pos _

/-- The quotient of a double is the double. -/
theorem quotient_eq (m : Nat) (q : Int) :
    ((quotient m q).1 : ℚ) = m * 2 ^ q * (quotient m q).2 := by
  rw [quotient]
  split
  next h =>
    obtain ⟨k, rfl⟩ := Int.eq_ofNat_of_zero_le h
    simp [twoPow]
  next h =>
    obtain ⟨k, hk⟩ := Int.eq_ofNat_of_zero_le (by omega : 0 ≤ -q)
    obtain rfl : q = -k := by omega
    simp [twoPow]

/-- **A double that is a small integer is printed as it is.** -/
theorem printed_eq_exact {d : Binary64} {n : Int} (hd : d.exact = .finite n)
    (hn : n.natAbs < 10 ^ 15) : d.printed = d.exact := by
  cases d with
  | nan => rfl
  | infinite negative => rfl
  | finite negative m q =>
    refine congrArg (fun x => Extended.finite (withSign negative x)) ?_
    split
    next hm => rw [hm, Nat.cast_zero, zero_mul]
    next hm =>
      have hnonneg : (0 : ℚ) ≤ m * 2 ^ q := by positivity
      have habs : (m : ℚ) * 2 ^ q = n.natAbs := by
        have hsign : withSign negative (m * 2 ^ q) = (n : ℚ) := Extended.finite.inj hd
        rw [Nat.cast_natAbs, Int.cast_abs, ← hsign, withSign]
        cases negative with
        | false => exact (abs_of_nonneg hnonneg).symm
        | true => exact ((abs_neg _).trans (abs_of_nonneg hnonneg)).symm
      have hpos : 0 < n.natAbs := by
        have : (0 : ℚ) < m * 2 ^ q := by
          have : (0 : ℚ) < m := Nat.cast_pos.2 (Nat.pos_of_ne_zero hm)
          positivity
        rw [habs] at this
        exact_mod_cast this
      have hnum : (quotient m q).1 = n.natAbs * (quotient m q).2 := by
        have hq := quotient_eq m q
        rw [habs] at hq
        exact_mod_cast hq
      rw [Decimal.value_significant (quotient_pos m q) hpos hnum hn, habs]

end Binary64

/-! ## Small integers -/

namespace Double

open Float.Model (UnpackedFloat)
open Float.Model.UnpackedFloat

/-- A double that is an integer of at most fifteen digits. -/
def IsSmallInteger (x : Float) : Prop :=
  ∃ n : Int, n.natAbs < 10 ^ 15 ∧ (Printed.exact x : Extended ℚ) = .finite n

theorem isSmallInteger_iff (x : Float) : IsSmallInteger x ↔ ∃ q : ℚ,
    (Printed.exact x : Extended ℚ) = .finite q ∧ q.den = 1 ∧ q.num.natAbs < 10 ^ 15 := by
  constructor
  · rintro ⟨n, hn, hx⟩
    exact ⟨n, hx, Rat.den_intCast n, by rwa [Rat.num_intCast]⟩
  · rintro ⟨q, hx, hden, hnum⟩
    exact ⟨q.num, hnum, by rw [hx, Rat.coe_int_num_of_den_eq_one hden]⟩

instance (x : Float) : Decidable (IsSmallInteger x) :=
  match h : (Printed.exact x : Extended ℚ) with
  | .finite q => decidable_of_iff (q.den = 1 ∧ q.num.natAbs < 10 ^ 15) <| by
      rw [isSmallInteger_iff, h]
      exact ⟨fun hq => ⟨q, rfl, hq⟩, fun ⟨_, hr, hq⟩ => Extended.finite.inj hr ▸ hq⟩
  | .infinite _ | .nan => isFalse fun ⟨_, _, hx⟩ => nomatch h.symm.trans hx

/-- **A small integer is printed as it is.** -/
theorem IsSmallInteger.printed_eq {x : Float} (h : IsSmallInteger x) :
    (Printed.printed x : Extended ℚ) = Printed.exact x := by
  obtain ⟨n, hn, hx⟩ := h
  exact Binary64.printed_eq_exact hx hn

theorem IsSmallInteger.abs {x : Float} (h : IsSmallInteger x) : IsSmallInteger (abs x) := by
  obtain ⟨n, hn, hx⟩ := h
  change (Binary64.ofFloat x).exact = _ at hx
  have habs : (Binary64.ofFloat x.abs).exact = .finite (n.natAbs : Int) := by
    rw [ofFloat_abs]
    revert hx
    cases Binary64.ofFloat x with
    | nan => exact nofun
    | infinite negative => exact nofun
    | finite negative m q =>
      intro hx
      have hnonneg : (0 : ℚ) ≤ m * 2 ^ q := by positivity
      have hsign : Binary64.withSign negative (m * 2 ^ q) = (n : ℚ) := Extended.finite.inj hx
      refine congrArg Extended.finite ?_
      rw [Int.cast_natCast, Nat.cast_natAbs, Int.cast_abs, ← hsign]
      cases negative with
      | false => exact (abs_of_nonneg hnonneg).symm
      | true => exact ((abs_neg _).trans (abs_of_nonneg hnonneg)).symm
  exact ⟨n.natAbs, hn, habs⟩

/-- **A double is written like its magnitude**, after a sign if it is negative. -/
theorem numberText_eq (x : Float) :
    numberText x = (if lt x zero then "-" else "") ++ numberText (abs x) := by
  change numberText x = (if Float.lt x 0.0 then "-" else "") ++ numberText x.abs
  have hsign : (if Float.lt x 0.0 then "-" else "").toList =
      if isNegative (dropZeroSign x.toModel.unpack) then ['-'] else [] := by
    rw [lt_zero_eq]
    split <;> rfl
  rw [← String.toList_inj, String.toList_append, hsign, numberText_toList, numberText_toList,
    ofFloat_eq, ofFloat_eq, unpack_add_zero, unpack_add_zero, unpack_abs]
  rcases x.toModel.unpack with s | _ | s | ⟨s, m, q, hm⟩
  · cases s <;> rfl
  · rfl
  · rfl
  · cases s <;> rfl

/-- A coefficient that is kept is not zero. -/
theorem ne_zero_of_significant {x : Float} (h : Arithmetic.significant x = true) :
    eq x zero = false := by
  rw [significant_eq] at h
  refine Bool.eq_false_iff.2 fun hzero => ?_
  have hbeq : x.toModel.unpack.beq (.zero .positive) = true := hzero
  obtain ⟨-, -, heq | ⟨-, heq⟩ | ⟨heq, -⟩⟩ := (beq_iff_ne_notANumber_and_eq _ _).1 hbeq
  · rw [heq] at h
    cases h
  · cases heq
  · rw [heq] at h
    cases h

end Double

end MixedInteger
