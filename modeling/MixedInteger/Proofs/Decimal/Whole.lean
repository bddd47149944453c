import MixedInteger.Proofs.Decimal.Reading

/-!
# Whole numbers

A decimal without zeros at the end of its coefficient is a whole number only if its last digit does
not stand after the point.  Such a decimal is written with zeros in place of the exponent, as long
as the layout has room for them, and so its text is that of the whole number.

## What is here

* `Decimal.strip_mod_ten` — no zeros are left at the end.
* `Decimal.toDigits_mul_pow` — the digits of a multiple of a power of ten.
* `Layout.write_whole` — **a whole number is written without point and exponent**.
-/

set_option autoImplicit false

namespace MixedInteger

namespace Decimal

theorem stripUpTo_mod_ten {n : ℕ} {d : Decimal} (hne : d.coefficient ≠ 0)
    (hlt : d.coefficient < 10 ^ n) : (stripUpTo n d).coefficient % 10 ≠ 0 := by
  induction n generalizing d with
  | zero =>
    rw [pow_zero] at hlt
    omega
  | succ n ih =>
    rw [stripUpTo]
    split
    next h =>
      refine ih (d := ⟨d.coefficient / 10, d.exponent + 1⟩) ?_ ?_
      · dsimp only
        omega
      · dsimp only
        rw [pow_succ] at hlt
        omega
    next h => exact fun hmod => h ⟨hne, hmod⟩

/-- **No zeros are left at the end** of the coefficient. -/
theorem strip_mod_ten {d : Decimal} (hne : d.coefficient ≠ 0) : d.strip.coefficient % 10 ≠ 0 :=
  stripUpTo_mod_ten hne
    ((Nat.length_toDigits_le_iff (by decide) Nat.length_toDigits_pos).1 le_rfl)

/-- A whole number without zeros at the end of its coefficient has no digits after the point. -/
theorem exists_of_value_eq {d : Decimal} {n : ℕ} (hd : d.value = n)
    (hmod : d.coefficient % 10 ≠ 0) : ∃ k : ℕ, d.exponent = k ∧ n = d.coefficient * 10 ^ k := by
  rcases le_or_gt 0 d.exponent with he | he
  · obtain ⟨k, hk⟩ := Int.eq_ofNat_of_zero_le he
    refine ⟨k, hk, ?_⟩
    rw [value, hk, zpow_natCast] at hd
    exact_mod_cast hd.symm
  · obtain ⟨k, hk⟩ := Int.eq_ofNat_of_zero_le (by omega : 0 ≤ -d.exponent - 1)
    have hexp : d.exponent = -((k + 1 : ℕ) : ℤ) := by
      push_cast
      omega
    rw [value, hexp, zpow_neg, zpow_natCast, ← div_eq_mul_inv, div_eq_iff (by positivity)] at hd
    have hc : d.coefficient = n * 10 ^ (k + 1) := by exact_mod_cast hd
    rw [hc, pow_succ, ← mul_assoc, Nat.mul_mod_left] at hmod
    exact absurd rfl hmod

/-- The digits of a multiple of a power of ten. -/
theorem toDigits_mul_pow {c : ℕ} (hc : 0 < c) (k : ℕ) :
    Nat.toDigits 10 (c * 10 ^ k) = Nat.toDigits 10 c ++ List.replicate k '0' := by
  induction k with
  | zero => rw [pow_zero, Nat.mul_one, List.replicate_zero, List.append_nil]
  | succ k ih =>
    have hpos : 0 < c * 10 ^ k := Nat.mul_pos hc (Nat.pow_pos (by decide))
    have hstep := Nat.toDigits_append_toDigits (b := 10) (by decide) hpos (by decide : 0 < 10)
    rw [List.replicate_succ', ← List.append_assoc, ← ih, pow_succ, ← Nat.mul_assoc,
      Nat.mul_comm _ 10]
    exact hstep.symm

end Decimal

/-- **A whole number is written without point and exponent**, if the layout has room for its
digits. -/
theorem Layout.write_whole {layout : Layout} (hpoint : layout.pointZero = false)
    (hfrom : layout.plainFrom ≤ 0) {places n : ℕ} (hbelow : (places : ℤ) ≤ layout.plainBelow)
    (hplaces : 0 < places) (hlt : n < 10 ^ places) {d : Decimal} (hd : d.value = n)
    (hmod : d.coefficient % 10 ≠ 0) : layout.write d = Nat.toDigits 10 n := by
  obtain ⟨k, hk, rfl⟩ := Decimal.exists_of_value_eq hd hmod
  have hc : 0 < d.coefficient := by omega
  have hlen : 0 < d.digits.length := Nat.length_toDigits_pos
  have hroom : d.digits.length + k ≤ places := by
    have hle := (Nat.length_toDigits_le_iff (by decide) hplaces).2 hlt
    rwa [Decimal.toDigits_mul_pow hc, List.length_append, List.length_replicate] at hle
  have hlead : d.leading = (d.digits.length + k : ℕ) - 1 := by
    rw [Decimal.leading, hk]
    push_cast
    ring
  rw [write, if_pos ⟨by omega, by omega⟩, writePlain, if_neg (by omega), if_pos (by omega), hpoint,
    Decimal.toDigits_mul_pow hc]
  have hzeros : d.leading.toNat + 1 - d.digits.length = k := by omega
  rw [hzeros]
  exact List.append_nil _

end MixedInteger
