import MixedInteger.Proofs.Decimal.Significant
import MixedInteger.Proofs.Decimal.Whole
import MixedInteger.Proofs.Document.LpSum
import MixedInteger.Proofs.Number.RoundedDouble
import MixedInteger.Proofs.Number.SmallInteger

/-!
# The texts of doubles

Both written forms of a model show a double with fifteen significant digits.  The number that a
reader finds is the nearest one with so many digits, whether the double is normal or not, and
however its text is laid out.

## What is here

* `Binary64.printed_eq_rounded` — the printed number is the nearest one.
* `Double.printed_mono` — printed numbers are in the order of the doubles.
* `Double.numberText_intCast` — an integer of at most fifteen digits is written as an integer.
* `Double.numberText_nearest` — **what the text of a double says**.
-/

set_option autoImplicit false

namespace MixedInteger

open Arithmetic

/-! ## The printed number -/

namespace Binary64

/-- A sign stays when a number is rounded. -/
theorem withSign_nearestValue (negative : Bool) {x : ℚ} (hx : 0 < x) :
    withSign negative (Decimal.rounded 15 x) = Decimal.nearestValue 15 (withSign negative x) := by
  cases negative with
  | false => exact (if_neg hx.not_gt).symm
  | true =>
    rw [Decimal.nearestValue, withSign, withSign, if_pos rfl, if_pos rfl, if_pos (neg_lt_zero.2 hx),
      neg_neg]

/-- **The printed number is the nearest one** with fifteen significant digits. -/
theorem printed_eq_rounded (d : Binary64) :
    d.printed = d.exact.rounded fun x => .finite (Decimal.nearestValue 15 x) := by
  cases d with
  | nan => rfl
  | infinite negative => rfl
  | finite negative m q =>
    refine congrArg Extended.finite ?_
    rcases Nat.eq_zero_or_pos m with rfl | hm
    · rw [if_pos rfl, Nat.cast_zero, zero_mul]
      cases negative <;> simp [withSign, Decimal.nearestValue_zero]
    · have hden := quotient_pos m q
      have hden' : ((quotient m q).2 : ℚ) ≠ 0 := Nat.cast_ne_zero.2 hden.ne'
      have hquotient : ((quotient m q).1 / (quotient m q).2 : ℚ) = m * 2 ^ q :=
        (div_eq_iff hden').2 (quotient_eq m q)
      have hpos : (0 : ℚ) < m * 2 ^ q := by positivity
      have hnum : 0 < (quotient m q).1 := by
        have hprod := quotient_eq m q
        have : (0 : ℚ) < (quotient m q).1 := by
          rw [hprod]
          positivity
        exact_mod_cast this
      rw [if_neg hm.ne', Decimal.value_significant_eq (by decide) hnum hden, hquotient]
      exact withSign_nearestValue negative hpos

/-- **A whole number of at most fifteen digits is written with its digits** and nothing else. -/
theorem compact_whole {m n : ℕ} {q : ℤ} (hm : (m : ℚ) * 2 ^ q = n) (hn : n < 10 ^ 15) :
    (finite false m q).compact = Nat.toDigits 10 n := by
  have hexact : (finite false m q).exact = .finite (n : ℤ) := congrArg Extended.finite hm
  have hvalue := printed_eq_exact hexact hn
  rw [hexact, printed, Extended.finite.injEq] at hvalue
  have hchars : (finite false m q).compact = if m = 0 then ['0'] else compactLayout.write
      (Decimal.significant 15 (quotient m q).1 (quotient m q).2).strip := rfl
  rw [hchars]
  split
  next h0 =>
    rw [h0, Nat.cast_zero, zero_mul] at hm
    obtain rfl : n = 0 := by exact_mod_cast hm.symm
    rfl
  next h0 =>
    rw [if_neg h0] at hvalue
    have hd : (Decimal.significant 15 (quotient m q).1 (quotient m q).2).value = n := hvalue
    have hne : (Decimal.significant 15 (quotient m q).1 (quotient m q).2).coefficient ≠ 0 := by
      intro hc
      have hpos : (0 : ℚ) < m * 2 ^ q := by
        have : 0 < m := Nat.pos_of_ne_zero h0
        positivity
      rw [hm, ← hd, Decimal.value, hc, Nat.cast_zero, zero_mul] at hpos
      exact hpos.false
    have hplain : ((15 : ℕ) : ℤ) ≤ compactLayout.plainBelow := le_rfl
    exact Layout.write_whole rfl (by decide) hplain (by decide) hn
      ((Decimal.value_strip _).trans hd) (Decimal.strip_mod_ten hne)

end Binary64

/-! ## Doubles -/

namespace Double

/-- **Printed numbers are in the order of the doubles.** -/
theorem printed_mono {x y : Float} (h : le x y = true) :
    (Binary64.ofFloat x).printed.le (Binary64.ofFloat y).printed = true := by
  rw [Binary64.printed_eq_rounded, Binary64.printed_eq_rounded]
  refine Extended.rounded_le_rounded (fun {a b} hab => ?_) ((rounding.le_eq x y).symm.trans h)
  exact decide_eq_true (Decimal.nearestValue_mono (by decide) hab)

/-- **An integer of at most fifteen digits is written as an integer.** -/
theorem numberText_intCast {x : Float} {n : ℤ} (hx : (Binary64.ofFloat x).exact = .finite n)
    (hn : |n| < 10 ^ 15) : numberText x = toString n := by
  rw [← String.toList_inj, numberText_toList, ofFloat_eq, unpack_add_zero]
  rw [number_eq] at hx
  rcases hu : x.toModel.unpack with s | _ | s | ⟨s, m, q, hm⟩ <;> rw [hu] at hx
  · cases s <;> cases hx
  · cases hx
  · rw [number_zero] at hx
    obtain rfl : n = 0 := by exact_mod_cast (Extended.finite.inj hx).symm
    rfl
  · have hpos : (0 : ℚ) < m * 2 ^ q := by positivity
    rw [number_finite] at hx
    cases s with
    | positive =>
      have hmagnitude : (m : ℚ) * 2 ^ q = n := Extended.finite.inj hx
      have hn0 : 0 < n := by
        rw [hmagnitude] at hpos
        exact_mod_cast hpos
      obtain ⟨k, rfl⟩ := Int.eq_ofNat_of_zero_le hn0.le
      rw [Nat.abs_cast] at hn
      exact (Binary64.compact_whole hmagnitude (by exact_mod_cast hn)).trans
        Nat.toList_repr.symm
    | negative =>
      have hmagnitude : -((m : ℚ) * 2 ^ q) = n := Extended.finite.inj hx
      have hn0 : n < 0 := by
        rw [← neg_lt_zero, hmagnitude] at hpos
        exact_mod_cast hpos
      obtain ⟨k, rfl⟩ := Int.eq_negSucc_of_lt_zero hn0
      rw [Int.abs_eq_natAbs, Int.natAbs_negSucc] at hn
      rw [Int.negSucc_eq, Int.cast_neg, neg_inj] at hmagnitude
      have hdigits := Binary64.compact_whole (n := k + 1) (by exact_mod_cast hmagnitude)
        (by exact_mod_cast hn)
      change '-' :: (Binary64.finite false m q).compact = ("-" ++ Nat.repr (k + 1)).toList
      rw [hdigits, String.toList_append, Nat.toList_repr]
      rfl

/-- A double above zero is written without the sign of its negative. -/
theorem numberText_neg {x : Float} (hx : lt zero x = true) :
    numberText (-x) = "-" ++ numberText x := by
  have hlt := (lt_eq 0.0 x).symm.trans hx
  rw [← String.toList_inj, String.toList_append, numberText_toList, numberText_toList, ofFloat_eq,
    ofFloat_eq, unpack_add_zero, unpack_add_zero, unpack_neg]
  rcases hu : x.toModel.unpack with s | _ | s | ⟨s, m, q, hm⟩ <;> rw [hu] at hlt
  · cases s with
    | positive => rfl
    | negative => cases hlt
  · cases hlt
  · cases hlt
  · cases s with
    | positive => rfl
    | negative => cases hlt

/-- The sign of a double is that of the number that it is. -/
theorem lt_zero_iff {x : Float} {a : ℚ} (hx : (Binary64.ofFloat x).exact = .finite a) :
    (lt x zero = true ↔ a < 0) ∧ (lt zero x = true ↔ 0 < a) := by
  have hlt : ∀ y z : Float, lt y z =
      (Binary64.ofFloat y).exact.lt (Binary64.ofFloat z).exact := rounding.lt_eq
  have hzero : (Binary64.ofFloat zero).exact = .finite 0 := exact_zero
  rw [hlt, hlt, hx, hzero]
  exact ⟨decide_eq_true_iff, decide_eq_true_iff⟩

theorem printed_eq_nearestValue {x : Float} {a : ℚ} (hx : (Binary64.ofFloat x).exact = .finite a) :
    Printed.printed x = Extended.finite (Decimal.nearestValue 15 a) := by
  change (Binary64.ofFloat x).printed = _
  rw [Binary64.printed_eq_rounded, hx]
  rfl

/-- The number that is printed has the sign of the double. -/
theorem nearestValue_eq_signed {x : Float} {a : ℚ} (hx : (Binary64.ofFloat x).exact = .finite a) :
    Decimal.nearestValue 15 a = if lt x zero = true then -|Decimal.nearestValue 15 a|
      else |Decimal.nearestValue 15 a| := by
  obtain ⟨hneg, -⟩ := lt_zero_iff hx
  split
  next hlt =>
    rw [abs_of_nonpos (Decimal.nearestValue_nonpos (by decide) (hneg.1 hlt).le), neg_neg]
  next hlt =>
    rw [abs_of_nonneg (Decimal.nearestValue_nonneg (by decide) (not_lt.1 (mt hneg.2 hlt)))]

/-- The magnitude of a double is printed as the magnitude of what is printed for it. -/
theorem printed_abs_eq {x : Float} {a : ℚ} (hx : (Binary64.ofFloat x).exact = .finite a) :
    Printed.printed (abs x) = Extended.finite |Decimal.nearestValue 15 a| := by
  rw [Printed.printed_abs, printed_eq_nearestValue hx, nearestValue_eq_signed hx]
  split
  next => rw [abs_neg, abs_abs, Extended.neg_finite, neg_neg]
  next => rw [abs_abs]

/-- **What the text of a double says.**  A reader finds the number with at most fifteen significant
digits that is nearest to the double.  So a number with so few digits is found itself, and an
integer is written as one; a double above zero and its negative differ in a minus sign, and a term
in which the sign stands apart from the magnitude has the same coefficient as one in which it does
not; printed numbers are in the order of the doubles; and only zero is printed as zero. -/
theorem numberText_nearest {x : Float} (hx : isFinite x = true) :
    ∃ a p : ℚ, (Binary64.ofFloat x).exact = .finite a ∧
      readNumber (numberText x) = some (.finite p) ∧ Decimal.IsNearest 15 a p ∧
      (Decimal.HasPlaces 15 a → p = a) ∧
      (∀ n : ℤ, a = n → |n| < 10 ^ 15 → numberText x = toString n) ∧
      (0 < a → numberText (-x) = "-" ++ numberText x) ∧
      readNumber (numberText (-x)) = some (.finite (-p)) ∧
      (∀ v, let t := LpTerm.ofTerm (v, x)
        numberText x = (if t.negative then "-" else "") ++ numberText t.magnitude ∧
          readNumber (numberText t.magnitude) = some (.finite |p|) ∧
          p = (if t.negative then -|p| else |p|) ∧ (eq t.magnitude one = true → |p| = 1)) ∧
      (∀ y, le x y = true →
        ∃ q, readNumber (numberText y) = some q ∧ (Extended.finite p).le q = true) ∧
      (p = 0 ↔ a = 0) := by
  obtain ⟨a, ha⟩ : ∃ a, (Binary64.ofFloat x).exact = .finite a := rounding.isFinite_iff.1 hx
  have hp := printed_eq_nearestValue ha
  have habs := printed_abs_eq ha
  have hnearest := Decimal.isNearest_nearestValue (by decide : 2 ≤ 15) a
  refine ⟨a, Decimal.nearestValue 15 a, ha, ?_, hnearest, hnearest.eq_self,
    fun n hn hlt => numberText_intCast (hn ▸ ha) hlt,
    fun hpos => numberText_neg ((lt_zero_iff ha).2.2 hpos), ?_,
    fun v => ⟨numberText_eq x, ?_, nearestValue_eq_signed ha, fun hone => ?_⟩, fun y hy => ?_,
    hnearest.eq_zero_iff (by decide)⟩
  · rw [Printed.readNumber_numberText, hp]
  · rw [Printed.readNumber_numberText, Printed.printed_neg, hp]
    rfl
  · exact (Printed.readNumber_numberText _).trans (congrArg some habs)
  · have hmagnitude := (Printed.printed_of_eq hone).trans Printed.printed_one
    exact Extended.finite.inj (habs.symm.trans hmagnitude)
  · refine ⟨_, Printed.readNumber_numberText y, ?_⟩
    rw [← hp]
    exact printed_mono hy

/-- A double halfway between two numbers with fifteen digits, of which the first ends in an even
one. -/
theorem numberText_nearest_halfway :
    let x : Float := 1000000000000005.0
    isFinite x = true ∧ numberText x = "1e+15" ∧ numberText (-x) = "-1e+15" ∧
      Decimal.IsNearest 15 1000000000000005 (10 ^ 15) ∧
      |(1000000000000005 : ℚ) - 10 ^ 15| = |1000000000000005 - 1000000000000010| := by
  intro x
  have hfinite : isFinite x = true := by decide +kernel
  have htext : numberText x = "1e+15" := by decide +kernel
  have hexact : (Binary64.ofFloat x).exact = .finite 1000000000000005 := by
    have hx : Binary64.ofFloat x = .finite false 8000000000000040 (-3) := by decide +kernel
    rw [hx, Binary64.exact, Binary64.withSign]
    norm_num
  have hread : readNumber "1e+15" = some (.finite (10 ^ 15)) := by
    have hdecimal : Decimal.read "1e+15".toList = some ⟨1, 15⟩ :=
      Decimal.read_scientific (List.cons_ne_nil '1' []) (List.forall_mem_singleton.2 rfl) 15
    rw [readNumber, readChars_of_read hdecimal, Decimal.value]
    norm_num
  obtain ⟨a, p, ha, hp, hnearest, -, -, hneg, -⟩ := numberText_nearest hfinite
  rw [hexact, Extended.finite.injEq] at ha
  rw [htext, hread, Option.some_inj, Extended.finite.injEq] at hp
  subst ha hp
  exact ⟨hfinite, htext, by rw [hneg (by norm_num), htext]; rfl, hnearest, by norm_num⟩

end Double

end MixedInteger
