import MixedInteger.Proofs.Number.Extended

/-!
# Rounded arithmetic

A sum or a product of numbers is exact up to a rounding, which keeps the order of what is rounded.
Exact numbers are rounded to themselves, and doubles to the nearest of them.  That the order is kept
is all that matters here.

## What is here

* `Arithmetic.Rounding` — numbers of which each sum and each product is rounded by one function.
* `Extended.rounding` — exact numbers.
* `Extended.Rounded` — exact numbers, with any function that rounds.
* `Arithmetic.AtMost`, `Arithmetic.Rounding.atMost_add`, `Arithmetic.Rounding.atMost_mul` — sums and
  products keep the order, as long as they are numbers.
-/

set_option autoImplicit false

namespace MixedInteger

variable {F : Type}

/-! ## Order -/

namespace Extended

/-- A number that is rounded; an infinity stays one. -/
def rounded (round : F → Extended F) : Extended F → Extended F
  | finite x => round x
  | a => a

variable {a b c d : Extended F}

theorem ne_nan_of_rounded {round : F → Extended F} (h : rounded round a ≠ nan) : a ≠ nan := by
  rintro rfl
  exact h rfl

section Order

variable [LinearOrder F]

theorem ne_nan_of_le (h : le a b = true) : a ≠ nan ∧ b ≠ nan := by
  constructor
  · rintro rfl
    cases h
  · rintro rfl
    cases a <;> cases h

theorem infinite_le (h : a ≠ nan) : le (infinite true) a = true := by
  cases a with
  | nan => exact absurd rfl h
  | _ => rfl

theorem le_infinite (h : a ≠ nan) : le a (infinite false) = true := by
  rcases a with _ | n | x
  · exact absurd rfl h
  · cases n <;> rfl
  · rfl

theorem le_self (h : a ≠ nan) : le a a = true := by
  rcases a with _ | n | x
  · exact absurd rfl h
  · cases n <;> rfl
  · exact decide_eq_true le_rfl

/-- What is less or equal is minus infinity on the left, infinity on the right, or two numbers. -/
theorem le_cases (h : le a b = true) :
    a = infinite true ∨ b = infinite false ∨ ∃ x y, a = finite x ∧ b = finite y ∧ x ≤ y := by
  rcases a with _ | m | x
  · cases h
  · cases m
    · rcases b with _ | n | y
      · cases h
      · cases n
        · exact .inr (.inl rfl)
        · cases h
      · cases h
    · exact .inl rfl
  · rcases b with _ | n | y
    · cases h
    · cases n
      · exact .inr (.inl rfl)
      · cases h
    · exact .inr (.inr ⟨x, y, rfl, rfl, of_decide_eq_true h⟩)

theorem le_trans (hab : le a b = true) (hbc : le b c = true) : le a c = true := by
  obtain rfl | rfl | ⟨x, y, rfl, rfl, hxy⟩ := le_cases hab
  · exact infinite_le (ne_nan_of_le hbc).2
  · obtain h | rfl | ⟨y, z, h, -, -⟩ := le_cases hbc
    · cases h
    · exact hab
    · cases h
  · obtain h | rfl | ⟨y', z, h, rfl, hyz⟩ := le_cases hbc
    · cases h
    · rfl
    · cases h
      exact decide_eq_true (hxy.trans hyz)

/-- Rounding keeps the order of infinite numbers, too. -/
theorem rounded_le_rounded {round : F → Extended F}
    (hround : ∀ {x y : F}, x ≤ y → le (round x) (round y) = true) (h : le a b = true) :
    le (rounded round a) (rounded round b) = true := by
  have hne : ∀ {a : Extended F}, a ≠ nan → rounded round a ≠ nan := by
    intro a ha
    cases a with
    | nan => exact absurd rfl ha
    | infinite n => exact ha
    | finite x => exact (ne_nan_of_le (hround le_rfl)).1
  obtain rfl | rfl | ⟨x, y, rfl, rfl, hxy⟩ := le_cases h
  · exact infinite_le (hne (ne_nan_of_le h).2)
  · exact le_infinite (hne (ne_nan_of_le h).1)
  · exact hround hxy

end Order

variable [Field F]

theorem ne_nan_of_add (h : a + b ≠ nan) : a ≠ nan ∧ b ≠ nan := by
  constructor
  · rintro rfl
    exact h (nan_add b)
  · rintro rfl
    exact h (add_nan a)

theorem infinite_add (n : Bool) (h : infinite n + a ≠ nan) : infinite n + a = infinite n := by
  rcases a with _ | m | x
  · exact absurd (add_nan _) h
  · rw [add_infinite] at h ⊢
    split at h
    next hnm => rw [if_pos hnm]
    next => exact absurd rfl h
  · rfl

variable [LinearOrder F]

variable [IsStrictOrderedRing F]

theorem add_le_add_of_ne_nan (hab : le a b = true) (hcd : le c d = true) (hac : a + c ≠ nan)
    (hbd : b + d ≠ nan) : le (a + c) (b + d) = true := by
  obtain rfl | rfl | ⟨x, y, rfl, rfl, hxy⟩ := le_cases hab
  · rw [infinite_add true hac]
    exact infinite_le hbd
  · rw [infinite_add false hbd]
    exact le_infinite hac
  obtain rfl | rfl | ⟨z, w, rfl, rfl, hzw⟩ := le_cases hcd
  · exact infinite_le hbd
  · exact le_infinite hac
  · exact decide_eq_true (add_le_add hxy hzw)

/-- A positive factor keeps the order. -/
theorem mul_le_mul_of_ne_nan (hc : lt (finite 0) c = true) (hab : le a b = true)
    (ha : c * a ≠ nan) (hb : c * b ≠ nan) : le (c * a) (c * b) = true := by
  rcases c with _ | n | z
  · cases hc
  · cases n
    · obtain rfl | rfl | ⟨x, y, rfl, rfl, hxy⟩ := le_cases hab
      · exact infinite_le hb
      · exact le_infinite ha
      · rcases lt_trichotomy x 0 with hx | rfl | hx
        · rw [infinite_mul_finite, scaleInfinity_neg false hx]
          exact infinite_le hb
        · exact absurd (if_pos rfl) ha
        · rw [infinite_mul_finite, infinite_mul_finite, scaleInfinity_pos false hx,
            scaleInfinity_pos false (hx.trans_le hxy)]
          rfl
    · cases hc
  · have hz : 0 < z := of_decide_eq_true hc
    obtain rfl | rfl | ⟨x, y, rfl, rfl, hxy⟩ := le_cases hab
    · rw [finite_mul_infinite, scaleInfinity_pos _ hz]
      exact infinite_le hb
    · rw [finite_mul_infinite, scaleInfinity_pos _ hz]
      exact le_infinite ha
    · exact decide_eq_true (mul_le_mul_of_nonneg_left hxy hz.le)

/-- A negative factor turns the order round. -/
theorem mul_le_mul_of_ne_nan_of_neg (hc : lt c (finite 0) = true) (hab : le a b = true)
    (ha : c * a ≠ nan) (hb : c * b ≠ nan) : le (c * b) (c * a) = true := by
  have hpos : lt (finite 0) (-c) = true := by
    rcases c with _ | n | z
    · cases hc
    · cases n
      · cases hc
      · rfl
    · exact decide_eq_true (neg_pos.2 (of_decide_eq_true hc))
  have hne : ∀ {x : Extended F}, c * x ≠ nan → -c * x ≠ nan := by
    intro x hx h
    rw [neg_mul] at h
    exact hx (neg_eq_iff_eq_neg.1 h)
  have h := mul_le_mul_of_ne_nan hpos hab (hne ha) (hne hb)
  rwa [neg_mul, neg_mul, neg_le_neg_eq] at h

end Extended

/-! ## Rounding -/

namespace Arithmetic

/-- Numbers of which each sum and each product is the exact one, rounded by one function that keeps
the order. -/
structure Rounding (K F : Type) [Arithmetic K] [Field F] [LinearOrder F] where
  /-- The exact number that is meant. -/
  exact : K → Extended F
  /-- What an exact number is rounded to. -/
  round : F → Extended F
  round_mono {x y : F} : x ≤ y → (round x).le (round y) = true
  exact_add (x y : K) : exact (x + y) = (exact x + exact y).rounded round
  exact_mul (x y : K) : exact (x * y) = (exact x * exact y).rounded round
  exact_zero : exact zero = .finite 0
  le_eq (x y : K) : le x y = (exact x).le (exact y)
  lt_eq (x y : K) : lt x y = (exact x).lt (exact y)
  isNaN_eq_false_iff {x : K} : isNaN x = false ↔ exact x ≠ .nan
  isFinite_iff {x : K} : isFinite x = true ↔ ∃ q, exact x = .finite q
  pos_or_neg {c : K} : significant c = true → lt zero c = true ∨ lt c zero = true

/-- The first number is not above the second, as long as both are numbers. -/
def AtMost {K : Type} [Arithmetic K] (x y : K) : Prop :=
  isNaN x = false → isNaN y = false → le x y = true

namespace Rounding

variable {K : Type} [Arithmetic K] [Field F] [LinearOrder F] (R : Rounding K F) {x y z w c : K}

/-- Nothing is rounded to an infinity. -/
def IsTotal : Prop := ∀ q, ∃ r, R.round q = .finite r

include R

theorem atMost_self (x : K) : AtMost x x := by
  intro hx _
  rw [R.le_eq]
  exact Extended.le_self (R.isNaN_eq_false_iff.1 hx)

theorem isFinite_add (hR : R.IsTotal) (hx : isFinite x = true) (hy : isFinite y = true) :
    isFinite (x + y) = true := by
  obtain ⟨p, hp⟩ := R.isFinite_iff.1 hx
  obtain ⟨q, hq⟩ := R.isFinite_iff.1 hy
  refine R.isFinite_iff.2 ?_
  rw [R.exact_add, hp, hq]
  exact hR (p + q)

theorem isFinite_mul (hR : R.IsTotal) (hx : isFinite x = true) (hy : isFinite y = true) :
    isFinite (x * y) = true := by
  obtain ⟨p, hp⟩ := R.isFinite_iff.1 hx
  obtain ⟨q, hq⟩ := R.isFinite_iff.1 hy
  refine R.isFinite_iff.2 ?_
  rw [R.exact_mul, hp, hq]
  exact hR (p * q)

theorem isNaN_of_isFinite (hx : isFinite x = true) : isNaN x = false := by
  obtain ⟨q, hq⟩ := R.isFinite_iff.1 hx
  refine R.isNaN_eq_false_iff.2 ?_
  rw [hq]
  nofun

/-- What is between two finite numbers is finite. -/
theorem isFinite_of_le (hx : isFinite x = true) (hz : isFinite z = true) (hxy : le x y = true)
    (hyz : le y z = true) : isFinite y = true := by
  obtain ⟨p, hp⟩ := R.isFinite_iff.1 hx
  obtain ⟨q, hq⟩ := R.isFinite_iff.1 hz
  rw [R.le_eq, hp] at hxy
  rw [R.le_eq, hq] at hyz
  refine R.isFinite_iff.2 ?_
  rcases hy : R.exact y with _ | n | r
  · rw [hy] at hxy
    cases hxy
  · cases n
    · rw [hy] at hyz
      cases hyz
    · rw [hy] at hxy
      cases hxy
  · exact ⟨r, rfl⟩

variable [IsStrictOrderedRing F]

/-- **A rounded sum keeps the order** of both summands. -/
theorem atMost_add (hxy : AtMost x y) (hzw : AtMost z w) : AtMost (x + z) (y + w) := by
  intro hxz hyw
  rw [R.isNaN_eq_false_iff, R.exact_add] at hxz hyw
  have hxz' := Extended.ne_nan_of_rounded hxz
  have hyw' := Extended.ne_nan_of_rounded hyw
  obtain ⟨hx, hz⟩ := Extended.ne_nan_of_add hxz'
  obtain ⟨hy, hw⟩ := Extended.ne_nan_of_add hyw'
  have hle := hxy (R.isNaN_eq_false_iff.2 hx) (R.isNaN_eq_false_iff.2 hy)
  have hle' := hzw (R.isNaN_eq_false_iff.2 hz) (R.isNaN_eq_false_iff.2 hw)
  rw [R.le_eq] at hle hle' ⊢
  rw [R.exact_add, R.exact_add]
  exact Extended.rounded_le_rounded R.round_mono
    (Extended.add_le_add_of_ne_nan hle hle' hxz' hyw')

/-- **A rounded product with a positive factor keeps the order.** -/
theorem atMost_mul (hc : lt zero c = true) (h : le x y = true) : AtMost (c * x) (c * y) := by
  intro hx hy
  rw [R.isNaN_eq_false_iff, R.exact_mul] at hx hy
  rw [R.lt_eq, R.exact_zero] at hc
  rw [R.le_eq] at h ⊢
  rw [R.exact_mul, R.exact_mul]
  exact Extended.rounded_le_rounded R.round_mono (Extended.mul_le_mul_of_ne_nan hc h
    (Extended.ne_nan_of_rounded hx) (Extended.ne_nan_of_rounded hy))

/-- **A rounded product with a negative factor turns the order round.** -/
theorem atMost_mul_of_neg (hc : lt c zero = true) (h : le x y = true) :
    AtMost (c * y) (c * x) := by
  intro hy hx
  rw [R.isNaN_eq_false_iff, R.exact_mul] at hx hy
  rw [R.lt_eq, R.exact_zero] at hc
  rw [R.le_eq] at h ⊢
  rw [R.exact_mul, R.exact_mul]
  exact Extended.rounded_le_rounded R.round_mono (Extended.mul_le_mul_of_ne_nan_of_neg hc h
    (Extended.ne_nan_of_rounded hx) (Extended.ne_nan_of_rounded hy))

end Rounding

end Arithmetic

/-! ## Exact numbers -/

namespace Extended

open Arithmetic

variable [Field F] [LinearOrder F] [FloorRing F] [ToString F] [Tolerance F]

theorem isNaN_eq_false_iff {a : Extended F} : Arithmetic.isNaN a = false ↔ a ≠ nan := by
  cases a <;> simp [Arithmetic.isNaN]

theorem isFinite_iff {a : Extended F} : Arithmetic.isFinite a = true ↔ ∃ x, a = finite x := by
  cases a <;> simp [Arithmetic.isFinite]

variable [IsStrictOrderedRing F]

/-- A coefficient of an exact expression has a sign. -/
theorem pos_or_neg (ht : 0 ≤ (Tolerance.tolerance : F)) {c : Extended F}
    (h : significant c = true) : Arithmetic.lt zero c = true ∨ Arithmetic.lt c zero = true := by
  rcases c with _ | n | x
  · cases h
  · cases n
    · exact .inl rfl
    · exact .inr rfl
  · have hlt : Tolerance.tolerance < |x| := of_decide_eq_true h
    have hne : x ≠ 0 := by
      rintro rfl
      rw [abs_zero] at hlt
      exact absurd ht hlt.not_ge
    rcases lt_or_gt_of_ne hne with hx | hx
    · exact .inr (decide_eq_true hx)
    · exact .inl (decide_eq_true hx)

/-- Exact numbers, of which every sum and every product is rounded. -/
@[nolint unusedArguments]
def Rounded (_round : F → Extended F) : Type := Extended F

instance (round : F → Extended F) : Arithmetic (Rounded round) :=
  { (inferInstance : Arithmetic (Extended F)) with
    add := fun x y => rounded round (Extended.add x y)
    sub := fun x y => rounded round (Extended.add x (Extended.neg y))
    mul := fun x y => rounded round (Extended.mul x y)
    div := fun x y => rounded round (Extended.div x y) }

/-- Any function that keeps the order can be what sums and products are rounded by. -/
def Rounded.rounding (ht : 0 ≤ (Tolerance.tolerance : F)) {round : F → Extended F}
    (hround : ∀ {x y : F}, x ≤ y → (round x).le (round y) = true) :
    Rounding (Rounded round) F where
  exact x := x
  round := round
  round_mono := hround
  exact_add _ _ := rfl
  exact_mul _ _ := rfl
  exact_zero := rfl
  le_eq _ _ := rfl
  lt_eq _ _ := rfl
  isNaN_eq_false_iff {x} := isNaN_eq_false_iff (a := x)
  isFinite_iff {x} := isFinite_iff (a := x)
  pos_or_neg := pos_or_neg ht

/-- Exact numbers are rounded to themselves. -/
def rounding (ht : 0 ≤ (Tolerance.tolerance : F)) : Rounding (Extended F) F where
  exact x := x
  round := finite
  round_mono h := decide_eq_true h
  exact_add x y := by
    cases x + y <;> rfl
  exact_mul x y := by
    cases x * y <;> rfl
  exact_zero := rfl
  le_eq _ _ := rfl
  lt_eq _ _ := rfl
  isNaN_eq_false_iff := isNaN_eq_false_iff
  isFinite_iff := isFinite_iff
  pos_or_neg := pos_or_neg ht

end Extended

end MixedInteger
