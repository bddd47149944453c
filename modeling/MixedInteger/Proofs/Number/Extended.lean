import MixedInteger.Proofs.Number.Laws

/-!
# Exact numbers

What a model says is a matter of exact numbers: sums are not rounded, and only bounds may be
infinite.  The operations of a model are read here over any ordered field, together with two
infinities and a value that is not a number, which stand where doubles have them.

## What is here

* `Extended` — a number of a field, an infinity, or not a number.
* `Extended.Tolerance`, `Extended.Tolerance.IsZero` — how small a coefficient has to be in order to
  be dropped.
* The laws of `Arithmetic.Sensible`, the sums of a commutative monoid, and products that change
  their sign with either factor.
-/

set_option autoImplicit false

namespace MixedInteger

/-- An exact number, which may be infinite or no number at all. -/
inductive Extended (F : Type) where
  /-- Not a number. -/
  | nan
  /-- An infinity. -/
  | infinite (negative : Bool)
  /-- A number. -/
  | finite (x : F)
  deriving DecidableEq

namespace Extended

section Operations

variable {F : Type} [Field F]

/-- The negative. -/
def neg : Extended F → Extended F
  | nan => nan
  | infinite n => infinite !n
  | finite x => finite (-x)

/-- The sum. -/
def add : Extended F → Extended F → Extended F
  | nan, _ => nan
  | _, nan => nan
  | infinite m, infinite n => if m = n then infinite m else nan
  | infinite m, finite _ => infinite m
  | finite _, infinite n => infinite n
  | finite x, finite y => finite (x + y)

instance : Add (Extended F) := ⟨add⟩

instance : Neg (Extended F) := ⟨neg⟩

instance : Sub (Extended F) := ⟨fun a b => add a (neg b)⟩

@[simp] theorem finite_add (x y : F) : (finite x + finite y : Extended F) = finite (x + y) := rfl

@[simp] theorem neg_finite (x : F) : (-finite x : Extended F) = finite (-x) := rfl

instance : InvolutiveNeg (Extended F) where
  neg_neg a := by
    rcases a with _ | n | x
    · rfl
    · exact congrArg infinite (Bool.not_not n)
    · exact congrArg finite (neg_neg x)

@[simp] theorem finite_sub (x y : F) : (finite x - finite y : Extended F) = finite (x - y) :=
  congrArg finite (sub_eq_add_neg x y).symm

instance : Zero (Extended F) := ⟨finite 0⟩

theorem zero_def : (0 : Extended F) = finite 0 := rfl

theorem sub_finite_zero (a : Extended F) : a - 0 = a := by
  rcases a with _ | n | x
  · rfl
  · rfl
  · rw [zero_def, finite_sub, sub_zero]

theorem add_infinite (m n : Bool) :
    (infinite m + infinite n : Extended F) = if m = n then infinite m else nan := rfl

theorem finite_add_infinite (x : F) (n : Bool) :
    (finite x + infinite n : Extended F) = infinite n := rfl

theorem infinite_add_finite (n : Bool) (x : F) :
    (infinite n + finite x : Extended F) = infinite n := rfl

theorem nan_add (a : Extended F) : nan + a = nan := rfl

theorem add_nan (a : Extended F) : a + nan = nan := by cases a <;> rfl

/-- Sums do not depend on the order in which they are taken: opposite infinities leave no number,
whatever is added to them. -/
instance : AddCommMonoid (Extended F) where
  add_assoc a b c := by
    rcases a with _ | m | x <;> rcases b with _ | n | y <;> rcases c with _ | k | z <;>
      simp only [nan_add, add_nan, finite_add, add_infinite, finite_add_infinite,
        infinite_add_finite, add_assoc]
    · cases m <;> cases n <;> cases k <;> rfl
    · cases m <;> cases n <;> rfl
    · cases n <;> cases k <;> rfl
  add_comm a b := by
    rcases a with _ | m | x <;> rcases b with _ | n | y <;>
      simp only [nan_add, add_nan, finite_add, add_infinite, finite_add_infinite,
        infinite_add_finite, add_comm]
    · cases m <;> cases n <;> rfl
  zero_add a := by
    rcases a with _ | m | x
    · rfl
    · rfl
    · exact congrArg finite (zero_add x)
  add_zero a := by
    rcases a with _ | m | x
    · rfl
    · rfl
    · exact congrArg finite (add_zero x)
  nsmul := nsmulRec

variable [LinearOrder F]

/-- The infinity with a sign, times a number. -/
def scaleInfinity (negative : Bool) (x : F) : Extended F :=
  if x = 0 then nan else infinite (negative ^^ decide (x < 0))

/-- The product. -/
def mul : Extended F → Extended F → Extended F
  | nan, _ => nan
  | _, nan => nan
  | infinite m, infinite n => infinite (m ^^ n)
  | infinite m, finite y => scaleInfinity m y
  | finite x, infinite n => scaleInfinity n x
  | finite x, finite y => finite (x * y)

/-- The quotient. -/
def div : Extended F → Extended F → Extended F
  | nan, _ => nan
  | _, nan => nan
  | infinite _, infinite _ => nan
  | infinite m, finite y => infinite (m ^^ decide (y < 0))
  | finite _, infinite _ => finite 0
  | finite x, finite y =>
    if y = 0 then if x = 0 then nan else infinite (decide (x < 0)) else finite (x / y)

instance : Mul (Extended F) := ⟨mul⟩

instance : Div (Extended F) := ⟨div⟩

@[simp] theorem finite_mul (x y : F) : (finite x * finite y : Extended F) = finite (x * y) := rfl

theorem finite_mul_infinite (x : F) (n : Bool) :
    (finite x * infinite n : Extended F) = scaleInfinity n x := rfl

theorem infinite_mul_finite (n : Bool) (x : F) :
    (infinite n * finite x : Extended F) = scaleInfinity n x := rfl

theorem scaleInfinity_pos (n : Bool) {c : F} (hc : 0 < c) : scaleInfinity n c = infinite n := by
  rw [scaleInfinity, if_neg hc.ne', decide_eq_false hc.not_gt, Bool.xor_false]

theorem scaleInfinity_neg (n : Bool) {c : F} (hc : c < 0) : scaleInfinity n c = infinite !n := by
  rw [scaleInfinity, if_neg hc.ne, decide_eq_true hc, Bool.xor_true]

theorem finite_div (x : F) {y : F} (hy : y ≠ 0) :
    (finite x / finite y : Extended F) = finite (x / y) := if_neg hy

/-- Less or equal. -/
def le : Extended F → Extended F → Bool
  | nan, _ => false
  | _, nan => false
  | infinite true, _ => true
  | _, infinite false => true
  | finite x, finite y => decide (x ≤ y)
  | _, _ => false

/-- Strictly less. -/
def lt : Extended F → Extended F → Bool
  | nan, _ => false
  | _, nan => false
  | infinite true, infinite true => false
  | infinite true, _ => true
  | infinite false, infinite false => false
  | _, infinite false => true
  | finite x, finite y => decide (x < y)
  | _, _ => false

/-- Equal. -/
def eq : Extended F → Extended F → Bool
  | nan, _ => false
  | a, b => decide (a = b)

variable [FloorRing F]

/-- The integer part of a number, towards zero. -/
def integerPart (x : F) : Int := if 0 ≤ x then ⌊x⌋ else ⌈x⌉

/-- The text of a number. -/
def text [ToString F] : Extended F → String
  | nan => "nan"
  | infinite n => if n then "-inf" else "inf"
  | finite x => toString x

end Operations

/-- The magnitude up to which coefficients are dropped. -/
class Tolerance (F : Type) where
  /-- The greatest magnitude that is dropped. -/
  tolerance : F

variable {F : Type} [Field F] [LinearOrder F]

/-- The tolerance of the doubles. -/
@[reducible] def Tolerance.standard : Tolerance F := ⟨1 / 10 ^ 15⟩

/-- No tolerance: only coefficients that are zero are dropped. -/
@[reducible] def Tolerance.none : Tolerance F := ⟨0⟩

/-- Only coefficients that are zero are dropped. -/
class Tolerance.IsZero (F : Type) [Field F] [Tolerance F] : Prop where
  /-- The magnitude up to which coefficients are dropped is zero. -/
  tolerance_eq : (Tolerance.tolerance : F) = 0

omit [LinearOrder F] in
theorem Tolerance.isZero_none : @Tolerance.IsZero F _ Tolerance.none :=
  @Tolerance.IsZero.mk F _ Tolerance.none rfl

variable [FloorRing F] [ToString F] [Tolerance F]

instance : Arithmetic (Extended F) where
  zero := finite 0
  one := finite 1
  infinity := infinite false
  tolerance := finite Tolerance.tolerance
  margin := finite (1 / 10 ^ 6)
  ofInt n := finite n
  abs
    | nan => nan
    | infinite _ => infinite false
    | finite x => finite |x|
  floor
    | finite x => finite ⌊x⌋
    | a => a
  lt := lt
  le := le
  eq := eq
  isNaN a := a == nan
  isFinite
    | finite _ => true
    | _ => false
  isInteger
    | finite x => decide ((⌊x⌋ : F) = x)
    | _ => false
  truncate
    | finite x => some (integerPart x)
    | _ => none
  compareInt
    | nan, _ => none
    | infinite n, _ => some (if n then .lt else .gt)
    | finite x, n => some (cmp x n)
  text := text
  compact := text
  scientific := text
  fixed := text

/-! ## Finite numbers -/

@[simp] theorem zero_eq : (Arithmetic.zero : Extended F) = finite 0 := rfl

@[simp] theorem one_eq : (Arithmetic.one : Extended F) = finite 1 := rfl

@[simp] theorem ofInt_eq (n : Int) : (Arithmetic.ofInt n : Extended F) = finite (n : F) := rfl

@[simp] theorem infinity_eq : (Arithmetic.infinity : Extended F) = infinite false := rfl

@[simp] theorem negInfinity_eq : (Arithmetic.negInfinity : Extended F) = infinite true := rfl

@[simp] theorem floor_finite (x : F) :
    Arithmetic.floor (finite x : Extended F) = finite (⌊x⌋ : F) := rfl

@[simp] theorem le_finite (x y : F) :
    Arithmetic.le (finite x : Extended F) (finite y) = decide (x ≤ y) := rfl

@[simp] theorem lt_finite (x y : F) :
    Arithmetic.lt (finite x : Extended F) (finite y) = decide (x < y) := rfl

@[simp] theorem eq_finite (x y : F) :
    Arithmetic.eq (finite x : Extended F) (finite y) = decide (x = y) :=
  decide_eq_decide.2 (Iff.of_eq (finite.injEq x y))

theorem eq_of_eq {a b : Extended F} (h : Arithmetic.eq a b = true) : a = b := by
  cases a with
  | nan => cases h
  | _ => exact of_decide_eq_true h

@[simp] theorem isFinite_finite (x : F) : Arithmetic.isFinite (finite x : Extended F) = true := rfl

/-- The number that a finite number is. -/
def number : Extended F → F
  | finite x => x
  | _ => 0

omit [LinearOrder F] [FloorRing F] [ToString F] [Tolerance F] in
@[simp] theorem number_finite (x : F) : (finite x).number = x := rfl

/-- With no tolerance, only zero is dropped. -/
theorem significant_finite [Tolerance.IsZero F] [IsStrictOrderedRing F] (c : F) :
    Arithmetic.significant (finite c : Extended F) = true ↔ c ≠ 0 := by
  change decide ((Tolerance.tolerance : F) < |c|) = true ↔ _
  rw [decide_eq_true_iff, Tolerance.IsZero.tolerance_eq, abs_pos]

/-- What is finite is a number of the field. -/
theorem eq_finite_of_isFinite {a : Extended F} (h : Arithmetic.isFinite a = true) :
    ∃ x, a = finite x := by
  cases a with
  | finite x => exact ⟨x, rfl⟩
  | _ => cases h

@[simp] theorem larger_finite (x y : F) :
    Arithmetic.larger (finite x : Extended F) (finite y) = finite (max x y) := by
  rw [Arithmetic.larger, lt_finite]
  rcases lt_or_ge x y with h | h
  · simp [h, max_eq_right h.le]
  · simp [not_lt.2 h, max_eq_left h]

@[simp] theorem smaller_finite (x y : F) :
    Arithmetic.smaller (finite x : Extended F) (finite y) = finite (min x y) := by
  rw [Arithmetic.smaller, lt_finite]
  rcases lt_or_ge y x with h | h
  · simp [h, min_eq_right h.le]
  · simp [not_lt.2 h, min_eq_left h]

/-! ## Laws -/

omit [LinearOrder F] [FloorRing F] [ToString F] [Tolerance F] in
theorem neg_sum (a b : Extended F) : -(a + b) = -a + -b := by
  rcases a with _ | m | x <;> rcases b with _ | n | y
  · rfl
  · rfl
  · rfl
  · rfl
  · cases m <;> cases n <;> rfl
  · rfl
  · rfl
  · rfl
  · exact congrArg finite (neg_add x y)

omit [FloorRing F] [ToString F] [Tolerance F] in
theorem scaleInfinity_not (n : Bool) (x : F) : scaleInfinity (!n) x = -scaleInfinity n x := by
  rw [scaleInfinity, scaleInfinity]
  split
  · rfl
  · exact congrArg infinite (Bool.not_xor _ _)

omit [FloorRing F] [ToString F] [Tolerance F] in
theorem neg_mul_finite (a : Extended F) (y : F) : -a * finite y = -(a * finite y) := by
  rcases a with _ | n | x
  · rfl
  · exact scaleInfinity_not n y
  · exact congrArg finite (neg_mul x y)

variable [IsStrictOrderedRing F]

omit [FloorRing F] [ToString F] [Tolerance F] in
theorem scaleInfinity_neg_right (n : Bool) (x : F) : scaleInfinity n (-x) = -scaleInfinity n x := by
  rcases lt_trichotomy x 0 with hx | rfl | hx
  · rw [scaleInfinity_neg n hx, scaleInfinity_pos n (neg_pos.2 hx)]
    exact congrArg infinite (Bool.not_not n).symm
  · rw [neg_zero, scaleInfinity, if_pos rfl]
    rfl
  · rw [scaleInfinity_pos n hx, scaleInfinity_neg n (neg_lt_zero.2 hx)]
    rfl

omit [FloorRing F] [ToString F] [Tolerance F] in
/-- A change of sign turns an order round. -/
theorem neg_le_neg_eq (a b : Extended F) : le (-a) (-b) = le b a := by
  rcases a with _ | m | x <;> rcases b with _ | n | y
  · rfl
  · rfl
  · rfl
  · rfl
  · cases m <;> cases n <;> rfl
  · cases m <;> rfl
  · rfl
  · cases n <;> rfl
  · exact decide_eq_decide.2 neg_le_neg_iff

/-- The sign of a factor is the sign of the product. -/
instance : HasDistribNeg (Extended F) where
  neg_mul a b := by
    rcases a with _ | m | x <;> rcases b with _ | n | y
    · rfl
    · rfl
    · rfl
    · rfl
    · exact congrArg infinite (Bool.not_xor _ _)
    · exact scaleInfinity_not m y
    · rfl
    · exact scaleInfinity_neg_right n x
    · exact congrArg finite (neg_mul x y)
  mul_neg a b := by
    rcases a with _ | m | x <;> rcases b with _ | n | y
    · rfl
    · rfl
    · rfl
    · rfl
    · exact congrArg infinite (Bool.xor_not _ _)
    · exact scaleInfinity_neg_right m y
    · rfl
    · exact scaleInfinity_not n x
    · exact congrArg finite (mul_neg x y)

omit [FloorRing F] [ToString F] [Tolerance F] in
theorem finite_one_mul (a : Extended F) : finite 1 * a = a := by
  rcases a with _ | n | x
  · rfl
  · rw [finite_mul_infinite, scaleInfinity_pos n zero_lt_one]
  · exact congrArg finite (one_mul x)

omit [FloorRing F] [ToString F] [Tolerance F] in
theorem finite_neg_one_mul (a : Extended F) : finite (-1) * a = -a := by
  rw [← neg_finite, neg_mul, finite_one_mul]

instance : Arithmetic.Sensible (Extended F) where
  isNaN_zero := rfl
  isNaN_one := rfl
  lt_one_zero := by simp [not_lt.2 (zero_le_one (α := F))]
  lt_zero_zero := by simp
  isNaN_neg a := by cases a <;> rfl
  lt_of_isNaN {a} b h := by
    cases a with
    | nan => rfl
    | _ => cases h
  isNaN_of_isFinite {a} h := by
    obtain ⟨x, rfl⟩ := eq_finite_of_isFinite h
    rfl
  isNaN_ofInt _ := rfl
  not_lt_ofInt {n} h := by simpa using h
  isFinite_ofInt_one := rfl
  isFinite_ofInt_of_le _ _ _ := rfl
  isFinite_ofInt_of_compareInt _ _ _ := rfl
  truncate_pos {a n} hi hlt heq h := by
    cases a with
    | nan => cases h
    | infinite b => cases h
    | finite x =>
      have hx : (⌊x⌋ : F) = x := of_decide_eq_true hi
      have hpos : 0 < x := by
        rcases lt_trichotomy x 0 with hc | hc | hc
        · refine absurd ?_ hlt
          simp [Arithmetic.compareInt, hc.cmp_eq_lt]
        · refine absurd ?_ heq
          simp [Arithmetic.compareInt, hc]
        · exact hc
      have hn : n = ⌊x⌋ := by
        rw [← Option.some.inj h, integerPart, if_pos hpos.le]
      rw [hn, ← Int.cast_pos (R := F), hx]
      exact hpos

end Extended

end MixedInteger
