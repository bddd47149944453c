import MixedInteger.Number.Arithmetic
import MixedInteger.Fault

/-!
# Numbers as a caller writes them

A caller may write a truth value, an unbounded integer or a number of the model.  Truth values
count as zero and one.  Integers keep their exact value until they meet a number of the model, and
comparisons between the two are exact.

## What is here

* `Scalar`, `Scalar.toNumber`: the three kinds and their conversion.
* `Scalar.lt`, `Scalar.le`, `Scalar.eq`: exact comparisons.
* `Scalar.text`: how a scalar is shown.
-/

set_option autoImplicit false

namespace MixedInteger

/-- A number as a caller writes it. -/
inductive Scalar (K : Type) where
  /-- A truth value. -/
  | truth (b : Bool)
  /-- An unbounded integer. -/
  | integer (n : Int)
  /-- A number of the model.  What is not a number does not equal itself and can be known again by a
  mark only, which it gets when it is handed over. -/
  | real (x : K) (mark : Option Nat)
  deriving DecidableEq, Repr

namespace Scalar

variable {K : Type} [Arithmetic K]

/-- The number of the model nearest to an integer, if the integer is in range. -/
def ofInt? (n : Int) : Except Fault K :=
  let x := (Arithmetic.ofInt n : K)
  if Arithmetic.isFinite x then .ok x else .error .outOfRange

/-- The scalar as a number of the model. -/
def toNumber : Scalar K → Except Fault K
  | truth b => .ok (if b then Arithmetic.one else Arithmetic.zero)
  | integer n => ofInt? n
  | real x _ => .ok x

/-- The exact value of a scalar: an integer or a number of the model. -/
def exact : Scalar K → Int ⊕ K
  | truth b => .inl (if b then 1 else 0)
  | integer n => .inl n
  | real x _ => .inr x

/-- The first scalar is strictly less than the second. -/
def lt (a b : Scalar K) : Bool :=
  match a.exact, b.exact with
  | .inl m, .inl n => m < n
  | .inl m, .inr y => Arithmetic.compareInt y m == some .gt
  | .inr x, .inl n => Arithmetic.compareInt x n == some .lt
  | .inr x, .inr y => Arithmetic.lt x y

/-- The two scalars are equal. -/
def eq (a b : Scalar K) : Bool :=
  match a.exact, b.exact with
  | .inl m, .inl n => m == n
  | .inl m, .inr y => Arithmetic.compareInt y m == some .eq
  | .inr x, .inl n => Arithmetic.compareInt x n == some .eq
  | .inr x, .inr y => Arithmetic.eq x y

/-- The two scalars are one: they are equal or have the same mark. -/
def same (a b : Scalar K) : Bool :=
  a.eq b || match a, b with
    | real _ (some i), real _ (some j) => i == j
    | _, _ => false

/-- The first scalar is less than the second or equal to it. -/
def le (a b : Scalar K) : Bool := a.lt b || a.eq b

/-- Whether the scalar differs from zero. -/
def nonzero (a : Scalar K) : Bool := !a.eq (.integer 0)

/-- Whether the scalar is large enough to be kept as a coefficient. -/
def significant : Scalar K → Bool
  | truth b => b
  | integer n => (real (Arithmetic.tolerance : K) none).lt (integer n.natAbs)
  | real x _ => Arithmetic.significant x

/-- The shown form of a scalar. -/
def text : Scalar K → String
  | truth b => if b then "True" else "False"
  | integer n => toString n
  | real x _ => Arithmetic.text x

/-- The kind of the scalar, as messages name it. -/
def kindName : Scalar K → String
  | truth _ => "bool"
  | integer _ => "int"
  | real _ _ => "float"

end Scalar

end MixedInteger
