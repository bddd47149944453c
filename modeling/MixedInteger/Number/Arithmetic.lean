import MixedInteger.Number.Binary64

/-!
# The numbers of a model

Coefficients, bounds and right-hand sides are numbers of a type `K` with the operations below.
Models that run use double-precision numbers; the operations carry no laws, so that the same
definitions can be read over exact numbers.

## What is here

* `Arithmetic`: the operations, and an instance for doubles.
* `Arithmetic.larger`, `Arithmetic.smaller`: the choice between two numbers, the first one unless
  the second is strictly better.
* `Arithmetic.significant`: whether a coefficient is kept in an expression.
-/

set_option autoImplicit false

namespace MixedInteger

/-- The operations on numbers that models are built with. -/
class Arithmetic (K : Type) extends Add K, Sub K, Mul K, Div K, Neg K where
  /-- Zero. -/
  zero : K
  /-- One. -/
  one : K
  /-- The upper bound of a variable without one. -/
  infinity : K
  /-- Coefficients of this magnitude or less are dropped from expressions. -/
  tolerance : K
  /-- The margin by which a constraint over continuous values fails. -/
  margin : K
  /-- The number nearest to an integer; it is not finite when the integer is out of range. -/
  ofInt : Int → K
  /-- The magnitude. -/
  abs : K → K
  /-- The greatest integer not above. -/
  floor : K → K
  /-- Strictly less. -/
  lt : K → K → Bool
  /-- Less or equal. -/
  le : K → K → Bool
  /-- Equal. -/
  eq : K → K → Bool
  /-- Not a number. -/
  isNaN : K → Bool
  /-- Neither an infinity nor not a number. -/
  isFinite : K → Bool
  /-- Finite and an integer. -/
  isInteger : K → Bool
  /-- The integer part of a finite number, towards zero. -/
  truncate : K → Option Int
  /-- The exact comparison with an integer. -/
  compareInt : K → Int → Option Ordering
  /-- The shortest text of the number. -/
  text : K → String
  /-- The number in at most fifteen significant digits. -/
  compact : K → String
  /-- The number with six places and an exponent. -/
  scientific : K → String
  /-- The number with three places. -/
  fixed : K → String

namespace Arithmetic

variable {K : Type} [Arithmetic K]

/-- The first number unless the second is greater. -/
def larger (a b : K) : K := if lt a b then b else a

/-- The first number unless the second is less. -/
def smaller (a b : K) : K := if lt b a then b else a

/-- The greatest number of a list, the first of equals. -/
def largest (a : K) (rest : List K) : K := rest.foldl larger a

/-- The least number of a list, the first of equals. -/
def smallest (a : K) (rest : List K) : K := rest.foldl smaller a

/-- Whether a coefficient is large enough to be kept in an expression. -/
def significant (c : K) : Bool := lt tolerance (abs c)

/-- The number minus infinity. -/
def negInfinity : K := -infinity

end Arithmetic

/-- The greatest integer not above a double, as a double. -/
def floorFloat (x : Float) : Float :=
  let d := Binary64.ofFloat x
  if d.isInteger then x
  else match d.floor with
    | some n => Float.ofInt n
    | none => x

instance : Arithmetic Float where
  zero := 0.0
  one := 1.0
  infinity := 1.0 / 0.0
  tolerance := 1e-15
  margin := 1e-6
  ofInt := Float.ofInt
  abs := Float.abs
  floor := floorFloat
  lt x y := Float.lt x y
  le x y := Float.le x y
  eq x y := x == y
  isNaN := Float.isNaN
  isFinite := Float.isFinite
  isInteger x := (Binary64.ofFloat x).isInteger
  truncate x := (Binary64.ofFloat x).truncate
  compareInt x n := (Binary64.ofFloat x).compareInt n
  text x := String.ofList (Binary64.ofFloat x).text
  compact x := String.ofList (Binary64.ofFloat x).compact
  scientific x := String.ofList (Binary64.ofFloat x).scientific
  fixed x := String.ofList (Binary64.ofFloat x).fixed

end MixedInteger
