import MixedInteger.Linear.Constraint
import MixedInteger.Fault

/-!
# Bounds of an expression

The bounds of the variables bound an expression from both sides.  The reformulations derive their
constants from such an interval, which then has to be finite.

## What is here

* `Interval`: two ends, either of which may be infinite.
* `LinearExpr.interval`: the bounds of an expression.
* `LinearExpr.finiteInterval`: the bounds, or a caller's constant in their place.
* `LinearExpr.isIntegral`: whether an expression takes integer values only.
-/

set_option autoImplicit false

namespace MixedInteger

/-- A closed interval; either end may be infinite. -/
structure Interval (K : Type) where
  /-- The lower end. -/
  lower : K
  /-- The upper end. -/
  upper : K
  deriving DecidableEq, Repr

variable {K : Type}

/-- The bounds of a variable. -/
def Variable.interval (v : Variable K) : Interval K := ⟨v.lower, v.upper⟩

section Arithmetic

variable [Arithmetic K]

open Arithmetic

namespace Interval

/-- The interval moved by a coefficient times the bounds of a variable. -/
def addTerm (i : Interval K) (t : Variable K × K) : Interval K :=
  if lt zero t.2 then ⟨i.lower + t.2 * t.1.lower, i.upper + t.2 * t.1.upper⟩
  else if lt t.2 zero then ⟨i.lower + t.2 * t.1.upper, i.upper + t.2 * t.1.lower⟩
  else i

/-- Whether both ends are finite. -/
def isFinite (i : Interval K) : Bool := Arithmetic.isFinite i.lower && Arithmetic.isFinite i.upper

/-- The interval from minus a number to the number. -/
def symmetric (m : K) : Interval K := ⟨-m, m⟩

/-- The interval, if it is finite. -/
def requireFinite (context : String) (i : Interval K) : Except Fault (Interval K) :=
  if i.isFinite then .ok i
  else .error (.infiniteBounds context (Arithmetic.text i.lower) (Arithmetic.text i.upper))

end Interval

namespace LinearExpr

/-- The bounds of an expression over the bounds of its variables. -/
def interval (e : LinearExpr K) : Interval K :=
  e.terms.foldl Interval.addTerm ⟨e.constant, e.constant⟩

/-- The bounds that a reformulation works with: a caller's constant on both sides of zero, or else
the bounds of the expression, which must be finite. -/
def finiteInterval (context : String) (bigM : Option K) (e : LinearExpr K) :
    Except Fault (Interval K) :=
  match bigM with
  | some m => .ok (.symmetric m)
  | none => e.interval.requireFinite context

/-- Whether the constant and the coefficients are integers and no variable is continuous. -/
def isIntegral (e : LinearExpr K) : Bool :=
  Arithmetic.isInteger e.constant &&
    e.terms.all fun t => t.1.isInteger && Arithmetic.isInteger t.2

end LinearExpr

end Arithmetic

end MixedInteger
