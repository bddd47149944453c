import MixedInteger.Linear.Variable

/-!
# Linear expressions

An expression is a list of terms, one for each variable that occurs, and a constant.  The order of
the terms is the order in which the variables first came in.  Combining expressions adds up the
coefficients of a variable and then drops the terms whose coefficient is too small to keep.

## What is here

* `Terms`, `Terms.add`: coefficients by variable, and one more coefficient added in.
* `LinearExpr.ofTerms`: the terms that an expression keeps.
* `LinearExpr.plus`, `LinearExpr.minus`, `LinearExpr.scale` and their kin: the arithmetic.
* `LinearExpr.value`: what an expression comes to under an assignment.
-/

set_option autoImplicit false

namespace MixedInteger

/-- Coefficients by variable, in the order in which the variables came in. -/
abbrev Terms (K : Type) := List (Variable K × K)

namespace Terms

variable {K : Type}

/-- The coefficient of a variable, if it occurs. -/
def get? (ts : Terms K) (v : Variable K) : Option K :=
  (ts.find? fun t => t.1.id = v.id).map Prod.snd

/-- Adds `c` to the coefficient of `v`; a variable that does not occur comes last, with `c` added
to zero. -/
def add [Arithmetic K] (v : Variable K) (c : K) : Terms K → Terms K
  | [] => [(v, Arithmetic.zero + c)]
  | t :: ts => if t.1.id = v.id then (t.1, t.2 + c) :: ts else t :: add v c ts

/-- Adds a list of terms, one after the other. -/
def addAll [Arithmetic K] (ts us : Terms K) : Terms K :=
  us.foldl (fun acc u => acc.add u.1 u.2) ts

end Terms

namespace LinearExpr

variable {K : Type}

/-- The variables of the expression, in order. -/
def vars (e : LinearExpr K) : List (Variable K) := e.terms.map Prod.fst

/-- Whether no variable occurs. -/
def isConstant (e : LinearExpr K) : Bool := e.terms.isEmpty

section Arithmetic

variable [Arithmetic K]

open Arithmetic

/-- The expression with these coefficients, as far as they are large enough to be kept. -/
def ofTerms (ts : Terms K) (c : K) : LinearExpr K :=
  ⟨ts.filter fun t => significant t.2, c⟩

/-- The expression that is one variable. -/
def ofVariable (v : Variable K) : LinearExpr K := ofTerms [(v, one)] zero

/-- The expression without variables. -/
def ofConstant (c : K) : LinearExpr K := ⟨[], c⟩

/-- The coefficient of a variable, zero for one that does not occur. -/
def coefficient (e : LinearExpr K) (v : Variable K) : K := (Terms.get? e.terms v).getD zero

/-- The sum of the first expression and `sign` times the second. -/
def combine (a : LinearExpr K) (sign : K) (b : LinearExpr K) : LinearExpr K :=
  ofTerms (Terms.addAll a.terms (b.terms.map fun t => (t.1, sign * t.2)))
    (a.constant + sign * b.constant)

/-- The sum of an expression and `sign` times a number. -/
def shift (e : LinearExpr K) (sign c : K) : LinearExpr K :=
  ofTerms e.terms (e.constant + sign * c)

/-- The sum of two expressions. -/
def plus (a b : LinearExpr K) : LinearExpr K := a.combine one b

/-- The difference of two expressions. -/
def minus (a b : LinearExpr K) : LinearExpr K := a.combine (-one) b

/-- The expression times a number. -/
def scale (e : LinearExpr K) (s : K) : LinearExpr K :=
  ofTerms (e.terms.map fun t => (t.1, t.2 * s)) (e.constant * s)

/-- The expression with all signs changed. -/
def negate (e : LinearExpr K) : LinearExpr K := e.scale (-one)

/-- A number times a variable. -/
def monomial (c : K) (v : Variable K) : LinearExpr K := (ofVariable v).scale c

/-- The value of an expression under an assignment of numbers to the variables. -/
def value (assign : Variable K → K) (e : LinearExpr K) : K :=
  e.terms.foldl (fun total t => total + t.2 * assign t.1) e.constant

end Arithmetic

end LinearExpr

end MixedInteger
