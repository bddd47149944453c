import MixedInteger.Model.Build

/-!
# Logic on binary variables

Truth tables as linear constraints: the result of a connective is a binary variable that the rows
tie to the operands.

## What is here

* `LinearExpr.total`: the sum of variables.
* `Logic.conjunctionRows`, `Logic.disjunctionRows`, `Logic.negationRows`, `Logic.exclusiveRows`,
  `Logic.compactRows`, `Logic.implicationRow`: the rows.
* `Build.conjunction`, `Build.disjunction`, `Build.negation`, `Build.exclusive`,
  `Build.implication`: the steps that add them.
-/

set_option autoImplicit false

namespace MixedInteger

variable {K : Type} [Arithmetic K]

open Arithmetic

namespace LinearExpr

/-- The sum of variables, counted as often as they occur. -/
def total (vs : List (Variable K)) : LinearExpr K :=
  ofTerms (vs.foldl (fun ts v => ts.add v one) []) zero

end LinearExpr

/-- The nameless constraint that an expression is at most a number. -/
def atMost (e : LinearExpr K) (b : K) : Constraint K := ⟨e, .le, b, .none⟩

/-- The nameless constraint that an expression is at least a number. -/
def atLeast (e : LinearExpr K) (b : K) : Constraint K := ⟨e, .ge, b, .none⟩

/-- The nameless constraint that an expression equals a number. -/
def exactly (e : LinearExpr K) (b : K) : Constraint K := ⟨e, .eq, b, .none⟩

namespace Logic

open LinearExpr

/-- `z` is at most each operand, and at least what they leave over. -/
def conjunctionRows (z : Variable K) (vs : List (Variable K)) : List (Constraint K) :=
  vs.map (fun v => atMost ((ofVariable z).minus (ofVariable v)) zero) ++
    [atLeast ((ofVariable z).minus (total vs)) (ofInt (1 - vs.length))]

/-- `z` is at least each operand, and at most their sum. -/
def disjunctionRows (z : Variable K) (vs : List (Variable K)) : List (Constraint K) :=
  vs.map (fun v => atLeast ((ofVariable z).minus (ofVariable v)) zero) ++
    [atLeast ((total vs).minus (ofVariable z)) zero]

/-- `z` and `x` sum up to one. -/
def negationRows (z x : Variable K) : List (Constraint K) :=
  [exactly ((ofVariable z).plus (ofVariable x)) one]

/-- The four rows that cut off each wrong value of `z`. -/
def exclusiveRows (z x y : Variable K) : List (Constraint K) :=
  let z := ofVariable z
  let x := ofVariable x
  let y := ofVariable y
  [atMost ((z.minus x).minus y) zero,
   atLeast ((z.minus x).plus y) zero,
   atLeast ((z.plus x).minus y) zero,
   atMost ((z.plus x).plus y) (ofInt 2)]

/-- `z` is `x + y - 2 * w`, where `w` is the conjunction of `x` and `y`. -/
def compactRows (z x y w : Variable K) : List (Constraint K) :=
  let z := ofVariable z
  let x := ofVariable x
  let y := ofVariable y
  [exactly (((z.minus x).minus y).plus (monomial (ofInt 2) w)) zero]

/-- `x` is at most `y`. -/
def implicationRow (x y : Variable K) : Constraint K :=
  atMost ((ofVariable x).minus (ofVariable y)) zero

end Logic

/-- The two ways of writing an exclusive or. -/
inductive ExclusiveEncoding where
  /-- Four inequalities. -/
  | inequalities
  /-- One equality with an auxiliary conjunction. -/
  | compact
  deriving DecidableEq, Repr

namespace Build

/-- A binary variable that is one exactly when all operands are. -/
def conjunction (vs : List (Variable K)) : Build K (Variable K) := do
  let z ← selector "and"
  discard <| registerAll (Logic.conjunctionRows z vs)
  return z

/-- A binary variable that is one exactly when some operand is. -/
def disjunction (vs : List (Variable K)) : Build K (Variable K) := do
  let z ← selector "or"
  discard <| registerAll (Logic.disjunctionRows z vs)
  return z

/-- A binary variable that is one exactly when the operand is zero. -/
def negation (x : Variable K) : Build K (Variable K) := do
  let z ← selector "not"
  discard <| registerAll (Logic.negationRows z x)
  return z

/-- A binary variable that is one exactly when one of the two operands is. -/
def exclusive (encoding : ExclusiveEncoding) (x y : Variable K) : Build K (Variable K) := do
  match encoding with
  | .inequalities =>
    let z ← selector "xor"
    discard <| registerAll (Logic.exclusiveRows z x y)
    return z
  | .compact =>
    let w ← conjunction [x, y]
    let z ← selector "xor"
    discard <| registerAll (Logic.compactRows z x y w)
    return z

/-- The constraint that `y` is one whenever `x` is. -/
def implication (x y : Variable K) : Build K (Constraint K) :=
  register (Logic.implicationRow x y) .none

end Build

end MixedInteger
