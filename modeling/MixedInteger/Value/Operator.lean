import MixedInteger.Linear.Constraint
import MixedInteger.Value.Key
import MixedInteger.Value.Reading

/-!
# Operators on values

Variables, expressions and numbers are added, subtracted, multiplied, divided and compared.  An
operator looks at its left operand first; a number on the left lets the operand on the right
decide.

## What is here

* `Value.add`, `Value.sub`, `Value.mul`, `Value.div`, `Value.neg`: arithmetic.
* `Value.compare`: the comparison that builds a constraint.
* `Value.isEqual`, `Value.isOneOf`: equality, and membership in a list.
* `Value.sumOf`: the sum of any number of values, also within lists.
* `Value.evaluate`: the value of an expression under a table of values.
-/

set_option autoImplicit false

namespace MixedInteger

namespace Value

variable {K : Type} [Arithmetic K]

open Arithmetic

/-- The expression of an operand that is a variable or an expression. -/
def linear? : Value K → Option (LinearExpr K)
  | var v => some (.ofVariable v)
  | expr e => some e
  | _ => Option.none

/-- An expression plus `sign` times a value. -/
def combine (e : LinearExpr K) (sign : K) : Value K → Except Fault (LinearExpr K)
  | scalar s => do return e.shift sign (← s.toNumber)
  | var v => .ok (e.combine sign (.ofVariable v))
  | expr f => .ok (e.combine sign f)
  | _ => .error .unsupportedOperand

/-- The sum of two operands. -/
def add (a b : Value K) : Except Fault (Value K) :=
  match a.linear?, b.linear? with
  | some e, _ => (combine e one b).map expr
  | Option.none, some f => (combine f one a).map expr
  | Option.none, Option.none => .error .unsupportedOperand

/-- The difference of two operands. -/
def sub (a b : Value K) : Except Fault (Value K) :=
  match a.linear?, b.linear? with
  | some e, _ => (combine e (-one) b).map expr
  | Option.none, some f => (combine f.negate one a).map expr
  | Option.none, Option.none => .error .unsupportedOperand

/-- An expression times a value, which has to be constant unless the expression is. -/
def product (e : LinearExpr K) : Value K → Except Fault (LinearExpr K)
  | scalar s => do return e.scale (← s.toNumber)
  | expr f =>
    if f.isConstant then .ok (e.scale f.constant)
    else if e.isConstant then .ok (f.scale e.constant)
    else .error .quadratic
  | _ => .error .quadratic

/-- The product of two operands. -/
def mul (a b : Value K) : Except Fault (Value K) :=
  match a.linear?, b.linear? with
  | some e, _ => (product e b).map expr
  | Option.none, some f => (product f a).map expr
  | Option.none, Option.none => .error .unsupportedOperand

/-- An expression divided by a number. -/
def quotient (e : LinearExpr K) (s : Scalar K) : Except Fault (LinearExpr K) := do
  let x ← s.toNumber
  if eq x zero then .error .divisionByZero else .ok (e.scale (one / x))

/-- The quotient of two operands. -/
def div (a b : Value K) : Except Fault (Value K) :=
  match a, b with
  | var v, scalar s => (quotient (.ofVariable v) s).map expr
  | expr e, scalar s => (quotient e s).map expr
  | var _, _ => .error .variableDivisor
  | expr _, _ => .error .expressionDivisor
  | _, _ => .error .unsupportedOperand

/-- An operand with its sign changed. -/
def neg (a : Value K) : Except Fault (Value K) :=
  match a.linear? with
  | some e => .ok (expr e.negate)
  | Option.none => .error .unsupportedOperand

/-- The constraint that an expression stands in a relation to a value.  A number stays on the
right; an expression moves to the left. -/
def relateExpr (e : LinearExpr K) (r : Relation) (name : Value K) :
    Value K → Except Fault (Constraint K)
  | scalar s => do return ⟨e, r, ← s.toNumber, name⟩
  | var v => .ok ⟨e.minus (.ofVariable v), r, zero, name⟩
  | expr f => .ok ⟨e.minus f, r, zero, name⟩
  | _ => .error .rightHandSide

/-- The constraint that a comparison of two operands builds, if one of them is a variable or an
expression. -/
def compare? (r : Relation) (a b : Value K) : Option (Except Fault (Constraint K)) :=
  match a.linear?, b.linear? with
  | some e, _ => some (relateExpr e r none b)
  | Option.none, some f => some (relateExpr f r.flip none a)
  | Option.none, Option.none => Option.none

/-- Whether two values are one and the same. -/
def isSame : Value K → Value K → Bool
  | sequence (.list (some i)) _, sequence (.list (some j)) _ => i == j
  | table _ (some i), table _ (some j) => i == j
  | a, b => a.sameKey b

mutual

/-- Whether two operands are equal, where a constraint in the answer has no truth value.  Sequences
and tables are compared part by part. -/
def isEqual (a b : Value K) : Except Fault Bool :=
  match compare? .eq a b with
  | some c => c.bind fun _ => .error .noTruthValue
  | Option.none =>
    match a, b with
    | scalar s, scalar t => .ok (s.eq t)
    | sequence p vs, sequence q ws =>
      if p.isFixed && q.isFixed then areEqual vs ws
      else if p.isList && q.isList && vs.length == ws.length then areEqual vs ws
      else .ok false
    | table es _, table fs _ => if es.length == fs.length then areEntries fs es else .ok false
    | v, w => .ok (v.sameKey w)

/-- Whether the values of two lists are equal in pairs.  What is itself is not compared. -/
def areEqual : List (Value K) → List (Value K) → Except Fault Bool
  | [], [] => .ok true
  | v :: vs, w :: ws => do
    if v.isSame w || (← isEqual v w) then areEqual vs ws else return false
  | _, _ => .ok false

/-- Whether all entries of a list are equal to entries of a table. -/
def areEntries (entries : List (Value K × Value K)) : List (Value K × Value K) → Except Fault Bool
  | [] => .ok true
  | (k, v) :: rest => do
    match lookup? k entries with
    | some w => if v.isSame w || (← isEqual v w) then areEntries entries rest else return false
    | Option.none => return false

end

/-- The comparison of two operands. -/
def compare (r : Relation) (a b : Value K) : Except Fault (Value K) :=
  match compare? r a b, r with
  | some c, _ => c.map made
  | Option.none, .eq => bool <$> a.isEqual b
  | Option.none, _ => .error .unsupportedOperand

/-- Whether two operands differ. -/
def differ (a b : Value K) : Except Fault (Value K) := do
  return bool !(← a.isEqual b)

/-- Whether a value is one of a list, tried in order.  What is itself is not compared. -/
def isOneOf (v : Value K) : List (Value K) → Except Fault Bool
  | [] => .ok false
  | w :: rest => do
    if w.isSame v then return true
    else if ← w.isEqual v then return true
    else isOneOf v rest

mutual

/-- A sum of terms and a constant with one more value added in. -/
def addInto (acc : Terms K × K) : Value K → Except Fault (Terms K × K)
  | scalar s => do return (acc.1, acc.2 + (← s.toNumber))
  | var v => .ok (acc.1.add v one, acc.2)
  | expr e => .ok (acc.1.addAll e.terms, acc.2 + e.constant)
  | sequence .matrix (_ :: _) => .error .endless
  | sequence _ items => addAllInto acc items
  | table entries _ => addKeysInto acc entries
  | v => .error (.notSummable v.kindName)

/-- A sum with several more values added in. -/
def addAllInto (acc : Terms K × K) : List (Value K) → Except Fault (Terms K × K)
  | [] => .ok acc
  | v :: vs => do addAllInto (← addInto acc v) vs

/-- A sum with the keys of a table added in. -/
def addKeysInto (acc : Terms K × K) : List (Value K × Value K) → Except Fault (Terms K × K)
  | [] => .ok acc
  | (k, _) :: rest => do addKeysInto (← addInto acc k) rest

end

/-- The sum of variables, expressions and numbers, which may stand in lists. -/
def sumOf (vs : List (Value K)) : Except Fault (LinearExpr K) := do
  let (ts, c) ← addAllInto ([], zero) vs
  return .ofTerms ts c

/-- A coefficient times the value of a variable. -/
def weigh (c : K) : Value K → Except Fault (Value K)
  | scalar s => do return real (c * (← s.toNumber))
  | v => mul (real c) v

/-- A running total plus one more value. -/
def accumulate (total v : Value K) : Except Fault (Value K) :=
  match total, v with
  | scalar s, scalar t => do return real ((← s.toNumber) + (← t.toNumber))
  | _, _ => add total v

/-- The value of an expression, given the value of each variable. -/
def evaluateWith (lookup : Variable K → Except Fault (Value K)) (e : LinearExpr K) :
    Except Fault (Value K) :=
  e.terms.foldlM (fun total t => do accumulate total (← weigh t.2 (← lookup t.1))) (real e.constant)

/-- The value of a variable in a table. -/
def entryOf (values : Value K) (v : Variable K) : Except Fault (Value K) :=
  match values with
  | table entries _ =>
    match lookup? (var v) entries with
    | some x => .ok x
    | Option.none => .error .missingKey
  | _ => .error .unsupportedOperand

/-- The value of an expression under a table of values. -/
def evaluate (e : LinearExpr K) (values : Value K) : Except Fault (Value K) :=
  evaluateWith (entryOf values) e

end Value

end MixedInteger
