import MixedInteger.Linear.Interval
import MixedInteger.Value.Operator
import MixedInteger.Value.Shown

/-!
# Reading arguments

What an operation expects of an argument, and the fault when the argument is something else.

## What is here

* `Value.toDomain`, `Value.toRelation`, `Value.toDirection`: enumerated arguments.
* `Value.toBinary`: a binary variable.
* `Value.toConstraint`, `Value.makeConstraint`: constraints, given and made.
* `Value.operands`: operands given one by one or as one list.
* `Value.intervalOf`, `Value.finiteIntervalOf`, `Value.integralOf`: bounds of any argument.
-/

set_option autoImplicit false

namespace MixedInteger

namespace Value

variable {K : Type} [Arithmetic K]

open Arithmetic

/-- The fault of a value that is no member of an enumeration, which shows the value. -/
def notMember (v : Value K) : Fault :=
  match v.shown with
  | .ok _ => .malformed
  | .error f => f

/-- The domain that an argument names.  An expression cannot be compared with a name. -/
def toDomain : Value K → Except Fault Domain
  | domain d => .ok d
  | text "continuous" => .ok .continuous
  | text "integer" => .ok .integer
  | text "binary" => .ok .binary
  | expr _ => .error .rightHandSide
  | v => .error v.notMember

/-- The direction that an argument names. -/
def toDirection : Value K → Except Fault Direction
  | direction d => .ok d
  | text "minimize" => .ok .minimize
  | text "maximize" => .ok .maximize
  | expr _ => .error .rightHandSide
  | v => .error v.notMember

/-- The relation that an argument names; equality has two spellings. -/
def toRelation : Value K → Except Fault Relation
  | relation r => .ok r
  | text "<=" => .ok .le
  | text ">=" => .ok .ge
  | text "=" => .ok .eq
  | text "==" => .ok .eq
  | var _ | expr _ => .error .rightHandSide
  | v => .error v.notMember

/-- A binary variable. -/
def toBinary (context : String) : Value K → Except Fault (Variable K)
  | var v => if v.isBinary then .ok v else do throw (.notBinary context (← v.name.display))
  | v => do throw (.notBinary context (← v.shown))

/-- Binary variables, checked in order. -/
def toBinaries (context : String) (vs : List (Value K)) : Except Fault (List (Variable K)) :=
  vs.mapM (toBinary context)

/-- A constraint that a reformulation takes. -/
def toConstraint (context : String) : Value K → Except Fault (Constraint K)
  | constraint c _ => .ok c
  | _ => .error (.constraintExpected context)

/-- A constraint from its parts. -/
def makeConstraint (lhs rhs rel name : Value K) : Except Fault (Constraint K) := do
  let e ← lhs.toExpr
  let c ← relateExpr e .eq name rhs
  return { c with relation := ← rel.toRelation }

/-- The operands of a call: a single argument that holds several values stands for them. -/
def operands (args : List (Value K)) : List (Value K) :=
  match args with
  | [sequence _ items] => items
  | [table entries _] => entries.map Prod.fst
  | _ => args

/-- The bounds of an argument. -/
def intervalOf : Value K → Except Fault (Interval K)
  | var v => .ok v.interval
  | scalar s => do
    let x ← s.toNumber
    return ⟨x, x⟩
  | expr e => .ok e.interval
  | _ => .error .missingProperty

/-- The bounds of an argument, or a caller's constant on both sides of zero. -/
def finiteIntervalOf (v context bigM : Value K) : Except Fault (Interval K) := do
  match ← bigM.toNumber? with
  | some m => return .symmetric m
  | Option.none =>
    let i ← v.intervalOf
    if i.isFinite then return i else i.requireFinite (← context.display)

/-- Whether an argument takes integer values only. -/
def integralOf : Value K → Except Fault Bool
  | var v => .ok v.isInteger
  | scalar s => do return isInteger (← s.toNumber)
  | expr e => .ok e.isIntegral
  | _ => .error .missingProperty

/-- The two ends of an interval as a value. -/
def ofInterval (i : Interval K) : Value K := sequence .bounds [real i.lower, real i.upper]

/-- The coefficients of a table that are large enough to be kept. -/
def keptCoefficients (entries : List (Value K × Value K)) : Except Fault (List (Value K × K)) :=
  entries.filterMapM fun e =>
    match e.2 with
    | scalar s =>
      if s.significant then do return some (e.1, ← s.toNumber) else .ok Option.none
    | _ => .error .unsupportedOperand

/-- A term whose key has to be a variable. -/
def variableTerm (t : Value K × K) : Except Fault (Variable K × K) :=
  match t.1 with
  | var v => .ok (v, t.2)
  | _ => .error .missingProperty

/-- An expression from a table of coefficients and a constant.  A value that counts as false
stands for an empty table. -/
def makeExpr (coefficients constant : Value K) : Except Fault (LinearExpr K) := do
  let entries ← match ← coefficients.truth, coefficients with
    | false, _ => pure []
    | true, table entries _ => pure entries
    | true, _ => throw .missingProperty
  let kept ← keptCoefficients entries
  let c ← constant.toNumber
  return ⟨← kept.mapM variableTerm, c⟩

/-- A coefficient and the key under which it stands, from a sequence of two. -/
def toPair (pair : Value K) : Except Fault (Value K × Value K) := do
  match ← pair.elements with
  | [c, key] => return (key, c)
  | _ => throw .malformed

/-- Adds a coefficient to the one under a key. -/
def addCoefficient (sums : List (Value K × Value K)) (e : Value K × Value K) :
    Except Fault (List (Value K × Value K)) := do
  if !e.1.isKey then throw .unsupportedOperand
  return insert e.1 (← accumulate ((lookup? e.1 sums).getD (real zero)) e.2) sums

/-- An expression from pairs of a coefficient and a variable.  All pairs are read before the first
one is added. -/
def makeExprFromTerms (pairs constant : Value K) : Except Fault (LinearExpr K) := do
  let entries ← (← pairs.elements).mapM toPair
  makeExpr (newTable (← entries.foldlM addCoefficient [])) constant

end Value

end MixedInteger
