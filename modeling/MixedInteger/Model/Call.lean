import MixedInteger.Reformulation.Indicator
import MixedInteger.Reformulation.Extremum
import MixedInteger.Reformulation.Product
import MixedInteger.Reformulation.Division
import MixedInteger.Reformulation.Reify
import MixedInteger.Value.Argument

/-!
# Calls on a model

The ways in which a caller can change a model.  A call checks its arguments, one after the other,
and then takes its building steps.

## What is here

* `Model.Call`: the calls with their arguments.
* `Build.perform`: what a call does and answers.
-/

set_option autoImplicit false

namespace MixedInteger

/-- A call on a model. -/
inductive Model.Call (K : Type) where
  /-- A variable of any domain. -/
  | addVariable (domain lower upper name : Value K)
  /-- Several variables of one kind. -/
  | addVariables (count domain lower upper stem : Value K)
  /-- A constraint taken in. -/
  | addConstraint (constraint name : Value K)
  /-- The objective and perhaps its direction. -/
  | setObjective (expr direction : Value K)
  /-- The conjunction of binary variables. -/
  | conjunction (operands : List (Value K))
  /-- The disjunction of binary variables. -/
  | disjunction (operands : List (Value K))
  /-- The negation of a binary variable. -/
  | negation (x : Value K)
  /-- The exclusive or of two binary variables, in a named encoding. -/
  | exclusive (x y encoding : Value K)
  /-- The implication between two binary variables. -/
  | implication (x y : Value K)
  /-- A bound on the number of binary variables that are one. -/
  | cardinality (relation : Relation) (bound : Value K) (operands : List (Value K))
  /-- A constraint that a binary variable switches on. -/
  | indicator (delta constraint active bigM : Value K)
  /-- One of two constraints. -/
  | eitherOr (first second bigM : Value K)
  /-- The magnitude of an expression. -/
  | magnitude (expr bigM : Value K)
  /-- The greatest of several expressions. -/
  | maximum (exprs bigM : Value K)
  /-- The least of several expressions. -/
  | minimum (exprs bigM : Value K)
  /-- The product of two factors. -/
  | product (x y bigM : Value K)
  /-- A variable that is zero or between two positive numbers. -/
  | semiContinuous (lower upper name : Value K)
  /-- The quotient and remainder by a positive integer. -/
  | divide (expr divisor : Value K)
  /-- The truth of a constraint. -/
  | reify (constraint bigM margin : Value K)

namespace Build

variable {K : Type} [Arithmetic K]

open Arithmetic

/-- Creates a variable from arguments: the name is settled first, then the domain, then the
bounds, which a binary variable does not read. -/
def addVariable (domain lower upper name : Value K) : Build K (Variable K) := do
  requireNewName name
  let name ← match name with
    | .none => do pure (.text (← freshVariableName))
    | n => pure n
  match ← domain.toDomain with
  | .binary => declare name .binary zero one
  | d => do
    let l ← lower.toNumber
    let u ← upper.toNumber
    declare name d l u

/-- The names of several variables: numbered under a stem, or none. -/
def variableNames (count : Nat) (stem : Value K) : Except Fault (List (Value K)) :=
  match stem with
  | .none => .ok (List.replicate count .none)
  | v => (List.range count).mapM fun i => do return .text s!"{← v.display}{i}"

/-- The number of variables that an argument asks for. -/
def toCount : Value K → Except Fault Nat
  | .scalar s =>
    if s.lt (.integer 0) then .error .negativeCount
    else match s.exact with
      | .inl n =>
        if twoPow 63 ≤ n then .error .outOfRange
        else if twoPow 36 ≤ n then .error .outOfMemory
        else .ok n.toNat
      | .inr _ => .error .unsupportedOperand
  | _ => .error .unsupportedOperand

/-- Creates several variables; all names are checked before the first variable is created. -/
def addVariables (count domain lower upper stem : Value K) : Build K (List (Variable K)) := do
  let names ← variableNames (← toCount count) stem
  for name in names do requireNewName name
  names.mapM fun name => addVariable domain lower upper name

/-- Takes a constraint in, under its own name unless another one is given. -/
def addConstraint (constraint name : Value K) : Build K (Constraint K) := do
  match constraint with
  | .constraint c _ => register c name
  | v => throw (.notConstraint v.kindName)

/-- Sets the objective, and then the direction if one is given. -/
def setObjective (expr direction : Value K) : Build K Unit := do
  let e ← expr.toExpr
  modify fun m => { m with objective := some e }
  match direction with
  | .none => return ()
  | v =>
    let d ← v.toDirection
    modify fun m => { m with direction := d }

/-- The operands of a connective, which must be binary. -/
def connective (context : String) (args : List (Value K)) : Build K (List (Variable K)) := do
  let operands := Value.operands args
  if operands.isEmpty then throw (.noOperands context)
  Value.toBinaries context operands

/-- The encoding of an exclusive or that an argument names. -/
def toEncoding (v : Value K) : Except Fault ExclusiveEncoding := do
  if ← v.isEqual (.text "constraints") then return .inequalities
  else if ← v.isEqual (.text "compact") then return .compact
  else throw (.unknownEncoding (← v.shown))

/-- The value of the binary variable under which a constraint is switched on. -/
def toActive (v : Value K) : Except Fault Bool := do
  if ← v.isEqual (.int 0) then return false
  else if ← v.isEqual (.int 1) then return true
  else throw (.inactiveValue (← v.shown))

/-- The name under which a cardinality bound reports faults. -/
def cardinalityContext : Relation → String
  | .le => "add_at_most"
  | .ge => "add_at_least"
  | .eq => "add_exactly"

/-- Bounds the number of binary variables that are one. -/
def cardinality (r : Relation) (bound : Value K) (args : List (Value K)) :
    Build K (Constraint K) := do
  let context := cardinalityContext r
  match bound with
  | .scalar s =>
    let vs ← Value.toBinaries context (Value.operands args)
    register ⟨LinearExpr.total vs, r, ← s.toNumber, .none⟩ .none
  | _ => throw (.boundNotNumber context)

/-- The magnitude of an argument. -/
def magnitudeOf (expr bigM : Value K) : Build K (Variable K) := do
  let e ← expr.toExpr
  let bounds ← e.finiteInterval "abs" (← bigM.toNumber?)
  magnitude e bounds

/-- An operand of a maximum or minimum with its bounds, which must be finite unless the caller
gives a constant. -/
def boundOperand (context : String) (given : Bool) (e : LinearExpr K) :
    Except Fault (BoundedExpr K) := do
  if given then return ⟨e, e.interval⟩
  else return ⟨e, ← e.interval.requireFinite context⟩

/-- The maximum or minimum of arguments.  A single variable is its own extremum, and a single
expression gets a variable that equals it. -/
def extremum (context : String)
    (step : BoundedExpr K → List (BoundedExpr K) → Option K → Build K (Variable K))
    (args bigM : Value K) : Build K (Variable K) := do
  match ← args.elements with
  | [] => throw (.noOperands context)
  | [.var v] => return v
  | [v] =>
    let e ← v.toExpr
    equalTo context ⟨e, e.interval⟩
  | vs =>
    let exprs ← vs.mapM fun (v : Value K) => (v.toExpr : Except Fault _)
    let given := match bigM with
      | .none => false
      | _ => true
    let operands ← exprs.mapM fun e => (boundOperand context given e : Except Fault _)
    let m ← bigM.toNumber?
    match operands with
    | [] => throw (.noOperands context)
    | first :: rest => step first rest m

/-- The product of two arguments. -/
def productOf (x y bigM : Value K) : Build K (Variable K) := do
  let gated := fun (delta : Variable K) (factor : Value K) => do
    let e ← factor.toExpr
    let bounds ← e.finiteInterval "product" (← bigM.toNumber?)
    gate delta e bounds
  match x.toBinary "and_", y.toBinary "and_" with
  | .ok v, .ok w => conjunction [v, w]
  | .ok v, .error _ => gated v y
  | .error _, .ok w => gated w x
  | .error _, .error _ => throw .productNotBinary

/-- Whether two arguments are in order, the first below or at the second. -/
def inOrder (strict : Bool) (a b : Value K) : Except Fault Bool :=
  match a, b with
  | .scalar s, .scalar t => .ok (if strict then s.lt t else s.le t)
  | _, _ =>
    if strict then .error .unsupportedOperand
    else match Value.compare? .le a b with
      | some c => c.bind fun _ => .error .noTruthValue
      | none => .error .unsupportedOperand

/-- Whether the ends of a semi-continuous range are positive, in order and finite; a later
comparison is only made when the earlier ones hold. -/
def isGatedRange (lower upper : Value K) : Except Fault Bool := do
  if !(← inOrder true (.int 0) lower) then return false
  if !(← inOrder false lower upper) then return false
  inOrder true upper (.real infinity)

/-- A variable that is zero or between two positive numbers. -/
def semiContinuous (lower upper name : Value K) : Build K (Variable K) := do
  if !(← isGatedRange lower upper) then
    throw (.semiContinuousRange (← lower.display) (← upper.display))
  requireNewName name
  let x ← addVariable (.domain .continuous) (.int 0) upper name
  let delta ← selector "semi_on"
  let l ← lower.toNumber
  let u ← upper.toNumber
  discard <| registerAll (Gate.rangeRows x delta l u)
  return x

/-- A positive integer that divides. -/
def toDivisor (v : Value K) : Except Fault Int := do
  match v with
  | .scalar (.truth _) => throw (.divisorNotPositive (← v.shown))
  | .scalar s =>
    if !isInteger (← s.toNumber) || s.le (.integer 0) then throw (.divisorNotPositive (← v.shown))
    else v.toInteger
  | _ => throw (.divisorNotPositive (← v.shown))

/-- The quotient and remainder of an argument. -/
def divideOf (expr divisor : Value K) : Build K (Division K) := do
  let d ← toDivisor divisor
  divide (← expr.toExpr) d

/-- The margin that an argument gives, if it gives one. -/
def toMargin (v : Value K) : Except Fault (Option (Scalar K)) := do
  match v with
  | .none => return none
  | .scalar s =>
    if s.le (.integer 0) then throw (.marginNotPositive s.text) else return some s
  | .var _ | .expr _ => throw .noTruthValue
  | _ => throw .unsupportedOperand

/-- The truth of a constraint that an argument holds. -/
def reifyOf (constraint bigM margin : Value K) : Build K (Variable K) := do
  let c ← constraint.toConstraint "reify"
  let eps ← toMargin margin
  reify c (← bigM.toNumber?) eps

/-- The constraint that has just been taken in, as an answer. -/
def lastRow (c : Constraint K) : Build K (Value K) := do
  let m ← get
  return .constraint c (some (.row m.id (m.constraints.length - 1)))

/-- What a call does, and its answer. -/
def perform : Model.Call K → Build K (Value K)
  | .addVariable domain lower upper name => .var <$> addVariable domain lower upper name
  | .addVariables count domain lower upper stem => do
    return .list ((← addVariables count domain lower upper stem).map .var)
  | .addConstraint constraint name => do lastRow (← addConstraint constraint name)
  | .setObjective expr direction => do
    setObjective expr direction
    return .none
  | .conjunction args => do
    match ← connective "and_" args with
    | [v] => return .var v
    | vs => .var <$> conjunction vs
  | .disjunction args => do
    match ← connective "or_" args with
    | [v] => return .var v
    | vs => .var <$> disjunction vs
  | .negation x => do
    let v ← x.toBinary "not_"
    .var <$> negation v
  | .exclusive x y encoding => do
    let encoding ← toEncoding encoding
    let v ← x.toBinary "xor"
    let w ← y.toBinary "xor"
    .var <$> exclusive encoding v w
  | .implication x y => do
    let v ← x.toBinary "add_implication"
    let w ← y.toBinary "add_implication"
    lastRow (← implication v w)
  | .cardinality r bound args => do lastRow (← cardinality r bound args)
  | .indicator delta constraint active bigM => do
    let v ← delta.toBinary "add_indicator"
    let on ← toActive active
    let c ← constraint.toConstraint "add_indicator"
    return .list (← lastRows (← indicator v on c (← bigM.toNumber?)).length)
  | .eitherOr first second bigM => do
    let c ← first.toConstraint "add_either_or"
    let m ← bigM.toNumber?
    -- the first constraint is settled before the second is looked at
    discard <| liftM (c.halves "add_either_or" m)
    let d ← second.toConstraint "add_either_or"
    .var <$> eitherOr c d m
  | .magnitude expr bigM => .var <$> magnitudeOf expr bigM
  | .maximum exprs bigM => .var <$> extremum "max" maximum exprs bigM
  | .minimum exprs bigM => .var <$> extremum "min" minimum exprs bigM
  | .product x y bigM => .var <$> productOf x y bigM
  | .semiContinuous lower upper name => .var <$> semiContinuous lower upper name
  | .divide expr divisor => do
    let r ← divideOf expr divisor
    return .sequence .division [.var r.quotient, .var r.remainder]
  | .reify constraint bigM margin => .var <$> reifyOf constraint bigM margin

end Build

end MixedInteger
