import MixedInteger.Linear.Expr

/-!
# What a value counts for

## What is here

* `Value.truth`, `Value.toNumber`, `Value.toInteger`: a value as a truth value, a number of the
  model, an integer.
* `Value.toExpr`: a value as an expression.
* `Value.elements`, `Value.pairs`: the values that a value runs through, and two runs side by side.
-/

set_option autoImplicit false

namespace MixedInteger

namespace Value

variable {K : Type} [Arithmetic K]

/-- The truth value that a value counts for. -/
def truth : Value K → Except Fault Bool
  | none => .ok false
  | scalar s => .ok s.nonzero
  | text s => .ok (s ≠ "")
  | sequence _ items => .ok !items.isEmpty
  | table entries _ => .ok !entries.isEmpty
  | expr e => .ok !e.isConstant
  | constraint _ _ => .error .noTruthValue
  | domain _ | direction _ | relation _ | var _ | handle _ _ => .ok true

/-- The number of the model that a value counts for; a text never denotes one here. -/
def toNumber : Value K → Except Fault K
  | scalar s => s.toNumber
  | text _ => .error .malformed
  | _ => .error .unsupportedOperand

/-- The number of an optional argument. -/
def toNumber? : Value K → Except Fault (Option K)
  | none => .ok Option.none
  | v => v.toNumber.map some

/-- The integer that a value counts for, rounded towards zero. -/
def toInteger : Value K → Except Fault Int
  | scalar (.truth b) => .ok (if b then 1 else 0)
  | scalar (.integer n) => .ok n
  | scalar (.real x _) =>
    match Arithmetic.truncate x with
    | some n => .ok n
    | Option.none => .error (if Arithmetic.isNaN x then .malformed else .outOfRange)
  | text _ => .error .malformed
  | _ => .error .unsupportedOperand

/-- The expression that a value counts for. -/
def toExpr : Value K → Except Fault (LinearExpr K)
  | expr e => .ok e
  | var v => .ok (.ofVariable v)
  | scalar s => do return .ofConstant (← s.toNumber)
  | v => .error (.notExpression v.kindName)

/-- The values that a value runs through: the items of a sequence, the keys of a table, the
characters of a text.  A solution would have to be read under the positions, which it does not have
as keys. -/
def elements : Value K → Except Fault (List (Value K))
  | sequence _ items => .ok items
  | table entries _ => .ok (entries.map Prod.fst)
  | text s => .ok (s.toList.map fun c => text (String.singleton c))
  | handle (.solution _) _ => .error (.noName "int")
  | _ => .error .unsupportedOperand

/-- Fails if a value does not run through any values. -/
def requireElements (v : Value K) : Except Fault Unit :=
  match v.elements with
  | .error .unsupportedOperand => .error .unsupportedOperand
  | _ => .ok ()

/-- The values that two values run through, side by side, as far as both go.  The second one is read
only if the first one is not empty. -/
def pairs (v w : Value K) : Except Fault (List (Value K × Value K)) := do
  v.requireElements
  w.requireElements
  match ← v.elements with
  | [] => return []
  | vs => return vs.zip (← w.elements)

end Value

end MixedInteger
