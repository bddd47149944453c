import MixedInteger.Engine.Outcome

/-!
# Solutions

A solution reads the values of a report once, by the names of the variables of a model, and keeps
them by variable.  Whatever has a name can stand in place of a variable.

## What is here

* `Value.nameOf?`: the name of a value that has one.
* `Solution.collect`: the values of a report by variable.
* `Solution.get`: the value of a variable or an expression, if there is one.
* `Solution.require`: the value of a variable, which must have one.
-/

set_option autoImplicit false

namespace MixedInteger

/-- The name of a value that has one.  Models have names too, which are not known here. -/
def Value.nameOf? {K : Type} : Value K → Option (Value K)
  | .var v => some v.name
  | .constraint c _ => some c.name
  | v@(.domain _) | v@(.direction _) | v@(.relation _) => some (.text v.memberName)
  | _ => Option.none

/-- The values of variables; the rest of a solution stays with the report. -/
structure Solution (K : Type) where
  /-- The report. -/
  report : Handle
  /-- The values by variable. -/
  values : List (Value K × Value K)

namespace Solution

variable {K : Type} [Arithmetic K]

/-- The item at a position, which counts from the end if it is negative. -/
def itemAt (items : List (Value K)) (position : Int) : Except Fault (Value K) :=
  let index := if position < 0 then position + items.length else position
  match (if index < 0 then none else items[index.toNat]?) with
  | some x => .ok x
  | none => .error .noSuchItem

/-- What a reported solution holds under a name.  In a sequence, a name that is an item has to be a
position as well. -/
def reported? (raw name : Value K) : Except Fault (Option (Value K)) :=
  match raw, name with
  | .table entries _, _ =>
    if name.isKey then .ok (Value.lookup? name entries) else .error .unsupportedOperand
  | .sequence _ items, _ => do
    if ← name.isOneOf items then
      match name with
      | .scalar (.real _ _) => throw .unsupportedOperand
      | .scalar _ => some <$> itemAt items (← name.toInteger)
      | _ => throw .unsupportedOperand
    else return none
  | .handle (.solution _) _, _ => .error (.noName "int")
  | .text s, .text part =>
    if (s.splitOn part).length > 1 || part = "" then .error .unsupportedOperand else .ok none
  | _, _ => .error .unsupportedOperand

/-- The values with those of one more variable, given with its name. -/
def collectOne (raw : Value K) (values : List (Value K × Value K))
    (v : Value K × Option (Value K)) : Except Fault (List (Value K × Value K)) :=
  match v.2 with
  | some name => do
    match ← reported? raw name with
    | some x => return Value.insert v.1 x values
    | none => return values
  | none => .error .missingProperty

/-- The values that a reported solution holds for variables given with their names, in the order
of the variables. -/
def collect (raw : Value K) (vars : List (Value K × Option (Value K))) :
    Except Fault (List (Value K × Value K)) :=
  vars.foldlM (collectOne raw) []

/-- The value of a variable or an expression; nothing when a variable has no value. -/
def get (s : Solution K) : Value K → Except Fault (Value K)
  | .var v => .ok ((Value.lookup? (.var v) s.values).getD .none)
  | .expr e =>
    match Value.evaluate e (.newTable s.values) with
    | .error .missingKey => .ok .none
    | r => r
  | _ => .error .notLookup

/-- The value of a variable of the given name, which must have one. -/
def require (s : Solution K) (v : Value K) (name : Option (Value K)) : Except Fault (Value K) := do
  if !v.isKey then throw .unsupportedOperand
  match Value.lookup? v s.values, name with
  | some x, _ => return x
  | none, some n => throw (.noValue (← n.display))
  | none, none => throw (.noName v.kindName)

/-- The value of an expression, all of whose variables must have values. -/
def evaluate (s : Solution K) (e : LinearExpr K) : Except Fault (Value K) :=
  Value.evaluateWith (fun v => s.require (.var v) (some v.name)) e

/-- The values as a table. -/
def toTable (s : Solution K) : Value K := .newTable s.values

end Solution

end MixedInteger
