import MixedInteger.Linear.Interval
import MixedInteger.Model.Basic
import MixedInteger.Value.Shown

/-!
# Building steps

A step of building reads and changes one model and may fail; what it did before failing stays
done.

## What is here

* `Build`: the type of steps.
* `freshVariableName`, `freshConstraintName`, `auxiliaryName`: names from the counters.
* `declare`: a new variable.
* `register`, `lastRows`: a constraint taken in under a name, and those taken in last.
-/

set_option autoImplicit false

namespace MixedInteger

/-- A step that reads and changes a model and may fail. -/
abbrev Build (K : Type) (α : Type) := ExceptT Fault (StateM (Model K)) α

namespace Build

variable {K : Type}

/-- A name for a variable that was given none. -/
def freshVariableName : Build K String := do
  let m ← get
  let label := fun i : Nat => s!"x{i}"
  let i := firstFree (textNames m.variableNames) label m.variableCounter
  set { m with variableCounter := i + 1 }
  return label i

/-- A name for a constraint that was given none. -/
def freshConstraintName : Build K String := do
  let m ← get
  let label := fun i : Nat => s!"c{i}"
  let i := firstFree (textNames m.rowNames) label m.constraintCounter
  set { m with constraintCounter := i + 1 }
  return label i

/-- A name for an auxiliary variable.  All stems share one counter. -/
def auxiliaryName (stem : String) : Build K String := do
  let m ← get
  let label := fun i : Nat => s!"{stem}_{i}"
  let i := firstFree (textNames m.variableNames) label m.auxiliaryCounter
  set { m with auxiliaryCounter := i + 1 }
  return label i

section Arithmetic

variable [Arithmetic K]

open Arithmetic

/-- Fails if a variable of the name exists, or if the name cannot be looked up. -/
def requireNewName (name : Value K) : Build K Unit := do
  if !name.isKey then throw .unsupportedOperand
  if ((← get).find? name).isSome then throw (.variableNameTaken (← name.display))

/-- Fails if a constraint of the name exists, or if the name cannot be looked up. -/
def requireNewRow (name : Value K) : Build K Unit := do
  if !name.isKey then throw .unsupportedOperand
  if (← get).hasRow name then throw (.constraintNameTaken (← name.display))

/-- Takes a constraint in under the given name, or else under its own, or else under a fresh
one. -/
def register (c : Constraint K) (name : Value K) : Build K (Constraint K) := do
  let chosen ← match if name.isPresent then name else c.name with
    | .none => do pure (.text (← freshConstraintName))
    | n => do
      requireNewRow n
      pure n
  let named := c.withName chosen
  modify fun m =>
    { m with constraints := m.constraints ++ [named], rowNames := m.rowNames ++ [chosen] }
  return named

/-- Takes constraints in, one after the other. -/
def registerAll (cs : List (Constraint K)) : Build K (List (Constraint K)) :=
  cs.mapM fun c => register c .none

/-- The constraints that a model has taken in last, with their identities. -/
def lastRows (n : Nat) : Build K (List (Value K)) := do
  let m ← get
  return m.rows.drop (m.constraints.length - n)

/-- Creates a variable.  Binary variables have the bounds zero and one; all others take bounds
that are numbers and do not cross. -/
def declare (name : Value K) (domain : Domain) (lower upper : K) : Build K (Variable K) := do
  let bounds : Interval K := if domain = .binary then ⟨zero, one⟩ else ⟨lower, upper⟩
  if isNaN bounds.lower || isNaN bounds.upper || lt bounds.upper bounds.lower then
    throw (.boundsCross (← name.display) (Arithmetic.text bounds.lower)
      (Arithmetic.text bounds.upper))
  let m ← get
  let v : Variable K := ⟨⟨m.id, m.vars.length⟩, name, domain, bounds.lower, bounds.upper⟩
  set { m with vars := m.vars ++ [v] }
  return v

/-- Creates an auxiliary variable. -/
def auxiliary (stem : String) (domain : Domain) (lower upper : K) : Build K (Variable K) := do
  declare (.text (← auxiliaryName stem)) domain lower upper

/-- Creates an auxiliary binary variable. -/
def selector (stem : String) : Build K (Variable K) := auxiliary stem .binary zero one

end Arithmetic

end Build

end MixedInteger
