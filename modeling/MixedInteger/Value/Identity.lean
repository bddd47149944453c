import MixedInteger.Value.Basic

/-!
# Numbers by which values are known again

Lists that have the same items may still be two lists.  Constraints, lists and tables get numbers
when they are first handed over, and so does what is not a number of the model, which does not even
equal itself.

## What is here

* `Value.identify`: a value in which all parts that need a number have one.
-/

set_option autoImplicit false

namespace MixedInteger

namespace Value

variable {K : Type} [Arithmetic K]

mutual

/-- The value in which each constraint, list and table has a number, as has what is not a number of
the model, new ones being numbered from `next` on, and the next number after them. -/
def identify (next : Nat) : Value K → Value K × Nat
  | sequence shape items =>
    let (items, next) := identifyAll next items
    match shape with
    | .list Option.none => (sequence (.list (some next)) items, next + 1)
    | shape => (sequence shape items, next)
  | table entries id =>
    let (entries, next) := identifyEntries next entries
    match id with
    | some id => (table entries (some id), next)
    | Option.none => (table entries (some next), next + 1)
  | constraint c Option.none => (constraint c (some (.loose next)), next + 1)
  | scalar (.real x Option.none) =>
    if Arithmetic.isNaN x then (scalar (.real x (some next)), next + 1)
    else (scalar (.real x Option.none), next)
  | v => (v, next)

/-- Several values in which each part that needs a number has one. -/
def identifyAll (next : Nat) : List (Value K) → List (Value K) × Nat
  | [] => ([], next)
  | v :: vs =>
    let (v, next) := identify next v
    let (vs, next) := identifyAll next vs
    (v :: vs, next)

/-- Entries of a table in which each part that needs a number has one. -/
def identifyEntries (next : Nat) : List (Value K × Value K) → List (Value K × Value K) × Nat
  | [] => ([], next)
  | (k, v) :: rest =>
    let (k, next) := identify next k
    let (v, next) := identify next v
    let (rest, next) := identifyEntries next rest
    ((k, v) :: rest, next)

end

end Value

end MixedInteger
