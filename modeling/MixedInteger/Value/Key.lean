import MixedInteger.Value.Basic

/-!
# Keys and tables

A table finds its entries by key.  Numbers that are equal are one key, whatever their kinds;
variables, constraints and references are keys by their identity; a group of values is a key if all
its members are.

## What is here

* `Value.isKey`, `Value.sameKey`: what can be a key, and which keys are one.
* `Value.lookup?`, `Value.insert`: the entries of a table.
* `Value.tableFrom`: a table from its entries.
-/

set_option autoImplicit false

namespace MixedInteger

/-- Whether a sequence of a shape never changes. -/
def Shape.isFixed : Shape → Bool
  | .tuple | .bounds | .division => true
  | .list _ | .array | .matrix => false

/-- Whether a sequence of a shape is a list. -/
def Shape.isList : Shape → Bool
  | .list _ => true
  | _ => false

namespace Value

variable {K : Type}

mutual

/-- Whether a value can be a key of a table. -/
def isKey : Value K → Bool
  | sequence shape items => shape.isFixed && areKeys items
  | table _ _ | expr _ | handle (.inside _) _ => false
  | _ => true

/-- Whether several values can all be keys. -/
def areKeys : List (Value K) → Bool
  | [] => true
  | v :: vs => isKey v && areKeys vs

end

variable [Arithmetic K]

mutual

/-- Whether two values are one key. -/
def sameKey : Value K → Value K → Bool
  | none, none => true
  | scalar s, scalar t => s.same t
  | text s, text t => s == t
  | domain d, domain e => d == e
  | direction d, direction e => d == e
  | relation r, relation s => r == s
  | sequence p vs, sequence q ws => p.isFixed && q.isFixed && sameKeys vs ws
  | var v, var w => v.id == w.id
  | constraint _ (some i), constraint _ (some j) => i == j
  | handle h _, handle i _ => h == i
  | _, _ => false

/-- Whether the keys of two lists are pairwise one. -/
def sameKeys : List (Value K) → List (Value K) → Bool
  | [], [] => true
  | v :: vs, w :: ws => sameKey v w && sameKeys vs ws
  | _, _ => false

end

/-- The entry of a table under a key. -/
def lookup? (key : Value K) (entries : List (Value K × Value K)) : Option (Value K) :=
  (entries.find? fun e => e.1.sameKey key).map Prod.snd

/-- A table with the entry under a key set; a new key comes last. -/
def insert (key value : Value K) : List (Value K × Value K) → List (Value K × Value K)
  | [] => [(key, value)]
  | e :: rest => if e.1.sameKey key then (e.1, value) :: rest else e :: insert key value rest

/-- Entries with one more, whose key must be one. -/
def insertEntry (entries : List (Value K × Value K)) (e : Value K × Value K) :
    Except Fault (List (Value K × Value K)) :=
  if e.1.isKey then .ok (insert e.1 e.2 entries) else .error .unsupportedOperand

/-- The table whose entries are read from a list, one after the other; the last one under a key
counts. -/
def tableFrom {α : Type} (read : α → Except Fault (Value K × Value K)) (parts : List α) :
    Except Fault (Value K) := do
  return newTable (← parts.foldlM (fun acc p => do insertEntry acc (← read p)) [])

theorem sameKey_text (s t : String) : sameKey (text s : Value K) (text t) = (s == t) := by
  simp [sameKey]

end Value

end MixedInteger
