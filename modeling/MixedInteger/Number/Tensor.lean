import MixedInteger.Fault

/-!
# Numbers in rows

Numbers stand in rows, in rows of rows, and so on.  All rows on one level have the same length, so
that the lengths on all levels are the shape of a tensor.  Two tensors can be brought to one shape
by repeating what stands alone.

## What is here

* `Tensor`, `Tensor.ofList`: entries and rows.
* `Tensor.shape`, `Tensor.isRectangular`: the lengths of the rows.
* `Tensor.mapM`: each entry changed by a function that may fail.
* `Tensor.commonShape?`, `Tensor.fit`, `Tensor.together`: two tensors brought to one shape.
-/

set_option autoImplicit false

namespace MixedInteger

/-- Entries in rows of any depth. -/
inductive Tensor (α : Type) where
  /-- An entry. -/
  | entry (a : α)
  /-- Parts in a row. -/
  | rows (parts : List (Tensor α))

namespace Tensor

variable {α β : Type}

/-- One row of entries. -/
def ofList (as : List α) : Tensor α := rows (as.map entry)

/-- The number of parts on the first level. -/
def length : Tensor α → Nat
  | entry _ => 1
  | rows parts => parts.length

/-- The lengths of the first rows on all levels. -/
def shape : Tensor α → List Nat
  | entry _ => []
  | rows [] => [0]
  | rows (part :: rest) => (rest.length + 1) :: shape part

/-- Whether all rows have the lengths of a shape. -/
def hasShape : List Nat → Tensor α → Bool
  | [], entry _ => true
  | n :: lengths, rows parts => parts.length == n && parts.all (hasShape lengths)
  | _, _ => false

/-- Whether all rows on one level have the same length. -/
def isRectangular (t : Tensor α) : Bool := t.hasShape t.shape

/-- The entries of a tensor that is one row of entries. -/
def toList? : Tensor α → Option (List α)
  | entry _ => none
  | rows parts => parts.mapM fun
    | entry a => some a
    | rows _ => none

theorem toList?_ofList (as : List α) : (ofList as).toList? = some as := by
  induction as with
  | nil => rfl
  | cons a as ih => simp_all [ofList, toList?]

mutual

/-- The tensor with each entry changed. -/
def mapM (f : α → Except Fault β) : Tensor α → Except Fault (Tensor β)
  | entry a => do return entry (← f a)
  | rows parts => do return rows (← mapAllM f parts)

/-- Several tensors with each entry changed. -/
def mapAllM (f : α → Except Fault β) : List (Tensor α) → Except Fault (List (Tensor β))
  | [] => .ok []
  | t :: ts => do
    let t ← mapM f t
    return t :: (← mapAllM f ts)

end

/-- The shape that two shapes can be brought to, all given from the last length on.  A length of one
gives way to any other. -/
def commonReversed : List Nat → List Nat → Option (List Nat)
  | [], t => some t
  | s, [] => some s
  | m :: s, n :: t => do
    let rest ← commonReversed s t
    if m = n || n = 1 then some (m :: rest)
    else if m = 1 then some (n :: rest)
    else none

/-- The shape that two shapes can be brought to, if there is one. -/
def commonShape? (s t : List Nat) : Option (List Nat) :=
  (commonReversed s.reverse t.reverse).map List.reverse

/-- The tensor within a number of rows of one part each. -/
def deepen : Nat → Tensor α → Tensor α
  | 0, t => t
  | n + 1, t => rows [deepen n t]

/-- The tensor in which a part that stands alone on its level is repeated to the length of a
shape. -/
def spread : List Nat → Tensor α → Tensor α
  | n :: lengths, rows [part] => rows (List.replicate n (spread lengths part))
  | _ :: lengths, rows parts => rows (parts.map (spread lengths))
  | _, t => t

/-- The tensor brought to a shape that it can be brought to. -/
def fit (lengths : List Nat) (t : Tensor α) : Tensor α :=
  spread lengths (deepen (lengths.length - t.shape.length) t)

/-- Two tensors brought to one shape, if they can be. -/
def together (s t : Tensor α) : Option (Tensor α × Tensor α) :=
  (commonShape? s.shape t.shape).map fun lengths => (s.fit lengths, t.fit lengths)

end Tensor

end MixedInteger
