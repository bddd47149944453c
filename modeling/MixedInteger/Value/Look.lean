import MixedInteger.Value.Basic

/-!
# How references look from within a value

A value refers to things that change by handles, and a handle carries the texts of such a thing at
one time.  A table may change as well, and carries its entries of one time.  Both are brought up to
date by repainting the value.

A list or a table may contain something that refers back to it.  Its text breaks off where it would
begin again within itself.

## What is here

* `View`, `Look`: how things look, in general and to something within other things.
* `Portrait.plain`, `Portrait.endless`: two simple portraits.
* `Value.repaint`: a value in which handles and tables are up to date.
-/

set_option autoImplicit false

namespace MixedInteger

/-- How things look. -/
structure View (K : Type) where
  /-- The texts of what a handle refers to. -/
  portrait : Handle → Portrait
  /-- The entries that the table of a number has now, if they may have changed. -/
  entries? : Nat → Option (List (Value K × Value K))

/-- How things look to something within other things, given those from the innermost one on. -/
abbrev Look (K : Type) := List Handle → View K

/-- Whether a handle is that of a list or a table. -/
def Handle.isInside : Handle → Bool
  | inside _ => true
  | _ => false

namespace Portrait

/-- The portrait of something that has one text only. -/
def plain (text : Except Fault String) : Portrait := ⟨text, text⟩

/-- The portrait of something whose text would contain itself. -/
def endless : Portrait := plain (.error .endless)

end Portrait

variable {K : Type}

namespace Value

/-- A list, within itself. -/
def innerList (id : Nat) : Value K := handle (.inside id) (.plain (.ok "[...]"))

/-- A table, within itself. -/
def innerTable (id : Nat) : Value K := handle (.inside id) (.plain (.ok "\x7b...\x7d"))

mutual

/-- The value in which handles and tables look as they do now, within the given things. -/
def repaint (look : Look K) (path : List Handle) : Value K → Value K
  | sequence (.list (some id)) items =>
    if path.contains (.inside id) then innerList id
    else sequence (.list (some id)) (repaintAll look (.inside id :: path) items)
  | sequence shape items => sequence shape (repaintAll look path items)
  | table entries (some id) =>
    if path.contains (.inside id) then innerTable id
    else
      match (look path).entries? id with
      | some entries => table entries (some id)
      | Option.none => table (repaintEntries look (.inside id :: path) entries) (some id)
  | table entries Option.none => table (repaintEntries look path entries) Option.none
  | var v => var (repaintVariable look path v)
  | expr e => expr (repaintExpr look path e)
  | constraint c id => constraint (repaintConstraint look path c) id
  | handle (.inside id) p =>
    if path.contains (.inside id) then handle (.inside id) p
    else
      match (look path).entries? id with
      | some entries => table entries (some id)
      | Option.none => handle (.inside id) p
  | handle h _ => handle h ((look path).portrait h)
  | v => v

/-- Several values in which handles and tables look as they do now. -/
def repaintAll (look : Look K) (path : List Handle) : List (Value K) → List (Value K)
  | [] => []
  | v :: vs => repaint look path v :: repaintAll look path vs

/-- Entries of a table in which handles and tables look as they do now. -/
def repaintEntries (look : Look K) (path : List Handle) :
    List (Value K × Value K) → List (Value K × Value K)
  | [] => []
  | (k, v) :: rest => (repaint look path k, repaint look path v) :: repaintEntries look path rest

/-- The variable whose name looks as it does now. -/
def repaintVariable (look : Look K) (path : List Handle) : Variable K → Variable K
  | ⟨id, name, d, lower, upper⟩ => ⟨id, repaint look path name, d, lower, upper⟩

/-- Terms whose variables have names that look as they do now. -/
def repaintTerms (look : Look K) (path : List Handle) :
    List (Variable K × K) → List (Variable K × K)
  | [] => []
  | (⟨id, name, d, lower, upper⟩, c) :: rest =>
    (⟨id, repaint look path name, d, lower, upper⟩, c) :: repaintTerms look path rest

/-- The expression whose names look as they do now. -/
def repaintExpr (look : Look K) (path : List Handle) : LinearExpr K → LinearExpr K
  | ⟨terms, constant⟩ => ⟨repaintTerms look path terms, constant⟩

/-- The constraint whose names look as they do now. -/
def repaintConstraint (look : Look K) (path : List Handle) : Constraint K → Constraint K
  | ⟨e, r, rhs, name⟩ => ⟨repaintExpr look path e, r, rhs, repaint look path name⟩

end

end Value

end MixedInteger
