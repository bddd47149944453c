import MixedInteger.Value.Key

/-!
# Records

The settings of a solve and what a solve reports are records: tables of fields by name.  Any name
can be assigned to.  A field may take the name of an operation, which then cannot be called any
more, and all fields can be replaced at once by the entries of a table, which the record shares from
then on.

## What is here

* `RecordKind`, `RecordKind.operations`: the two kinds of records.
* `Record`, `Record.read`, `Record.require`: the fields and the operations of a record.
* `Record.assign`: an assignment to a name.
* `Filling`, `Record.fill`, `Record.filled`: assignments one after the other.
-/

set_option autoImplicit false

namespace MixedInteger

/-- The kinds of records. -/
inductive RecordKind where
  /-- The settings of a solve. -/
  | settings
  /-- What a solve reports. -/
  | outcome
  deriving DecidableEq, Repr

/-- The names of the operations of a kind. -/
def RecordKind.operations : RecordKind → List String
  | settings => ["to_highs_options", "to_scipy_options", "from_dict", "to_dict"]
  | outcome => ["is_optimal", "has_solution", "from_dict", "to_dict"]

/-- Fields by name. -/
structure Record (K : Type) where
  /-- The kind, which decides on the operations. -/
  kind : RecordKind
  /-- The fields, in the order in which they came in. -/
  fields : List (Value K × Value K)
  /-- The number of the table that the fields are the entries of, if there is one. -/
  home : Option Nat

namespace Record

variable {K : Type} [Arithmetic K]

/-- The record with the given fields. -/
def ofFields (kind : RecordKind) (fields : List (String × Value K)) : Record K :=
  ⟨kind, fields.map fun f => (.text f.1, f.2), none⟩

/-- The value of a field, if there is one of the name. -/
def field? (r : Record K) (name : String) : Option (Value K) := Value.lookup? (.text name) r.fields

/-- The value of a field, which must be there. -/
def read (r : Record K) (name : String) : Except Fault (Value K) :=
  match r.field? name with
  | some v => .ok v
  | none => .error .missingProperty

/-- Fails unless an operation can be called: a field of its name would stand in its place. -/
def require (r : Record K) (operation : String) : Except Fault Unit :=
  if (r.field? operation).isSome then .error .unsupportedOperand
  else if r.kind.operations.contains operation then .ok ()
  else .error .missingProperty

/-- The words that stand between double underscores in the names that all records have. -/
def reservedWords : List String :=
  ["class", "delattr", "dict", "dir", "doc", "eq", "format", "ge", "getattribute", "getstate",
   "gt", "hash", "init", "init_subclass", "le", "lt", "module", "ne", "new", "reduce",
   "reduce_ex", "repr", "setattr", "sizeof", "str", "subclasshook", "weakref"]

/-- Whether a name is set apart by underscores for what all records have in common. -/
def isReserved (name : String) : Bool := reservedWords.any fun w => name == "__" ++ w ++ "__"

/-- Whether a name means something to a record. -/
def knows (r : Record K) (name : String) : Bool :=
  (r.field? name).isSome || r.kind.operations.contains name || isReserved name

/-- The record with one field set. -/
def setField (r : Record K) (name : String) (value : Value K) : Record K :=
  { r with fields := Value.insert (.text name) value r.fields }

/-- The record with one name assigned.  The name of the fields as a whole takes a table; two
reserved names cannot be assigned to. -/
def assign (r : Record K) (name : String) (value : Value K) : Except Fault (Record K) :=
  match name, value with
  | "__class__", _ => .error .unsupportedOperand
  | "__weakref__", _ => .error .missingProperty
  | "__dict__", .table entries id => .ok { r with fields := entries, home := id }
  | "__dict__", _ => .error .unsupportedOperand
  | _, _ => .ok (r.setField name value)

/-- The record with one name assigned that is given as a value; a name without a meaning is
ignored. -/
def assignKnown (r : Record K) (name value : Value K) : Except Fault (Record K) :=
  match name with
  | .text n => if r.knows n then r.assign n value else .ok r
  | _ => .error .unsupportedOperand

end Record

/-- Assignments to a record.  What was assigned before a failure stays. -/
abbrev Filling (K α : Type) := ExceptT Fault (StateM (Record K)) α

namespace Record

variable {K : Type} [Arithmetic K]

/-- The assignments that each entry of a list stands for. -/
def fill (step : Record K → Value K × Value K → Except Fault (Record K))
    (entries : List (Value K × Value K)) : Filling K Unit :=
  entries.forM fun e => do set (← step (← get) e)

/-- A record after assignments. -/
def filled (r : Record K) (filling : Filling K Unit) : Except Fault (Record K) :=
  match (ExceptT.run filling).run r with
  | (.ok _, r) => .ok r
  | (.error f, _) => .error f

end Record

end MixedInteger
