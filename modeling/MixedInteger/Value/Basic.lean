import MixedInteger.Linear.Direction
import MixedInteger.Linear.Domain
import MixedInteger.Linear.Relation
import MixedInteger.Number.Scalar

/-!
# Values

An operation on models takes arguments of any kind and decides itself which it accepts.  A `Value`
is such an argument, and also an answer.  Variables, expressions and constraints are values, and
what a variable or a constraint is called is a value in turn: a text as a rule, but a caller may
use a number or something else.

## What is here

* `Handle`, `Portrait`: references to things that change, and how such a thing looked.
* `Value`: the kinds of values.
* `Variable`, `LinearExpr`, `Constraint`: the parts of a model.
* `Value.kindName`, `Value.memberName`: how messages name the kind of a value.
-/

set_option autoImplicit false

namespace MixedInteger

/-- A reference to something that changes over time. -/
inductive Handle where
  /-- A model. -/
  | model (id : Nat)
  /-- The settings of a solve. -/
  | settings (id : Nat)
  /-- The outcome of a solve. -/
  | outcome (id : Nat)
  /-- The solution of a model. -/
  | solution (id : Nat)
  /-- A loaded engine. -/
  | engine (id : Nat)
  /-- A list or a table, within itself. -/
  | inside (id : Nat)
  deriving DecidableEq, Repr

/-- How a thing that changes looked when a reference to it was last handed over. -/
structure Portrait where
  /-- Its shown form. -/
  shown : Except Fault String
  /-- Its text. -/
  display : Except Fault String

/-- The kinds of sequences. -/
inductive Shape where
  /-- A list.  One that has just been made has no number yet. -/
  | list (id : Option Nat)
  /-- A fixed group of values. -/
  | tuple
  /-- The two ends of an interval. -/
  | bounds
  /-- A quotient and a remainder. -/
  | division
  /-- An array of numbers. -/
  | array
  /-- A matrix, which has only its rows as parts, and a row is a matrix again. -/
  | matrix
  deriving DecidableEq, Repr

mutual

/-- An argument or an answer of an operation. -/
inductive Value (K : Type) where
  /-- No value. -/
  | none
  /-- A number. -/
  | scalar (s : Scalar K)
  /-- A text. -/
  | text (s : String)
  /-- A domain of variables. -/
  | domain (d : Domain)
  /-- The direction of an objective. -/
  | direction (d : Direction)
  /-- The relation of a constraint. -/
  | relation (r : Relation)
  /-- Several values in order. -/
  | sequence (shape : Shape) (items : List (Value K))
  /-- Values by key, in the order in which the keys came in.  A table that has just been made has no
  number yet. -/
  | table (entries : List (Value K × Value K)) (id : Option Nat)
  /-- A variable. -/
  | var (v : Variable K)
  /-- An expression. -/
  | expr (e : LinearExpr K)
  /-- A constraint.  One that has just been made has no identity yet. -/
  | constraint (c : Constraint K) (id : Option ConstraintId)
  /-- A reference to something that changes. -/
  | handle (h : Handle) (portrait : Portrait)

/-- A decision variable. -/
structure Variable (K : Type) where
  /-- The identity, by which expressions tell variables apart. -/
  id : VariableId
  /-- The name, unique in the model that created the variable. -/
  name : Value K
  /-- The domain. -/
  domain : Domain
  /-- The lower bound. -/
  lower : K
  /-- The upper bound. -/
  upper : K

/-- A linear expression: a sum of coefficients times variables, and a constant. -/
structure LinearExpr (K : Type) where
  /-- The coefficient of each variable. -/
  terms : List (Variable K × K)
  /-- The constant. -/
  constant : K

/-- A linear constraint. -/
structure Constraint (K : Type) where
  /-- The left-hand side. -/
  expr : LinearExpr K
  /-- The comparison. -/
  relation : Relation
  /-- The right-hand side. -/
  rhs : K
  /-- The name, which a model gives when it takes in a constraint that has none. -/
  name : Value K

end

namespace Value

variable {K : Type}

/-- A number of the model as a value. -/
def real (x : K) : Value K := scalar (.real x Option.none)

/-- An integer as a value. -/
def int (n : Int) : Value K := scalar (.integer n)

/-- A truth value as a value. -/
def bool (b : Bool) : Value K := scalar (.truth b)

/-- A list as a value. -/
def list (items : List (Value K)) : Value K := sequence (.list Option.none) items

/-- An array of numbers as a value. -/
def reals (xs : List K) : Value K := sequence .array (xs.map real)

/-- A constraint that has just been made. -/
def made (c : Constraint K) : Value K := constraint c Option.none

/-- A table that has just been made. -/
def newTable (entries : List (Value K × Value K)) : Value K := table entries Option.none

/-- Whether a value is present. -/
def isPresent : Value K → Bool
  | none => false
  | _ => true

/-- The characters of a value that is a text. -/
def text? : Value K → Option String
  | text s => some s
  | _ => Option.none

/-- The kind of a value, as messages name it. -/
def kindName : Value K → String
  | none => "NoneType"
  | scalar s => s.kindName
  | text _ => "str"
  | domain _ => "VarType"
  | direction _ => "Sense"
  | relation _ => "ConstraintSense"
  | sequence (.list _) _ => "list"
  | sequence .tuple _ => "tuple"
  | sequence .bounds _ => "Bounds"
  | sequence .division _ => "DivMod"
  | sequence .array _ => "ndarray"
  | sequence .matrix _ => "csr_matrix"
  | table _ _ => "dict"
  | var _ => "Variable"
  | expr _ => "LinearExpression"
  | constraint _ _ => "Constraint"
  | handle (.model _) _ => "Model"
  | handle (.settings _) _ => "Parameters"
  | handle (.outcome _) _ => "SolveResult"
  | handle (.solution _) _ => "Solution"
  | handle (.engine _) _ => "HighsSolver"
  | handle (.inside _) _ => "dict"

/-- The name of an enumerated value within its type. -/
def memberName : Value K → String
  | domain .continuous => "CONTINUOUS"
  | domain .integer => "INTEGER"
  | domain .binary => "BINARY"
  | direction .minimize => "MINIMIZE"
  | direction .maximize => "MAXIMIZE"
  | relation .le => "LE"
  | relation .ge => "GE"
  | relation .eq => "EQ"
  | _ => ""

end Value

end MixedInteger
