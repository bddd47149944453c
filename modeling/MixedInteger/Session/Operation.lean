import MixedInteger.Session.State

/-!
# Operations by name

An operation is called by its name with arguments in order and arguments by name, as its parameters
allow.  A property is read by its name and has no use for arguments.

## What is here

* `Parameter`, `Signature`: the parameters of an operation.
* `Signature.bind`: the arguments of a call, one for each parameter.
* `Operation`, `Operation.answer`: a property or a call, and what it answers to given arguments.
-/

set_option autoImplicit false

namespace MixedInteger

/-- A parameter, with the value that it takes when no argument is given. -/
structure Parameter (K : Type) where
  /-- The name. -/
  name : String
  /-- The value without an argument, if there need not be one. -/
  otherwise : Option (Value K)

/-- The parameters of an operation. -/
structure Signature (K : Type) where
  /-- The parameters in order. -/
  parameters : List (Parameter K)
  /-- Whether any number of further arguments may follow. -/
  more : Bool

namespace Signature

variable {K : Type}

/-- The argument for one parameter that got none in order. -/
def argument (named : List (String × Value K)) (p : Parameter K) : Except Fault (Value K) :=
  match (named.find? fun n => n.1 = p.name).map Prod.snd, p.otherwise with
  | some v, _ => .ok v
  | none, some v => .ok v
  | none, none => .error .unsupportedOperand

/-- The arguments for the parameters, and the further ones. -/
def bind (s : Signature K) (args : List (Value K)) (named : List (String × Value K)) :
    Except Fault (List (Value K) × List (Value K)) := do
  let unfilled := s.parameters.drop args.length
  if s.parameters.length < args.length && !s.more then throw .unsupportedOperand
  if named.any fun n => !unfilled.any fun p => p.name = n.1 then throw .unsupportedOperand
  let later ← unfilled.mapM (argument named)
  return (args.take s.parameters.length ++ later, args.drop s.parameters.length)

end Signature

/-- What a name stands for. -/
inductive Operation (K : Type) where
  /-- A property, which is the same whatever the arguments are. -/
  | property (read : Run K (Value K))
  /-- What is done with an argument for each parameter and with further arguments. -/
  | call (signature : Signature K) (action : List (Value K) → List (Value K) → Run K (Value K))

namespace Operation

variable {K : Type}

/-- A parameter that needs an argument. -/
def needed (name : String) : Parameter K := ⟨name, none⟩

/-- A parameter that does not need an argument. -/
def optional (name : String) (v : Value K) : Parameter K := ⟨name, some v⟩

/-- A parameter that is absent without an argument. -/
def maybe (name : String) : Parameter K := ⟨name, some .none⟩

/-- An operation with the given parameters. -/
def of (parameters : List (Parameter K)) (action : List (Value K) → Run K (Value K)) :
    Operation K :=
  call ⟨parameters, false⟩ fun args _ => action args

/-- An operation without parameters. -/
def constant (action : Run K (Value K)) : Operation K := of [] fun _ => action

/-- An operation with one parameter. -/
def unary (p : Parameter K) (action : Value K → Run K (Value K)) : Operation K :=
  of [p] fun
    | [a] => action a
    | _ => throw .unsupportedOperand

/-- An operation with two parameters. -/
def binary (p q : Parameter K) (action : Value K → Value K → Run K (Value K)) : Operation K :=
  of [p, q] fun
    | [a, b] => action a b
    | _ => throw .unsupportedOperand

/-- An operation with three parameters. -/
def ternary (p q r : Parameter K) (action : Value K → Value K → Value K → Run K (Value K)) :
    Operation K :=
  of [p, q, r] fun
    | [a, b, c] => action a b c
    | _ => throw .unsupportedOperand

/-- An operation with any number of arguments. -/
def variadic (action : List (Value K) → Run K (Value K)) : Operation K :=
  call ⟨[], true⟩ fun _ rest => action rest

/-- An operation with one parameter and any number of arguments after it. -/
def variadicAfter (p : Parameter K) (action : Value K → List (Value K) → Run K (Value K)) :
    Operation K :=
  call ⟨[p], true⟩ fun
    | [a], rest => action a rest
    | _, _ => throw .unsupportedOperand

/-- A property that is known already. -/
def known (v : Value K) : Operation K := property (return v)

/-- What an operation answers to arguments in order and by name. -/
def answer (o : Operation K) (args : List (Value K)) (named : List (String × Value K)) :
    Run K (Value K) :=
  match o with
  | property read => read
  | call signature action => do
    let (bound, rest) ← signature.bind args named
    action bound rest

end Operation

end MixedInteger
