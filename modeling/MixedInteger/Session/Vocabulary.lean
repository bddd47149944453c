import MixedInteger.Session.Operation

/-!
# The vocabulary of a session

The names under which a caller reaches the operations: those that stand alone, and those of each
kind of value.

## What is here

* `Vocabulary.standalone`: the operations that need no receiver.
* `Vocabulary.ofModel`, `Vocabulary.ofValue`: the operations of a model and of any value.
* `Run.invoke`: a call of an operation.
-/

set_option autoImplicit false

namespace MixedInteger

variable {K : Type} [Arithmetic K]

open Arithmetic

namespace Run

/-- Fails unless a value is a binary variable. -/
def requireBinary (v context : Value K) : Except Fault Unit :=
  match v with
  | .var x => do
    if !x.isBinary then throw (.notBinary (← context.display) (← x.name.display))
  | _ => do
    let shown ← v.shown
    throw (.notBinary (← context.display) shown)

/-- The value of an expression under a table of values or in a solution. -/
def evaluate (e : LinearExpr K) (values : Value K) : Run K (Value K) :=
  match values with
  | .handle (.solution id) _ => do (← solution id).evaluate e
  | _ => liftM (Value.evaluate e values)

end Run

namespace Vocabulary

open Operation

/-- The parameters of a variable with bounds. -/
def boundParameters : List (Parameter K) :=
  [optional "lb" (.real zero), optional "ub" (.real infinity), maybe "name"]

/-- The parameters of a written problem. -/
def problemParameters : List (Parameter K) :=
  [needed "objective", needed "sense", needed "constraints", needed "variables", maybe "name"]

/-- The parameters of a problem given by its arrays. -/
def arrayParameters : List (Parameter K) :=
  [needed "A", needed "AL", needed "AU", needed "l", needed "u", needed "c",
   maybe "integrality", maybe "names", maybe "param"]

/-- Makes an expression of one variable. -/
def variableExpr : Value K → Except Fault (Value K)
  | .var v => .ok (.expr (.ofVariable v))
  | v => .error (if v.isKey then .missingProperty else .unsupportedOperand)

/-- A record of a kind, made from a table. -/
def described : RecordKind → Operation K
  | .settings => unary (needed "d") fun d => Run.addRecord Settings.standard (Settings.fill d)
  | .outcome => unary (needed "d") fun d => do
    Run.addRecord (← Report.start d) (Report.fill d)

/-- The operations that need no receiver. -/
def standalone : String → Option (Operation K)
  | "let" => some <| unary (needed "v") fun v => return v
  | "Model" => some <| unary (maybe "name") fun name => Run.addModel name
  | "LinearExpression" => some <|
    binary (maybe "coefficients") (optional "constant" (.real zero)) fun ts c =>
      return .expr (← Value.makeExpr ts c)
  | "Constraint" => some <|
    of [needed "lhs", needed "rhs", needed "sense", maybe "name"] fun
      | [lhs, rhs, rel, name] => return .made (← Value.makeConstraint lhs rhs rel name)
      | _ => throw .unsupportedOperand
  | "from_terms" => some <|
    binary (needed "terms") (optional "constant" (.real zero)) fun ts c =>
      return .expr (← Value.makeExprFromTerms ts c)
  | "from_variable" => some <| unary (needed "var") fun v => liftM (variableExpr v)
  | "from_constant" => some <| unary (needed "value") fun v =>
    return .expr (.ofConstant (← v.toNumber))
  | "as_expression" => some <| unary (needed "value") fun v => return .expr (← v.toExpr)
  | "quicksum" => some <| variadic fun vs => return .expr (← Value.sumOf vs)
  | "VarType" => some <| unary (needed "value") fun v => return .domain (← v.toDomain)
  | "Sense" => some <| unary (needed "value") fun v => return .direction (← v.toDirection)
  | "ConstraintSense" => some <| unary (needed "value") fun v =>
    return .relation (← v.toRelation)
  | "compute_bounds" => some <| unary (needed "expr") fun v =>
    return .ofInterval (← v.intervalOf)
  | "is_integral" => some <| unary (needed "expr") fun v => return .bool (← v.integralOf)
  | "finite_bounds" => some <|
    ternary (needed "expr") (needed "context") (maybe "big_m") fun v context bigM =>
      return .ofInterval (← v.finiteIntervalOf context bigM)
  | "assert_binary" => some <| binary (needed "var") (needed "context") fun v context => do
    Run.requireBinary v context
    return .none
  | "format_number" => some <| unary (needed "value") fun v =>
    return .text (numberText (← v.toNumber))
  | "to_lp_format" => some <| of problemParameters fun
    | [e, d, cs, vs, _] => return .text (← Run.lpTextOf e d cs vs)
    | _ => throw .unsupportedOperand
  | "to_mps_format" => some <| of problemParameters fun
    | [e, d, cs, vs, name] => return .text (← Run.mpsTextOf e d cs vs name)
    | _ => throw .unsupportedOperand
  | "Parameters" => some <| constant (Run.addRecord Settings.standard (return ()))
  | "Parameters.from_dict" => some (described .settings)
  | "SolveResult" => some <|
    ternary (optional "status" (.text "unknown")) (maybe "objective") (maybe "solution")
      fun status objective solution => do
        Run.addOutcome (← Outcome.make status objective solution)
  | "SolveResult.from_dict" => some (described .outcome)
  | "Solution" => some <| binary (needed "result") (needed "variables") fun r vs =>
    match r with
    | .handle report _ => Run.addSolution report vs
    | _ => throw .missingProperty
  | "HighsSolver" => some <| unary (maybe "param") fun param => do
    let id ← Run.onWorld (Ask.load (← Run.settingsOf param))
    Run.handleTo (.engine id)
  | "solve_text" => some <|
    ternary (needed "text") (optional "fmt" (.text "lp")) (maybe "param") Run.solveText
  | "solve_file" => some <| binary (needed "filename") (maybe "param") Run.solveFile
  | "solve_arrays" => some <| of arrayParameters fun
    | [a, al, au, l, u, c, kinds, names, param] =>
      Run.solveArrays a al au l u c kinds names param
    | _ => throw .unsupportedOperand
  | "repr" => some <| unary (needed "v") fun v => return .text (← v.shown)
  | "str" => some <| unary (needed "v") fun v => return .text (← v.display)
  | "len" => some <| unary (needed "v") fun v => return .int (← v.length)
  | "bool" => some <| unary (needed "v") fun v => return .bool (← v.truth)
  | _ => none

/-- A call on the model of a number. -/
def call (id : Nat) (c : Model.Call K) : Run K (Value K) := Run.onModel id (Build.perform c)

/-- A call on a model with a bound and any number of operands. -/
def cardinality (id : Nat) (r : Relation) : Operation K :=
  variadicAfter (needed "k") fun k args => call id (.cardinality r k args)

/-- A variable of a fixed domain with bounds. -/
def boundedVariable (id : Nat) (d : Domain) : Operation K :=
  of boundParameters fun
    | [l, u, name] => call id (.addVariable (.domain d) l u name)
    | _ => throw .unsupportedOperand

/-- The arrays of a model as a value. -/
def standardFormValue (s : StandardForm K) : Value K :=
  .sequence .tuple
    [.sequence .matrix (s.matrix.map .reals), .reals s.rowLower, .reals s.rowUpper, .reals s.lower,
     .reals s.upper, .reals s.cost,
     .sequence .array (s.integrality.map fun b => .int (if b then 1 else 0)), .real s.offset]

/-- The variable of a name in a model. -/
def namedVariable (m : Model K) (name : Value K) : Except Fault (Value K) :=
  if name.isKey then
    match m.find? name with
    | some v => .ok (.var v)
    | none => .error .missingKey
  else .error .unsupportedOperand

/-- The operations of a model that build. -/
def builders (id : Nat) : String → Option (Operation K)
  | "num_var" => some (boundedVariable id .continuous)
  | "int_var" => some (boundedVariable id .integer)
  | "bool_var" => some <| unary (maybe "name") fun name =>
    call id (.addVariable (.domain .binary) (.real zero) (.real one) name)
  | "add_variable" => some <| of
    (optional "var_type" (.domain .continuous) :: boundParameters) fun
      | [d, l, u, name] => call id (.addVariable d l u name)
      | _ => throw .unsupportedOperand
  | "add_variables" => some <| of
    [needed "count", optional "var_type" (.domain .continuous), optional "lb" (.real zero),
     optional "ub" (.real infinity), maybe "prefix"] fun
      | [n, d, l, u, stem] => call id (.addVariables n d l u stem)
      | _ => throw .unsupportedOperand
  | "add_constraint" => some <| binary (needed "constraint") (maybe "name") fun c name =>
    call id (.addConstraint c name)
  | "set_objective" => some <| binary (needed "expr") (maybe "sense") fun e d =>
    call id (.setObjective e d)
  | "minimize" => some <| unary (needed "expr") fun e =>
    call id (.setObjective e (.direction .minimize))
  | "maximize" => some <| unary (needed "expr") fun e =>
    call id (.setObjective e (.direction .maximize))
  | "and_" => some <| variadic fun args => call id (.conjunction args)
  | "or_" => some <| variadic fun args => call id (.disjunction args)
  | "not_" => some <| unary (needed "x") fun x => call id (.negation x)
  | "xor" => some <| ternary (needed "x") (needed "y") (optional "method" (.text "constraints"))
    fun x y encoding => call id (.exclusive x y encoding)
  | "add_implication" => some <| binary (needed "x") (needed "y") fun x y =>
    call id (.implication x y)
  | "add_at_most" => some (cardinality id .le)
  | "add_at_least" => some (cardinality id .ge)
  | "add_exactly" => some (cardinality id .eq)
  | "add_indicator" => some <| of
    [needed "delta", needed "constraint", optional "active" (.int 1), maybe "big_m"] fun
      | [delta, c, active, m] => call id (.indicator delta c active m)
      | _ => throw .unsupportedOperand
  | "add_either_or" => some <| ternary (needed "c1") (needed "c2") (maybe "big_m") fun c d m =>
    call id (.eitherOr c d m)
  | "abs" => some <| binary (needed "expr") (maybe "big_m") fun e m => call id (.magnitude e m)
  | "max" => some <| binary (needed "exprs") (maybe "big_m") fun es m => call id (.maximum es m)
  | "min" => some <| binary (needed "exprs") (maybe "big_m") fun es m => call id (.minimum es m)
  | "product" => some <| ternary (needed "x") (needed "y") (maybe "big_m") fun x y m =>
    call id (.product x y m)
  | "semi_cont_var" => some <| ternary (needed "lb") (needed "ub") (maybe "name") fun l u name =>
    call id (.semiContinuous l u name)
  | "div_mod" => some <| binary (needed "expr") (needed "d") fun e d => call id (.divide e d)
  | "reify" => some <| ternary (needed "constraint") (maybe "big_m") (maybe "epsilon")
    fun c m eps => call id (.reify c m eps)
  | _ => none

/-- An assignment to the name of the model of a number, the only part that can be assigned. -/
def nameAssignment (id : Nat) : Operation K :=
  binary (needed "name") (needed "value") fun name v =>
    match name with
    | .text "name" => do
      Run.rename id v
      return .none
    | .text _ => throw .missingProperty
    | _ => throw .unsupportedOperand

/-- The operations of a model that read or name it. -/
def readers (id : Nat) (m : Model K) : String → Option (Operation K)
  | "set" => some (nameAssignment id)
  | "get_variable" => some <| unary (needed "name") fun name => liftM (namedVariable m name)
  | "to_lp" => some <| constant do return .text (← m.problem.lpText)
  | "to_mps" => some <| constant do return .text (← m.problem.mpsText)
  | "to_string" => some <| unary (optional "fmt" (.text "lp")) fun fmt =>
    return .text (← m.textIn fmt)
  | "to_standard_form" => some <| constant do return standardFormValue (← m.standardForm)
  | "solve" => some <| ternary (maybe "parameters") (optional "fmt" (.text "lp"))
    (optional "backend" (.text "highs")) fun param fmt backend =>
      Run.solveModel id param fmt backend
  | "name" => some <| known m.name
  | "variables" => some <| known (.list (m.vars.map .var))
  | "constraints" => some <| known (.list m.rows)
  | "num_variables" => some <| known (.int m.vars.length)
  | "num_constraints" => some <| known (.int m.constraints.length)
  | "objective" => some <| known ((m.objective.map .expr).getD .none)
  | "sense" => some <| known (.direction m.direction)
  | _ => none

/-- The operations of a member of an enumeration with the given tag. -/
def ofMember (v : Value K) (tag : String) : String → Option (Operation K)
  | "name" => some <| known (.text v.memberName)
  | "value" => some <| known (.text tag)
  | _ => none

/-- The operations of a variable. -/
def ofVariable (v : Variable K) : String → Option (Operation K)
  | "name" => some <| known v.name
  | "type" => some <| known (.domain v.domain)
  | "lb" => some <| known (.real v.lower)
  | "ub" => some <| known (.real v.upper)
  | "is_integer" => some <| known (.bool v.isInteger)
  | "is_binary" => some <| known (.bool v.isBinary)
  | _ => none

/-- The coefficient that an expression has for a value. -/
def coefficientOf (e : LinearExpr K) : Value K → Except Fault (Value K)
  | .var v => .ok (.real (e.coefficient v))
  | v => if v.isKey then .ok (.real zero) else .error .unsupportedOperand

/-- The operations of an expression. -/
def ofExpr (e : LinearExpr K) : String → Option (Operation K)
  | "constant" => some <| known (.real e.constant)
  | "terms" => some <| known
    (.list (e.terms.map fun t => .sequence .tuple [.real t.2, .var t.1]))
  | "coefficients" => some <| known (.newTable (e.terms.map fun t => (.var t.1, .real t.2)))
  | "variables" => some <| known (.list (e.vars.map .var))
  | "is_constant" => some <| known (.bool e.isConstant)
  | "coefficient" => some <| unary (needed "var") fun v => liftM (coefficientOf e v)
  | "evaluate" => some <| unary (needed "values") fun values => Run.evaluate e values
  | _ => none

/-- The operations of a constraint. -/
def ofConstraint (c : Constraint K) : String → Option (Operation K)
  | "expression" => some <| known (.expr c.expr)
  | "sense" => some <| known (.relation c.relation)
  | "rhs" => some <| known (.real c.rhs)
  | "name" => some <| known c.name
  | "with_name" => some <| unary (needed "name") fun name =>
    return .made (c.withName name)
  | _ => none

/-- The operations of a sequence, which may be an interval or the results of a division. -/
def ofSequence : Shape → List (Value K) → String → Option (Operation K)
  | .division, [q, _], "quotient" => some (known q)
  | .division, [_, r], "remainder" => some (known r)
  | .bounds, [l, _], "lb" => some (known l)
  | .bounds, [_, u], "ub" => some (known u)
  | _, _, _ => none

/-- An assignment by name to the record of a number. -/
def assignment (id : Nat) (r : Record K) : Operation K :=
  binary (needed "name") (needed "value") fun name v =>
    match name with
    | .text n => do
      Run.assign id r n v
      return .none
    | _ => throw .unsupportedOperand

/-- The operations of a record without a field of the name. -/
def recordOperation (r : Record K) (name : String) : Option (Operation K) :=
  match r.kind, name with
  | _, "__dict__" => some (known (.table r.fields r.home))
  | kind, "from_dict" => some (described kind)
  | .settings, "to_dict" => some (constant (liftM (Settings.toTable r)))
  | .settings, "to_highs_options" => some <| constant do
    return optionTable (← Settings.textOptions r)
  | .settings, "to_scipy_options" => some <| constant do
    return optionTable (← Settings.arrayOptions r)
  | .outcome, "to_dict" => some (constant (liftM (Report.toTable r)))
  | .outcome, "is_optimal" => some <| constant do return .bool (← Report.isOptimal r)
  | .outcome, "has_solution" => some <| constant do return .bool (← Report.hasSolution r)
  | _, _ => none

/-- The operations of the record of a number.  A field comes before an operation of its name. -/
def ofRecord (id : Nat) (r : Record K) (name : String) : Option (Operation K) :=
  if name = "set" then some (assignment id r)
  else match r.field? name with
    | some v => some (known v)
    | none => recordOperation r name

/-- The operations of a solution. -/
def ofSolution (s : Solution K) (r : Report K) : String → Option (Operation K)
  | "status" => some (property (liftM (r.read "status")))
  | "objective" => some (property (liftM (r.read "objective")))
  | "result" => some (property (Run.handleTo s.report))
  | "values" => some (known s.toTable)
  | "is_optimal" => some <| constant do return .bool (← Report.isOptimal r)
  | "get_value" => some <| unary (needed "item") fun v => liftM (s.get v)
  | "getitem" => some <| unary (needed "var") fun v => do
    s.require v (← Run.nameOf v)
  | _ => none

/-- The operations of a loaded engine. -/
def ofEngine (id : Nat) : String → Option (Operation K)
  | "freed" => some <| property do return .bool (← Run.onWorld (Ask.isReleased id))
  | "set_param" => some <| binary (needed "name") (needed "value") fun name v => do
    Run.onWorld (Ask.setOption id name v)
    return .none
  | "apply" => some <| unary (needed "param") fun param => do
    if !param.isPresent then throw .missingProperty
    let s ← liftM (← Run.settingsOf param)
    Run.onWorld (Ask.applySettings id s)
    return .none
  | "parse" => some <| binary (needed "text") (optional "fmt" (.text "lp")) fun t fmt => do
    Run.onWorld (Ask.parse id t fmt)
    return .none
  | "read_problem" => some <| unary (needed "filename") fun filename => do
    Run.onWorld (Ask.readProblem id filename)
    return .none
  | "solve" => some <| constant do Run.addOutcome (← Run.onWorld (Ask.run id))
  | "free" => some <| constant do
    Run.onWorld (Ask.release id)
    return .none
  | _ => none

/-- The operations of a value. -/
def ofValue (v : Value K) (name : String) : Run K (Option (Operation K)) :=
  match v with
  | .domain d => return ofMember v d.tag name
  | .direction d => return ofMember v d.tag name
  | .relation r => return ofMember v r.tag name
  | .var v => return ofVariable v name
  | .expr e => return ofExpr e name
  | .constraint c _ => return ofConstraint c name
  | .sequence shape items => return ofSequence shape items name
  | .handle (.model id) _ => do return builders id name <|> readers id (← Run.model id) name
  | .handle h@(.settings id) _ => do return ofRecord id (← Run.record h) name
  | .handle h@(.outcome id) _ => do return ofRecord id (← Run.record h) name
  | .handle (.solution id) _ => do
    let s ← Run.solution id
    return ofSolution s (← Run.record s.report) name
  | .handle (.engine id) _ => return ofEngine id name
  | _ => return none

end Vocabulary

namespace Run

/-- Calls an operation, on a receiver or standing alone. -/
def invoke (name : String) (receiver : Option (Value K)) (args : List (Value K))
    (named : List (String × Value K)) : Run K (Value K) := do
  let args ← args.mapM settle
  let named ← named.mapM fun n => do return (n.1, ← settle n.2)
  let receiver ← receiver.mapM settle
  if let some (.handle (.model id) _) := receiver then modify fun s => s.refresh id
  let operation ← match receiver with
    | some v => Vocabulary.ofValue v name
    | none => pure (Vocabulary.standalone name)
  match operation with
  | some o =>
    settle (← o.answer args named)
  | none => throw .missingProperty

end Run

end MixedInteger
