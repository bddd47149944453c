/-!
# What can go wrong

Every operation on models either succeeds or reports one `Fault`, named for its cause.  A fault
belongs to a `Fault.Kind`, the class under which a caller catches it, and some faults carry a
message.

## What is here

* `Fault`: the causes.
* `Fault.kind`: the class of each cause.
* `Fault.message?`: the text of each cause that has one.
-/

set_option autoImplicit false

namespace MixedInteger

/-- The cause of a failure.  Numbers and operands that appear in a message are kept as the text
under which they are shown. -/
inductive Fault where
  /-- An integer is too large for a number of the model, or an infinity for an integer. -/
  | outOfRange
  /-- A division by zero. -/
  | divisionByZero
  /-- An operand of a kind that the operation does not take. -/
  | unsupportedOperand
  /-- A text or number that does not denote what is asked for. -/
  | malformed
  /-- A table without an entry under the key. -/
  | missingKey
  /-- An operand without the property that the operation reads. -/
  | missingProperty
  /-- A key of a solution that has no entry and no name either. -/
  | noName (kind : String)
  /-- A position outside of a sequence. -/
  | noSuchItem
  /-- More things than there is room for. -/
  | outOfMemory
  /-- A value whose text would contain itself, or whose parts have no end. -/
  | endless
  /-- An expression multiplied by something that is not constant. -/
  | quadratic
  /-- A variable divided by something that is not a number. -/
  | variableDivisor
  /-- An expression divided by something that is not a number. -/
  | expressionDivisor
  /-- A right-hand side that is neither a number nor an expression. -/
  | rightHandSide
  /-- A constraint used as a truth value. -/
  | noTruthValue
  /-- An operand that is no part of a sum. -/
  | notSummable (kind : String)
  /-- An operand that is no expression. -/
  | notExpression (kind : String)
  /-- An operand of the row registry that is no constraint. -/
  | notConstraint (kind : String)
  /-- A cardinality bound that is not a number. -/
  | boundNotNumber (context : String)
  /-- An operand of a reformulation that is no constraint. -/
  | constraintExpected (context : String)
  /-- An operand of a look-up that is neither a variable nor an expression. -/
  | notLookup
  /-- A variable name that is already in use. -/
  | variableNameTaken (name : String)
  /-- A constraint name that is already in use. -/
  | constraintNameTaken (name : String)
  /-- A negative number of variables. -/
  | negativeCount
  /-- An encoding of the exclusive or that does not exist. -/
  | unknownEncoding (shown : String)
  /-- An active value other than zero and one. -/
  | inactiveValue (shown : String)
  /-- A margin that is not positive. -/
  | marginNotPositive (shown : String)
  /-- A text format of models that does not exist. -/
  | unknownModelFormat (shown : String)
  /-- A text format of problems that does not exist. -/
  | unknownProblemFormat (shown : String)
  /-- Arrays of a model without variables. -/
  | noVariables
  /-- A solving engine that does not exist. -/
  | unknownBackend (shown : String)
  /-- A status that no solve reports. -/
  | unknownStatus (shown : String)
  /-- An option that the engine rejects. -/
  | optionRejected (name shown : String)
  /-- A file name without a problem format. -/
  | formatNotInferred (path : String)
  /-- A file name that is too long to be looked up. -/
  | pathTooLong
  /-- A problem file that does not exist. -/
  | fileNotFound (path : String)
  /-- A problem file that the engine cannot read. -/
  | unreadable (path : String)
  /-- Bound arrays that do not have one entry per variable. -/
  | boundLengths (expected : Nat)
  /-- Row arrays that do not have one entry per constraint. -/
  | rowLengths (expected : Nat)
  /-- Bounds of a variable that cross or are not numbers. -/
  | boundsCross (name lower upper : String)
  /-- Bounds that a semi-continuous variable does not take. -/
  | semiContinuousRange (lower upper : String)
  /-- A divisor that is not a positive integer. -/
  | divisorNotPositive (shown : String)
  /-- A dividend that may be negative or arbitrarily large. -/
  | dividendRange (lower upper : String)
  /-- An expression with an infinite bound where a finite one is needed. -/
  | infiniteBounds (context lower upper : String)
  /-- A reformulation without operands. -/
  | noOperands (context : String)
  /-- An operand that is not binary. -/
  | notBinary (context name : String)
  /-- A product without a binary factor. -/
  | productNotBinary
  /-- An engine handle used after its release. -/
  | handleReleased
  /-- An engine that cannot be loaded. -/
  | engineMissing (reason : String)
  /-- An engine that fails while it gives up its resources. -/
  | engineFailure
  /-- A solution without a value for a variable. -/
  | noValue (name : String)
  deriving DecidableEq, Repr

namespace Fault

/-- The classes of faults. -/
inductive Kind where
  /-- A value out of range of its type. -/
  | overflow
  /-- A division by zero. -/
  | zeroDivision
  /-- An operand of the wrong kind. -/
  | type
  /-- A value outside the accepted ones. -/
  | value
  /-- A key without an entry. -/
  | key
  /-- A position without an item. -/
  | index
  /-- A property that does not exist. -/
  | attribute
  /-- A lack of room. -/
  | memory
  /-- A value that contains itself. -/
  | recursion
  /-- Bounds or a divisor outside the accepted range. -/
  | invalidRange
  /-- An infinite bound where a constant must be derived from it. -/
  | unboundedBigM
  /-- A missing operand. -/
  | invalidArity
  /-- A variable of the wrong domain. -/
  | invalidVariableKind
  /-- A product that is not supported. -/
  | unsupportedProduct
  /-- A released handle. -/
  | disposed
  /-- A component that cannot be loaded. -/
  | importFailure
  /-- A file that does not exist. -/
  | fileMissing
  /-- A file that cannot be looked up. -/
  | system
  /-- A failure inside an engine. -/
  | engine
  deriving DecidableEq, Repr

/-- The class of a cause. -/
def kind : Fault → Kind
  | outOfRange => .overflow
  | divisionByZero => .zeroDivision
  | unsupportedOperand | quadratic | variableDivisor | expressionDivisor | rightHandSide
  | noTruthValue | notSummable _ | notExpression _ | notConstraint _ | boundNotNumber _
  | constraintExpected _ | notLookup => .type
  | malformed | variableNameTaken _ | constraintNameTaken _ | negativeCount | unknownEncoding _
  | inactiveValue _ | marginNotPositive _ | unknownModelFormat _ | unknownProblemFormat _
  | noVariables | unknownBackend _ | unknownStatus _ | optionRejected _ _ | formatNotInferred _
  | unreadable _ | boundLengths _ | rowLengths _ => .value
  | missingKey | noValue _ => .key
  | missingProperty | noName _ => .attribute
  | noSuchItem => .index
  | outOfMemory => .memory
  | endless => .recursion
  | boundsCross _ _ _ | semiContinuousRange _ _ | divisorNotPositive _ | dividendRange _ _ =>
    .invalidRange
  | infiniteBounds _ _ _ => .unboundedBigM
  | noOperands _ => .invalidArity
  | notBinary _ _ => .invalidVariableKind
  | productNotBinary => .unsupportedProduct
  | handleReleased => .disposed
  | engineMissing _ => .importFailure
  | engineFailure => .engine
  | fileNotFound _ => .fileMissing
  | pathTooLong => .system

/-- The text of a cause, where it has one. -/
def message? : Fault → Option String
  | outOfRange | divisionByZero | unsupportedOperand | malformed | missingKey | missingProperty
  | noSuchItem | outOfMemory | endless | pathTooLong | engineFailure => none
  | noName kind => some s!"'{kind}' object has no attribute 'name'"
  | quadratic => some ("Can only multiply expression by scalar (no quadratic terms); " ++
      "use Model.product for binary products")
  | variableDivisor => some "Can only divide variable by scalar"
  | expressionDivisor => some "Can only divide expression by scalar"
  | rightHandSide => some "RHS must be scalar, Variable, or LinearExpression"
  | noTruthValue => some ("A Constraint has no truth value; chained comparisons such as " ++
      "'a <= x <= b' must be written as two constraints")
  | notSummable kind => some s!"Cannot sum object of type {kind}"
  | notExpression kind => some s!"Expected Variable, scalar, or LinearExpression, got {kind}"
  | notConstraint kind => some s!"Expected a Constraint, got {kind}"
  | boundNotNumber context => some s!"{context}: k must be a number"
  | constraintExpected context => some s!"{context}: expected a Constraint"
  | notLookup => some "Can only look up a Variable or LinearExpression"
  | variableNameTaken name => some s!"Variable name '{name}' is already used in this model"
  | constraintNameTaken name => some s!"Constraint name '{name}' is already used in this model"
  | negativeCount => some "count must be non-negative"
  | unknownEncoding shown =>
    some s!"Unknown xor method: {shown} (expected 'constraints' or 'compact')"
  | inactiveValue shown => some s!"add_indicator: active must be 0 or 1, got {shown}"
  | marginNotPositive shown => some s!"reify: epsilon must be positive, got {shown}"
  | unknownModelFormat shown => some s!"Unknown model format: {shown} (expected 'lp' or 'mps')"
  | unknownProblemFormat shown =>
    some s!"Unknown problem format: {shown} (expected 'lp' or 'mps')"
  | noVariables => some "Model has no variables"
  | unknownBackend shown => some s!"Unknown backend: {shown} (expected 'highs' or 'scipy')"
  | unknownStatus shown => some s!"Unknown solve status: {shown}"
  | optionRejected name shown => some s!"Invalid HiGHS option: {name}={shown}"
  | formatNotInferred path => some s!"Cannot infer problem format from file name: {path}"
  | fileNotFound path => some s!"Problem file not found: {path}"
  | unreadable path => some s!"HiGHS could not read problem file {path}"
  | boundLengths expected =>
    some s!"l and u must have length {expected} (number of variables)"
  | rowLengths expected =>
    some s!"AL and AU must have length {expected} (number of constraints)"
  | boundsCross name lower upper =>
    some s!"Variable '{name}': lower bound ({lower}) must be <= upper bound ({upper})"
  | semiContinuousRange lower upper =>
    some s!"semi_cont_var requires 0 < lb <= ub < inf, got lb={lower}, ub={upper}"
  | divisorNotPositive shown =>
    some s!"div_mod: divisor must be a positive integer, got {shown}"
  | dividendRange lower upper =>
    some ("div_mod: dividend must be non-negative with a finite upper bound, " ++
      s!"got bounds [{lower}, {upper}]")
  | infiniteBounds context lower upper =>
    some (s!"{context}: expression has infinite bounds [{lower}, {upper}]; " ++
      "provide an explicit big_m")
  | noOperands context => some s!"{context} requires at least 1 operand"
  | notBinary context name => some s!"{context}: variable '{name}' must be binary"
  | productNotBinary => some ("product requires at least one binary operand; " ++
      "products of two non-binary terms are not supported")
  | handleReleased => some "Solver instance has been freed"
  | engineMissing reason =>
    some (s!"Failed to import the HiGHS bindings: {reason}\n\n" ++
      "Solving models requires the highspy package:\n  python -m pip install highspy\n")
  | noValue name => some name

end Fault

end MixedInteger
