import MixedInteger.Engine.World
import MixedInteger.Engine.Handle
import MixedInteger.Document.StandardForm

/-!
# Solving from arrays

## What is here

* `Value.arranged`, `Value.toTensor`: the entries of a value in rows.
* `Value.toNumbers`, `Value.toIntegers`, `Value.toMatrix`: arrays given as values.
* `ArrayProblem.ofValues`: a problem from its arrays, with their lengths checked.
* `Ask.solveArrays`: the request to the engine and the outcome.
-/

set_option autoImplicit false

namespace MixedInteger

namespace Value

variable {K : Type} [Arithmetic K]

open Arithmetic

mutual

/-- The entries of a value, where sequences are rows. -/
def arranged : Value K → Tensor (Value K)
  | sequence _ items => .rows (arrangedAll items)
  | v => .entry v

/-- The entries of several values. -/
def arrangedAll : List (Value K) → List (Tensor (Value K))
  | [] => []
  | v :: vs => arranged v :: arrangedAll vs

end

/-- The greatest number of levels of an array. -/
def maxLevels : Nat := 64

/-- An array, each entry of which is read in one way; a single entry is an array of one. -/
def toTensor {α : Type} (read : Value K → Except Fault α) (v : Value K) :
    Except Fault (Tensor α) :=
  match v.arranged with
  | .entry a => do return .ofList [← read a]
  | t =>
    if t.isRectangular && t.shape.length ≤ maxLevels then t.mapM read else .error .malformed

/-- An entry of an array of numbers; a missing entry is not a number. -/
def toEntry : Value K → Except Fault K
  | none => .ok (infinity - infinity)
  | handle (.solution _) _ => .error .malformed
  | v => v.toNumber

/-- An array of numbers. -/
def toNumbers (v : Value K) : Except Fault (Tensor K) := v.toTensor toEntry

/-- Whether an integer fits into thirty-two bits. -/
def isSmall (n : Int) : Bool := -(twoPow 31 : Int) ≤ n && n < twoPow 31

/-- An entry of an array of integers of thirty-two bits. -/
def toSmallInteger (v : Value K) : Except Fault Int := do
  match v with
  | handle (.solution _) _ => throw .malformed
  | _ =>
    let n ← v.toInteger
    if isSmall n then return n else throw .outOfRange

/-- An array of integers. -/
def toIntegers (v : Value K) : Except Fault (Tensor Int) := v.toTensor toSmallInteger

/-- Whether a value is a sequence. -/
def isSequence : Value K → Bool
  | sequence _ _ => true
  | _ => false

/-- The items of a sequence. -/
def itemList : Value K → List (Value K)
  | sequence _ items => items
  | _ => []

/-- The rows of a matrix, which have one length and no parts of their own.  A flat array is one
row, and anything but a sequence is a matrix of one entry. -/
def matrixRows (v : Value K) : Except Fault (List (List (Value K))) :=
  let rows := match v with
    | sequence _ items => if items.any isSequence then items else [v]
    | _ => [list [v]]
  let width := (rows.map fun r => r.itemList.length).headD 0
  if rows.all fun r => r.isSequence && r.itemList.length = width && !r.itemList.any isSequence then
    .ok (rows.map itemList)
  else .error .malformed

/-- Whether a value fits into an array of numbers: an integer has at most sixty-four bits. -/
def isArrayNumber : Value K → Bool
  | scalar (.integer n) => -(twoPow 63 : Int) ≤ n && n < twoPow 64
  | scalar _ => true
  | _ => false

/-- Fails if a value has no truth value, which an array that is not made of numbers asks for. -/
def requireTruth (v : Value K) : Except Fault Unit := v.truth.map fun _ => ()

/-- An entry of a matrix, where all zeros are one. -/
def toMatrixEntry (v : Value K) : Except Fault K := do
  let x ← v.toNumber
  return if eq x zero then zero else x

/-- A matrix of numbers given by its rows. -/
def toMatrix (v : Value K) : Except Fault (List (List K)) := do
  let rows ← v.matrixRows
  if rows.all fun r => r.all isArrayNumber then rows.mapM fun r => r.mapM toMatrixEntry
  else
    rows.forM fun r => r.forM requireTruth
    throw .malformed

end Value

variable {K : Type} [Arithmetic K]

/-- The names of columns that were given none. -/
def columnNames (n : Nat) : Value K :=
  .list ((List.range n).map fun j => .text s!"x{j}")

namespace ArrayProblem

/-- The entries of row limits, which are one row. -/
def limits (t : Tensor K) : Except Fault (List K) :=
  match t.toList? with
  | some xs => .ok xs
  | none => .error .malformed

/-- A problem from its arrays.  The bounds must be as long as the objective and fit each other, and
the row limits must be as long as the matrix. -/
def ofValues (matrix rowLower rowUpper lower upper cost integrality : Value K) :
    Except Fault (ArrayProblem K) := do
  let c ← cost.toNumbers
  let l ← lower.toNumbers
  let u ← upper.toNumbers
  if l.length ≠ c.length || u.length ≠ c.length then throw (.boundLengths c.length)
  let kinds ← match integrality with
    | .none => pure (.ofList (List.replicate c.length 0))
    | v => v.toIntegers
  let rows ← matrix.toMatrix
  let al ← rowLower.toNumbers
  let au ← rowUpper.toNumbers
  if al.length ≠ rows.length || au.length ≠ rows.length then throw (.rowLengths rows.length)
  let al ← limits al
  let au ← limits au
  match l.together u with
  | some (l, u) => return ⟨rows, al, au, l, u, c, kinds⟩
  | none => throw .malformed

/-- A problem from the arrays of a model. -/
def ofStandardForm (s : StandardForm K) : ArrayProblem K :=
  { matrix := s.matrix, rowLower := s.rowLower, rowUpper := s.rowUpper
    lower := .ofList s.lower, upper := .ofList s.upper, cost := .ofList s.cost
    integrality := .ofList (s.integrality.map fun b => if b then 1 else 0) }

end ArrayProblem

namespace Ask

/-- The statuses by their numbers. -/
def numberedStatuses : List (Value K × Value K) :=
  [(.int 0, .text "optimal"), (.int 1, .text "timelimit"), (.int 2, .text "infeasible"),
   (.int 3, .text "unbounded")]

/-- The status that the number of an engine's status stands for. -/
def statusOfNumber (n : Value K) : Except Fault String :=
  if !n.isKey then .error .unsupportedOperand
  else .ok (((Value.lookup? n numberedStatuses).bind Value.text?).getD "unknown")

/-- Solves a problem from its arrays. -/
def solveArrays (p : ArrayProblem K) (names : Value K) (given : Except Fault (Settings K)) :
    Ask K (Outcome K) := do
  let s ← given
  let options ← s.arrayOptions
  record (.arrays p options)
  let r := (← get).arrayReply
  let status ← statusOfNumber r.status
  let o : Outcome K :=
    { Outcome.plain (.text status) .none .none with gap := r.gap, nodeCount := r.nodes }
  if r.point.isPresent && solutionStatuses.contains status then
    let objective ← r.objective.toNumber
    let solution ← valuesByName (← names.pairs r.point)
    return { o with objective := .real objective, solution := solution }
  else return o

end Ask

end MixedInteger
