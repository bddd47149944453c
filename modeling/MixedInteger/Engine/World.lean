import MixedInteger.Engine.Outcome
import MixedInteger.Number.Tensor
import MixedInteger.Text.LowerCase

/-!
# Engines and files

The engines that solve problems are not part of this library: what they answer is given, and what
they were asked is recorded.

## What is here

* `Reply`, `ArrayReply`: what the two engines answer.
* `Event`: one request to an engine.
* `World`, `Ask`: the state around the engines, and the steps that change it.
* `Path.normal`, `Path.suffix?`: names of files.
* `World.putFile`, `World.makeTemporary`: files.
-/

set_option autoImplicit false

namespace MixedInteger

/-- How reading a problem file ends. -/
inductive ReadStatus where
  /-- The file was read. -/
  | ok
  /-- The file was read with a warning. -/
  | warning
  /-- The file could not be read. -/
  | error
  deriving DecidableEq, Repr

/-- What the engine that reads texts answers. -/
structure Reply (K : Type) where
  /-- The options that it rejects. -/
  rejected : List (Value K)
  /-- How reading a file ends. -/
  read : ReadStatus
  /-- The name of the status after a run. -/
  status : Value K
  /-- The time of a run. -/
  time : Value K
  /-- The number of nodes of a run. -/
  nodes : Value K
  /-- The relative gap after a run. -/
  gap : Value K
  /-- The status of the point that was found; two stands for a feasible one. -/
  primal : Value K
  /-- The objective value of the point. -/
  objective : Value K
  /-- The names of the columns. -/
  names : Value K
  /-- The values of the columns. -/
  values : Value K
  /-- Whether giving up its resources fails. -/
  clearFails : Bool
  /-- The reason for which the engine cannot be loaded, if it cannot. -/
  missing : Option String

/-- What the engine that takes arrays answers. -/
structure ArrayReply (K : Type) where
  /-- The number of the status. -/
  status : Value K
  /-- The point that was found, if any. -/
  point : Value K
  /-- The objective value of the point. -/
  objective : Value K
  /-- The relative gap, if it is reported. -/
  gap : Value K
  /-- The number of nodes, if it is reported. -/
  nodes : Value K

/-- A problem as arrays.  The row limits are one row each; the other arrays may be deeper. -/
structure ArrayProblem (K : Type) where
  /-- The rows of the matrix. -/
  matrix : List (List K)
  /-- The lower limits of the rows. -/
  rowLower : List K
  /-- The upper limits of the rows. -/
  rowUpper : List K
  /-- The lower bounds. -/
  lower : Tensor K
  /-- The upper bounds. -/
  upper : Tensor K
  /-- The coefficients of the objective. -/
  cost : Tensor K
  /-- The kinds of the columns; one stands for an integer column. -/
  integrality : Tensor Int

/-- One request to an engine.  Each loaded engine has a number. -/
inductive Event (K : Type) where
  /-- An option is set. -/
  | option (engine : Nat) (name value : Value K)
  /-- A file with the given content is read. -/
  | read (engine : Nat) (path content : String)
  /-- The problem is solved. -/
  | run (engine : Nat)
  /-- The engine is released. -/
  | clear (engine : Nat)
  /-- A problem is solved from arrays. -/
  | arrays (problem : ArrayProblem K) (options : List (String × Value K))

/-- The number of the engine that a request goes to. -/
def Event.engine? {K : Type} : Event K → Option Nat
  | option i _ _ | read i _ _ | run i | clear i => some i
  | arrays _ _ => none

/-- The state around the engines. -/
structure World (K : Type) where
  /-- What the engine that reads texts answers from now on. -/
  reply : Reply K
  /-- What the engine that takes arrays answers from now on. -/
  arrayReply : ArrayReply K
  /-- The files by their names. -/
  files : List (String × String)
  /-- The temporary files by their names, the last one made first.  They lie apart from all other
  files. -/
  temporaries : List (String × String)
  /-- For each engine that was loaded, whether it has been released. -/
  released : List Bool
  /-- The requests so far. -/
  trace : List (Event K)

/-- A step around the engines, which may fail. -/
abbrev Ask (K : Type) (α : Type) := ExceptT Fault (StateM (World K)) α

namespace Path

/-- The parts of a path, without those that lead nowhere. -/
def parts (path : String) : List String :=
  (path.splitOn "/").filter fun s => s ≠ "" && s ≠ "."

/-- A path in its shortest spelling. -/
def normal (path : String) : String :=
  let joined := String.intercalate "/" (parts path)
  if path.startsWith "/" then "/" ++ joined
  else if joined = "" then "." else joined

/-- Whether a path is too long to be looked up, as a whole or in its first part that is not a
directory around the files.  A path with a null character in it is never looked up. -/
def isTooLong (path : String) : Bool :=
  !path.contains '\x00' &&
    (4095 < (normal path).utf8ByteSize ||
      ((parts path).find? fun s => s != "..").any fun s => 255 < s.utf8ByteSize)

/-- The part of a file name from its last point on, unless the name starts or ends with it. -/
def suffix? (path : String) : Option String :=
  match (parts path).getLast? with
  | none => none
  | some name =>
    let cs := name.toList
    let tail := (cs.reverse.takeWhile fun c => c ≠ '.').reverse
    if tail.length + 1 < cs.length && 0 < tail.length then some (String.ofList tail) else none

end Path

/-- The text formats of problems. -/
def problemFormats : List String := ["lp", "mps"]

namespace World

variable {K : Type}

/-- Whether a path leads to a file, or to the directory of the files or one around it. -/
def hasPath (w : World K) (path : String) : Bool :=
  ((Path.parts path).all fun s => s == "..") || w.files.any fun f => f.1 == Path.normal path

/-- The content of a file. -/
def content (w : World K) (path : String) : String :=
  ((w.files.find? fun f => f.1 == path).map Prod.snd).getD ""

/-- The files with one more, in place of an older one of its name. -/
def putFile (w : World K) (path content : String) : World K :=
  { w with files := (path, content) :: w.files.filter fun f => f.1 != path }

/-- The files with one more temporary file. -/
def makeTemporary (w : World K) (path content : String) : World K :=
  { w with temporaries := (path, content) :: w.temporaries }

/-- The content of the temporary file that was made last. -/
def temporaryContent (w : World K) : String := (w.temporaries.head?.map Prod.snd).getD ""

/-- The files without the temporary file that was made last. -/
def removeTemporary (w : World K) : World K := { w with temporaries := w.temporaries.tail }

end World

end MixedInteger
