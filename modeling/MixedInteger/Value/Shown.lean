import MixedInteger.Text.Quoted
import MixedInteger.Value.Basic

/-!
# The texts of a value

A value has two texts: its shown form, in which a text stands in quotes, and its plain form, in
which a text stands for itself.  What a value contains is shown, but names stay plain.  A value
that contains a reference has the text of what the reference led to, so that writing it may fail.

## What is here

* `Value.shown`, `Value.display`: the two texts.
* `Value.joinParts`: the text of a sum from the texts of its parts.
* `Value.label`: the text of a name in a document.
-/

set_option autoImplicit false

namespace MixedInteger

namespace Value

variable {K : Type}

/-- Parts of a shown value, separated by commas. -/
def commaSeparated (parts : List String) : String := String.intercalate ", " parts

/-- A shown sequence, given its shown items. -/
def shownSequence (shape : Shape) (items : List String) : String :=
  match shape, items with
  | .tuple, [x] => "(" ++ x ++ ",)"
  | .tuple, xs => "(" ++ commaSeparated xs ++ ")"
  | .bounds, [x, y] => "Bounds(lb=" ++ x ++ ", ub=" ++ y ++ ")"
  | .division, [x, y] => "DivMod(quotient=" ++ x ++ ", remainder=" ++ y ++ ")"
  | .array, xs | .matrix, xs => "array([" ++ commaSeparated xs ++ "])"
  | _, xs => "[" ++ commaSeparated xs ++ "]"

/-- The text of an enumerated value. -/
def memberText (quoting : Bool) (v : Value K) (tag : String) : String :=
  let name := v.kindName ++ "." ++ v.memberName
  if quoting then "<" ++ name ++ ": " ++ quoted tag ++ ">" else name

/-- A part of a sum after the first, joined by its sign. -/
def joinText (s : String) : String :=
  match s.toList with
  | '-' :: rest => " - " ++ String.ofList rest
  | _ => " + " ++ s

/-- Parts of a sum as one text.  A part without a text is a name that is no text and stands on its
own; such a name cannot be joined to anything. -/
def joinParts : List (Option String) → Except Fault String
  | [] => .ok "0"
  | some first :: rest => rest.foldlM (fun acc part =>
      match part with
      | some s => .ok (acc ++ joinText s)
      | Option.none => .error .missingProperty) first
  | Option.none :: Option.none :: _ => .error .missingProperty
  | Option.none :: _ => .error .unsupportedOperand

variable [Arithmetic K]

open Arithmetic

mutual

/-- The text of a value, in which a text stands in quotes if `quoting`. -/
def render (quoting : Bool) : Value K → Except Fault String
  | none => .ok "None"
  | scalar s => .ok s.text
  | text s => .ok (if quoting then quoted s else s)
  | v@(domain d) => .ok (memberText quoting v d.tag)
  | v@(direction d) => .ok (memberText quoting v d.tag)
  | v@(relation r) => .ok (memberText quoting v r.tag)
  | sequence shape items => do return shownSequence shape (← renderAll items)
  | table entries _ => do return "\x7b" ++ commaSeparated (← renderEntries entries) ++ "\x7d"
  | var v => renderVariable v
  | expr e => renderExpr e
  | constraint c _ => renderConstraint c
  | handle _ p => if quoting then p.shown else p.display

/-- The shown forms of several values. -/
def renderAll : List (Value K) → Except Fault (List String)
  | [] => .ok []
  | v :: vs => do
    let s ← render true v
    return s :: (← renderAll vs)

/-- The shown forms of the entries of a table. -/
def renderEntries : List (Value K × Value K) → Except Fault (List String)
  | [] => .ok []
  | (k, v) :: rest => do
    let key ← render true k
    let s ← render true v
    return (key ++ ": " ++ s) :: (← renderEntries rest)

/-- The text of a variable. -/
def renderVariable : Variable K → Except Fault String
  | ⟨_, name, _, _, _⟩ => do return "Variable(" ++ (← render false name) ++ ")"

/-- The texts of the terms of a sum; there is none for a name that is no text and has no
coefficient in front of it. -/
def renderTerms : List (Variable K × K) → Except Fault (List (Option String))
  | [] => .ok []
  | (⟨_, name, _, _, _⟩, c) :: rest => do
    let part ←
      if eq c one then pure name.text?
      else if eq c (-one) then do pure (some ("-" ++ (← render false name)))
      else do pure (some (Arithmetic.text c ++ "*" ++ (← render false name)))
    return part :: (← renderTerms rest)

/-- The text of an expression. -/
def renderExpr : LinearExpr K → Except Fault String
  | ⟨terms, constant⟩ => do
    let parts ← renderTerms terms
    joinParts (parts ++ if eq constant zero then [] else [some (Arithmetic.text constant)])

/-- The text of a constraint. -/
def renderConstraint : Constraint K → Except Fault String
  | ⟨e, r, rhs, name⟩ => do
    let sum ← renderExpr e
    let name ← render false name
    return "Constraint(" ++ sum ++ " " ++ r.tag ++ " " ++ Arithmetic.text rhs ++ ", name=" ++
      name ++ ")"

end

/-- The shown form of a value, in which a text stands in quotes. -/
def shown (v : Value K) : Except Fault String := v.render true

/-- The text of a value, in which a text stands for itself. -/
def display (v : Value K) : Except Fault String := v.render false

/-- The text of a name in a document; a name without a text is left out. -/
def label (v : Value K) : String :=
  match v.display with
  | .ok s => s
  | .error _ => ""

theorem display_text (s : String) : (text s : Value K).display = .ok s := by
  simp [display, render]

theorem label_text (s : String) : (text s : Value K).label = s := by
  simp [label, display_text]

end Value

end MixedInteger
