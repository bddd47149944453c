import MixedInteger.Proofs.Linear.Tightness
import MixedInteger.Proofs.Reformulation.Premises

/-!
# Ordinary operands

Reformulations are made for finite numbers, for variables whose bounds are infinite on their own side
only, and for expressions over such variables.  Each of them is read as an expression, and it has a
text, so that a message about it can be written.  The bounds of such an expression are numbers and
never cross, which is why the variables that get bounds from them can be created.

## What is here

* `Variable.IsOrdinary`, `LinearExpr.IsOrdinary`, `Value.IsOrdinary` — these operands.
* `LinearExpr.IsOrdinary.isProper_interval` — the bounds of an expression are numbers and in order.
* `Value.IsOrdinary.exists_shown` — every operand has a text.
* `Value.IsOrdinary.exists_expr` — every operand is read as an expression with the same bounds.
-/

set_option autoImplicit false

namespace MixedInteger

open Arithmetic Extended

variable {F : Type} [Field F] [LinearOrder F] [FloorRing F] [ToString F] [Extended.Tolerance F]

/-- A variable with a text for a name, and with bounds that may be infinite on their own side. -/
structure Variable.IsOrdinary (v : Variable (Extended F)) : Prop where
  proper : v.IsProper
  lower_lt : Arithmetic.lt v.lower infinity = true
  upper_gt : Arithmetic.lt negInfinity v.upper = true
  exists_text : ∃ s, v.name = .text s

/-- An expression in finite numbers over such variables. -/
structure LinearExpr.IsOrdinary (e : LinearExpr (Extended F)) : Prop where
  isFinite : e.IsFinite
  isOver : e.IsOver Variable.IsOrdinary

namespace Value

/-- The value is a finite number. -/
def IsNumber (x : Value (Extended F)) : Prop := ∃ s, x = .scalar s ∧ (Value.scalar s).IsExact

/-- What reformulations are made for: a finite number, a variable or an expression. -/
def IsOrdinary : Value (Extended F) → Prop
  | .scalar s => (Value.scalar s).IsExact
  | .var v => v.IsOrdinary
  | .expr e => e.IsOrdinary
  | _ => False

/-- The value is a constraint on such an expression. -/
def IsOrdinaryConstraint (x : Value (Extended F)) : Prop :=
  ∃ c i, x = .constraint c i ∧ c.expr.IsOrdinary

end Value

/-! ## Texts -/

section Texts

variable {K : Type} [Arithmetic K]

namespace Value

/-- Terms whose variables have texts for names all have texts. -/
theorem exists_renderTerms {ts : Terms K} (h : ∀ t ∈ ts, ∃ s, t.1.name = .text s) :
    ∃ parts, renderTerms ts = .ok parts ∧ ∀ p ∈ parts, p.isSome = true := by
  induction ts with
  | nil => exact ⟨[], rfl, fun _ hp => absurd hp List.not_mem_nil⟩
  | cons t ts ih =>
    obtain ⟨⟨s, hs⟩, hts⟩ := List.forall_mem_cons.1 h
    obtain ⟨parts, hparts, hsome⟩ := ih hts
    obtain ⟨⟨i, name, d, l, u⟩, c⟩ := t
    obtain rfl : name = .text s := hs
    have hpart : ∃ part, renderTerms ((⟨i, .text s, d, l, u⟩, c) :: ts) = .ok (some part :: parts) := by
      rw [renderTerms, hparts]
      cases eq c one with
      | true => exact ⟨s, rfl⟩
      | false =>
        cases eq c (-one) with
        | true => exact ⟨"-" ++ s, rfl⟩
        | false => exact ⟨Arithmetic.text c ++ "*" ++ s, rfl⟩
    obtain ⟨part, hpart⟩ := hpart
    exact ⟨_, hpart, List.forall_mem_cons.2 ⟨rfl, hsome⟩⟩

omit [Arithmetic K] in
/-- Texts can be joined to a sum. -/
theorem exists_joinParts {parts : List (Option String)} (h : ∀ p ∈ parts, p.isSome = true) :
    ∃ s, joinParts parts = .ok s := by
  have hjoin : ∀ (parts : List (Option String)) (acc : String), (∀ p ∈ parts, p.isSome = true) →
      ∃ s, joinParts (some acc :: parts) = .ok s := by
    intro parts
    induction parts with
    | nil => exact fun acc _ => ⟨acc, rfl⟩
    | cons p parts ih =>
      intro acc h
      obtain ⟨hp, hparts⟩ := List.forall_mem_cons.1 h
      obtain ⟨s, rfl⟩ := Option.isSome_iff_exists.1 hp
      exact ih (acc ++ joinText s) hparts
  cases parts with
  | nil => exact ⟨"0", rfl⟩
  | cons p parts =>
    obtain ⟨hp, hparts⟩ := List.forall_mem_cons.1 h
    obtain ⟨s, rfl⟩ := Option.isSome_iff_exists.1 hp
    exact hjoin parts s hparts

/-- An expression whose variables have texts for names has a text. -/
theorem exists_renderExpr {e : LinearExpr K} (h : ∀ t ∈ e.terms, ∃ s, t.1.name = .text s) :
    ∃ s, renderExpr e = .ok s := by
  obtain ⟨ts, c⟩ := e
  obtain ⟨parts, hparts, hsome⟩ := exists_renderTerms h
  rw [renderExpr, hparts]
  refine exists_joinParts (List.forall_mem_append.2 ⟨hsome, ?_⟩)
  cases eq c zero with
  | true => exact fun _ hp => absurd hp List.not_mem_nil
  | false => exact List.forall_mem_singleton.2 rfl

end Value

end Texts

namespace Value

/-- **Every operand has a text.** -/
theorem IsOrdinary.exists_shown {x : Value (Extended F)} (hx : x.IsOrdinary) :
    ∃ s, x.shown = .ok s := by
  cases x with
  | scalar s => exact ⟨s.text, rfl⟩
  | var v =>
    obtain ⟨s, hs⟩ := Variable.IsOrdinary.exists_text hx
    obtain ⟨i, name, d, l, u⟩ := v
    obtain rfl : name = .text s := hs
    exact ⟨_, rfl⟩
  | expr e =>
    exact exists_renderExpr fun t ht => ((LinearExpr.IsOrdinary.isOver hx).vars t ht).exists_text
  | _ => exact hx.elim

end Value

/-! ## Bounds -/

variable [IsStrictOrderedRing F]

/-- **The bounds of an expression are numbers and in order.** -/
theorem LinearExpr.IsOrdinary.isProper_interval {e : LinearExpr (Extended F)} (he : e.IsOrdinary) :
    e.interval.isProper = true := by
  have := he.isFinite
  have hproper : e.IsProper :=
    ⟨he.isOver.nodup, fun t ht => (he.isOver.vars t ht).proper, he.isOver.kept⟩
  -- Each variable has a value, so that the bounds of the expression are those of some value too.
  have hbox : ∀ v ∈ e.vars, ∃ x, v.interval.Contains x := by
    refine List.forall_mem_map.2 fun t ht => ?_
    have hv := he.isOver.vars t ht
    exact Interval.exists_contains hv.proper.interval hv.lower_lt hv.upper_gt
  exact (spans_interval hproper hbox).isProper

namespace Value

/-- **Every operand is read as an expression** with the same bounds. -/
theorem IsOrdinary.exists_expr (ht : (Tolerance.tolerance : F) < 1) {x : Value (Extended F)}
    (hx : x.IsOrdinary) :
    ∃ e, x.toExpr = .ok e ∧ x.intervalOf = .ok e.interval ∧ e.IsOrdinary := by
  cases x with
  | scalar s =>
    have hs : (Value.scalar s).IsExact := hx
    refine ⟨.ofConstant (.finite s.number), ?_, ?_, ⟨Terms.isFinite_nil, _, rfl⟩,
      LinearExpr.isOver_ofConstant _⟩
    · rw [toExpr, hs.toNumber_eq_ok]
      rfl
    · rw [intervalOf, hs.toNumber_eq_ok]
      rfl
  | var v =>
    refine ⟨.ofVariable v, rfl, ?_, inferInstance, LinearExpr.isOver_ofVariable hx⟩
    rw [LinearExpr.interval_ofVariable_of_lt ht]
    rfl
  | expr e => exact ⟨e, rfl, rfl, hx⟩
  | _ => exact hx.elim

end Value

end MixedInteger
