import MixedInteger.Proofs.Model.WellFormed
import MixedInteger.Model.Call

/-!
# Arguments of calls

A caller can hand over only variables that exist and expressions that were made from them.  This
file says so, and that whatever a call reads from such arguments is well-formed.

## What is here

* `Value.WellFormed`, `Value.Admissible` — a value, and a value with the ones that it runs through.
* `Model.Call.Admissible` — a call with arguments that a caller can hand over.
* `Value.Admissible.elements`, `Value.wellFormed_of_toExpr` and their kin — what is read is
  well-formed.
-/

set_option autoImplicit false

namespace MixedInteger

variable {K : Type}

namespace Value

/-- The variables and expressions that a value is made of, if it is one, are well-formed. -/
def WellFormed (m : Model K) : Value K → Prop
  | .var v => m.Knows v
  | .expr e => e.WellFormed m
  | .constraint c _ => c.expr.WellFormed m
  | _ => True

/-- The values that a value runs through, or else itself. -/
def parts : Value K → List (Value K)
  | .sequence _ items => items
  | .table entries _ => entries.map Prod.fst
  | v => [v]

/-- A value that a caller can hand over. -/
def Admissible (m : Model K) (v : Value K) : Prop := ∀ p ∈ v.parts, p.WellFormed m

end Value

namespace Model.Call

/-- The arguments of a call. -/
def arguments : Call K → List (Value K)
  | .addVariable domain lower upper name => [domain, lower, upper, name]
  | .addVariables count domain lower upper stem => [count, domain, lower, upper, stem]
  | .addConstraint constraint name => [constraint, name]
  | .setObjective expr direction => [expr, direction]
  | .conjunction operands | .disjunction operands => operands
  | .negation x => [x]
  | .exclusive x y encoding => [x, y, encoding]
  | .implication x y => [x, y]
  | .cardinality _ bound operands => bound :: operands
  | .indicator delta constraint active bigM => [delta, constraint, active, bigM]
  | .eitherOr first second bigM => [first, second, bigM]
  | .magnitude expr bigM => [expr, bigM]
  | .maximum exprs bigM | .minimum exprs bigM => [exprs, bigM]
  | .product x y bigM => [x, y, bigM]
  | .semiContinuous lower upper name => [lower, upper, name]
  | .divide expr divisor => [expr, divisor]
  | .reify constraint bigM margin => [constraint, bigM, margin]

/-- A call with arguments that a caller can hand over. -/
def Admissible (m : Model K) (c : Call K) : Prop := ∀ v ∈ c.arguments, v.Admissible m

/-- A variable can be asked for under any name and in any bounds. -/
theorem admissible_addVariable (m : Model K) (d : Domain) (l u : K) (s : String) :
    (addVariable (.domain d) (.real l) (.real u) (.text s)).Admissible m := by
  simp [Admissible, arguments, Value.Admissible, Value.parts, Value.WellFormed, Value.real]

end Model.Call

namespace Value

variable {m : Model K}

theorem Admissible.wellFormed {v : Value K} (h : v.Admissible m) : v.WellFormed m := by
  cases v with
  | sequence | table => trivial
  | _ => exact h _ List.mem_cons_self

/-- Operands that a caller can hand over, one by one or in a list. -/
theorem wellFormed_of_mem_operands {args : List (Value K)} (h : ∀ v ∈ args, v.Admissible m)
    {p : Value K} (hp : p ∈ operands args) : p.WellFormed m := by
  unfold operands at hp
  split at hp
  · exact h _ List.mem_cons_self p hp
  · exact h _ List.mem_cons_self p hp
  · exact (h p hp).wellFormed

variable [Arithmetic K]

/-! ## Reading -/

theorem toBinary_eq_ok {context : String} {x : Value K} {v : Variable K}
    (h : x.toBinary context = .ok v) : x = .var v ∧ v.isBinary = true := by
  cases x with
  | var w =>
    rw [toBinary] at h
    split at h
    next hb =>
      cases h
      exact ⟨rfl, hb⟩
    next => obtain ⟨_, -, ⟨⟩⟩ := bind_eq_ok.1 h
  | _ => obtain ⟨_, -, ⟨⟩⟩ := bind_eq_ok.1 h

theorem knows_of_toBinary {context : String} {x : Value K} {v : Variable K} (hx : x.WellFormed m)
    (h : x.toBinary context = .ok v) : m.Knows v := by
  obtain ⟨rfl, -⟩ := toBinary_eq_ok h
  exact hx

theorem wellFormed_of_toExpr {x : Value K} {e : LinearExpr K} (hx : x.WellFormed m)
    (h : x.toExpr = .ok e) : e.WellFormed m := by
  cases x with
  | expr f =>
    cases h
    exact hx
  | var v =>
    cases h
    exact LinearExpr.wellFormed_ofVariable hx
  | scalar s =>
    obtain ⟨c, -, ⟨⟩⟩ := bind_eq_ok.1 h
    exact LinearExpr.wellFormed_ofConstant m c
  | _ => cases h

omit [Arithmetic K] in
theorem toConstraint_eq_ok {context : String} {x : Value K} {c : Constraint K}
    (h : x.toConstraint context = .ok c) : ∃ i, x = .constraint c i := by
  cases x with
  | constraint d i =>
    cases h
    exact ⟨i, rfl⟩
  | _ => cases h

omit [Arithmetic K] in
theorem wellFormed_of_toConstraint {context : String} {x : Value K} {c : Constraint K}
    (hx : x.WellFormed m) (h : x.toConstraint context = .ok c) : c.expr.WellFormed m := by
  obtain ⟨i, rfl⟩ := toConstraint_eq_ok h
  exact hx

omit [Arithmetic K] in
/-- **What a value runs through is well-formed.** -/
theorem Admissible.elements {x : Value K} (hx : x.Admissible m) {vs : List (Value K)}
    (h : x.elements = .ok vs) : ∀ v ∈ vs, v.WellFormed m := by
  cases x with
  | sequence shape items =>
    cases h
    exact hx
  | table entries id =>
    cases h
    exact hx
  | text s =>
    cases h
    intro v hv
    obtain ⟨c, -, rfl⟩ := List.mem_map.1 hv
    trivial
  | handle a p => cases a <;> cases h
  | _ => cases h

end Value

end MixedInteger
