import MixedInteger.Proofs.Reformulation.Operands

/-!
# Switched constraints are exact

A constant that is derived from the bounds of an expression is as large as it has to be: the rows of a
switched constraint say what the constraint says where it is switched on, and nothing elsewhere.

## What is here

* `Constraint.excess` — by how much one half of a constraint is violated.
* `Constraint.switchedRows_iff` — what the rows of a switched constraint say, for any constants.
* `Constraint.switchedRows_exact` — the same for constants that are derived.
* `Model.indicator_isExpressed` and its kin — that this is what the calls mean.
-/

set_option autoImplicit false

namespace MixedInteger

open Arithmetic

variable {F : Type} [Field F] [LinearOrder F] [FloorRing F] [ToString F] [Extended.Tolerance F]
  [IsStrictOrderedRing F]

/-- One where a switched constraint is off, and zero where it is on. -/
def Variable.off (a : Assignment F) (active : Bool) (delta : Variable (Extended F)) : F :=
  if active then 1 - a delta.id else a delta.id

namespace Variable

variable {a : Assignment F} {delta : Variable (Extended F)}

omit [LinearOrder F] [FloorRing F] [ToString F] [Extended.Tolerance F] [IsStrictOrderedRing F] in
theorem off_eq_zero_iff (active : Bool) :
    delta.off a active = 0 ↔ a delta.id = if active then 1 else 0 := by
  cases active with
  | false => rfl
  | true => exact sub_eq_zero.trans eq_comm

omit [LinearOrder F] [FloorRing F] [ToString F] [Extended.Tolerance F] [IsStrictOrderedRing F] in
theorem off_eq_zero_or (hd : a delta.id = 0 ∨ a delta.id = 1) (active : Bool) :
    delta.off a active = 0 ∨ delta.off a active = 1 := by
  cases active with
  | false => exact hd
  | true => rcases hd with h | h <;> simp [off, h]

end Variable

/-! ## Rows -/

/-- By how much one half of a constraint is violated. -/
def Constraint.excess (c : Constraint (Extended F)) (a : Assignment F) : Relation → F
  | .le => c.expr.eval a - c.rhs.number
  | _ => c.rhs.number - c.expr.eval a

namespace Constraint

section Excess

variable {c : Constraint (Extended F)} {a : Assignment F} {k : Relation → F} {o : F}

omit [FloorRing F] [ToString F] [Extended.Tolerance F] in
/-- A constraint holds if none of its halves is violated. -/
theorem says_iff_excess : c.Says a ↔ ∀ r ∈ c.relation.halves, c.excess a r ≤ 0 := by
  rw [Says]
  cases c.relation with
  | le => simp [Relation.halves, Relation.Holds, excess]
  | ge => simp [Relation.halves, Relation.Holds, excess]
  | eq => simp [Relation.halves, Relation.Holds, excess, le_antisymm_iff]

omit [FloorRing F] [ToString F] [Extended.Tolerance F] [IsStrictOrderedRing F] [LinearOrder F] in
theorem excess_congr {b : Assignment F} (h : c.expr.eval b = c.expr.eval a) :
    c.excess b = c.excess a := by
  funext r
  cases r <;> simp only [excess, h]

omit [FloorRing F] [ToString F] [Extended.Tolerance F] in
/-- Halves that may be violated by enough say something only where the number `o` is zero. -/
theorem forall_excess_iff (ho : o = 0 ∨ o = 1)
    (hk : ∀ r ∈ c.relation.halves, c.excess a r ≤ k r) :
    (∀ r ∈ c.relation.halves, c.excess a r ≤ k r * o) ↔ (o = 0 → c.Says a) := by
  rw [says_iff_excess]
  rcases ho with rfl | rfl
  · simp
  · exact iff_of_true (fun r hr => (hk r hr).trans_eq (mul_one _).symm) fun h => absurd h one_ne_zero

/-- **Derived constants are as large as they have to be.** -/
theorem exists_relaxation {b : F} (hb : c.rhs = .finite b)
    (hf : c.expr.interval.isFinite = true) : ∃ k : Relation → F,
      (∀ r, c.relaxation c.expr.interval r = .finite (k r)) ∧
      ∀ a, c.expr.interval.Contains (c.expr.eval a) → ∀ r, c.excess a r ≤ k r := by
  obtain ⟨l, u, hlu⟩ := Interval.exists_of_isFinite hf
  refine ⟨fun r => (c.relaxation c.expr.interval r).number, fun r => ?_, fun a ha r => ?_⟩
  · cases r <;> simp [relaxation, hb, hlu]
  · rw [hlu, Interval.contains_finite] at ha
    cases r with
    | le => simp [relaxation, excess, hb, hlu, ha.2]
    | ge | eq =>
      have h : b - c.expr.eval a ≤ max (b - l) 0 := le_max_of_le_left (sub_le_sub_left ha.1 b)
      simpa [relaxation, excess, hb, hlu] using h

end Excess

variable [Extended.Tolerance.IsZero F] {a : Assignment F} {delta : Variable (Extended F)}
  {c : Constraint (Extended F)} {b : F}

/-- A half that is switched on must not be violated, and one that is off by its constant at most. -/
theorem holds_switchedRow [c.expr.IsFinite] (hb : c.rhs = .finite b) (active : Bool) (r : Relation)
    (k : F) : (c.switchedRow delta active (r, .finite k)).holds a.lift = true ↔
      c.excess a r ≤ k * delta.off a active := by
  cases r <;> cases active <;> simp [switchedRow, hb, Variable.off, excess] <;> constructor <;>
    intro h <;> linarith

theorem switchedRows_iff [c.expr.IsFinite] (hb : c.rhs = .finite b) (active : Bool)
    (k : Relation → F) :
    (∀ row ∈ c.switchedRows delta active (c.relation.halves.map fun r => (r, .finite (k r))),
      row.holds a.lift = true) ↔
    ∀ r ∈ c.relation.halves, c.excess a r ≤ k r * delta.off a active := by
  rw [switchedRows, List.map_map, List.forall_mem_map]
  exact forall₂_congr fun r _ => holds_switchedRow hb active r (k r)

/-- **A switched constraint is exact**, with constants derived from the bounds of its expression. -/
theorem switchedRows_exact [c.expr.IsFinite] (hb : c.rhs = .finite b) {context : String}
    {halves : List (Relation × Extended F)} (hh : c.halves context none = .ok halves)
    (hi : c.expr.interval.Contains (c.expr.eval a)) (hd : a delta.id = 0 ∨ a delta.id = 1)
    (active : Bool) : (∀ row ∈ c.switchedRows delta active halves, row.holds a.lift = true) ↔
      (a delta.id = (if active then 1 else 0) → c.Says a) := by
  obtain ⟨i, hi', hh⟩ := bind_eq_ok.1 hh
  cases hh
  obtain ⟨rfl, l, u, hlu⟩ := LinearExpr.exists_of_finiteInterval hi'
  obtain ⟨k, hk, hreach⟩ := exists_relaxation hb (by rw [hlu]; rfl)
  simp only [hk]
  rw [switchedRows_iff hb, ← Variable.off_eq_zero_iff]
  exact forall_excess_iff (Variable.off_eq_zero_or hd active) fun r _ => hreach a hi r

end Constraint

/-! ## What the calls mean -/

section Reading

omit [LinearOrder F] [FloorRing F] [ToString F] [Extended.Tolerance F] [Field F]
  [IsStrictOrderedRing F] in
/-- Only a number is the same key as an integer. -/
theorem Value.sameKey_int [Arithmetic (Extended F)] {x : Value (Extended F)} {n : Int}
    (h : x.sameKey (.int n) = true) : ∃ s, x = .scalar s := by
  cases x with
  | scalar s => exact ⟨s, rfl⟩
  | constraint c i =>
    rw [int, sameKey] at h
    · cases h
    all_goals simp
  | _ => simp [int, sameKey] at h

omit [IsStrictOrderedRing F] in
theorem Value.eval_of_isEqual_int {x : Value (Extended F)} (hx : x.IsExact) {n : Int}
    (h : x.isEqual (.int n) = .ok true) (a : Assignment F) : x.eval a = n := by
  cases x with
  | scalar s =>
    have heq : s.eq (.integer n) = true := by simpa [isEqual, compare?, linear?, int] using h
    exact (Scalar.eq_iff (t := .integer n) hx trivial).1 heq
  | var v =>
    simp only [isEqual, compare?, linear?] at h
    obtain ⟨_, -, ⟨⟩⟩ := bind_eq_ok.1 h
  | expr e =>
    simp only [isEqual, compare?, linear?] at h
    obtain ⟨_, -, ⟨⟩⟩ := bind_eq_ok.1 h
  | none | text | domain | direction | relation | sequence | table | constraint | handle =>
    obtain ⟨s, ⟨⟩⟩ := sameKey_int (Except.ok.inj h)

omit [IsStrictOrderedRing F] in
/-- The value under which a constraint is on is zero or one. -/
theorem Build.eval_of_toActive {x : Value (Extended F)} (hx : x.IsExact) {on : Bool}
    (h : toActive x = .ok on) (a : Assignment F) : x.eval a = if on then 1 else 0 := by
  obtain ⟨b, hb, h⟩ := bind_eq_ok.1 h
  cases b with
  | true =>
    cases h
    exact (Value.eval_of_isEqual_int hx hb a).trans Int.cast_zero
  | false =>
    obtain ⟨b, hb, h⟩ := bind_eq_ok.1 h
    cases b with
    | true =>
      cases h
      exact (Value.eval_of_isEqual_int hx hb a).trans Int.cast_one
    | false => obtain ⟨_, -, ⟨⟩⟩ := bind_eq_ok.1 h

end Reading

namespace Model

variable [Extended.Tolerance.IsZero F] {m n : Model (Extended F)} {answer : Value (Extended F)}

theorem cardinality_isExpressed {r : Relation} {bound : Value (Extended F)}
    {args : List (Value (Extended F))} (hm : m.WellFormed)
    (hc : (Call.cardinality r bound args).IsOver m.vars)
    (he : (Call.cardinality r bound args).Effect m n answer) :
    (Call.cardinality r bound args).IsExpressed m n answer := by
  obtain ⟨s, vs, k, rfl, hvs, hk, -, hg⟩ := he
  obtain ⟨hops, -⟩ := Value.operands_of_toBinaries hvs
  obtain rfl := (hc.exact_arg (x := .scalar s) (by simp [Call.arguments])).toNumber hk
  refine hg.expresses_iff hm _ fun a _ => ?_
  have hrow : (⟨LinearExpr.total vs, r, .finite s.number, .none⟩ :
      Constraint (Extended F)).holds a.lift = true ↔
      r.Holds ((vs.map fun v => a v.id).sum) s.number := by
    cases r with
    | le => exact (holds_atMost a _).trans (by rw [LinearExpr.eval_total]; rfl)
    | ge => exact (holds_atLeast a _).trans (by rw [LinearExpr.eval_total]; rfl)
    | eq => exact (holds_exactly a _).trans (by rw [LinearExpr.eval_total]; rfl)
  rw [List.forall_mem_singleton, hrow, Call.Meaning, hops, List.map_map]
  exact and_iff_right fun v hv => absurd hv List.not_mem_nil

theorem indicator_isExpressed {delta constraint active bigM : Value (Extended F)}
    (hm : m.WellFormed) (hc : (Call.indicator delta constraint active bigM).IsOver m.vars)
    (he : (Call.indicator delta constraint active bigM).Effect m n answer) :
    (Call.indicator delta constraint active bigM).IsExpressed m n answer := by
  obtain ⟨v, on, c, k, halves, hv, hon, hcon, hk, hh, -, hg⟩ := he
  obtain rfl : bigM = .none := hc.bigM
  cases hk
  obtain ⟨rfl, hb⟩ := Value.toBinary_eq_ok hv
  obtain ⟨i, rfl⟩ := Value.toConstraint_eq_ok hcon
  have hactive := Build.eval_of_toActive (hc.exact_arg (x := active) (by simp [Call.arguments])) hon
  obtain ⟨hfinite, -, hrhs, hvars⟩ :=
    (hc.exact_arg (x := .constraint c i) (by simp [Call.arguments])).toConstraint hcon
  refine hg.expresses_iff hm _ fun a ha => ?_
  have hd := ha.argument hm hc (v := v) (by simp [Call.arguments]) hb
  have hi := ha.interval_contains c.expr fun w hw =>
    hc.has (x := .constraint c i) (by simp [Call.arguments]) (hvars ▸ hw)
  rw [Constraint.switchedRows_exact hrhs hh hi hd, ← hactive a]
  exact and_iff_right fun v hv => absurd hv List.not_mem_nil

theorem eitherOr_isExpressed {first second bigM : Value (Extended F)} (hm : m.WellFormed)
    (hc : (Call.eitherOr first second bigM).IsOver m.vars)
    (he : (Call.eitherOr first second bigM).Effect m n answer) :
    (Call.eitherOr first second bigM).IsExpressed m n answer := by
  obtain ⟨c, d, k, hs, ht, delta, hc₁, hc₂, hk, hh₁, hh₂, rfl, hdelta, hg⟩ := he
  obtain rfl : bigM = .none := hc.bigM
  cases hk
  obtain ⟨i, rfl⟩ := Value.toConstraint_eq_ok hc₁
  obtain ⟨j, rfl⟩ := Value.toConstraint_eq_ok hc₂
  obtain ⟨hfinite, -, hrhs, hvars⟩ :=
    (hc.exact_arg (x := .constraint c i) (by simp [Call.arguments])).toConstraint hc₁
  obtain ⟨hfinite', -, hrhs', hvars'⟩ :=
    (hc.exact_arg (x := .constraint d j) (by simp [Call.arguments])).toConstraint hc₂
  refine hg.expresses_iff hm _ fun a ha => ?_
  have hi := ha.interval_contains c.expr fun w hw =>
    hc.has (x := .constraint c i) (by simp [Call.arguments]) (hvars ▸ hw)
  have hj := ha.interval_contains d.expr fun w hw =>
    hc.has (x := .constraint d j) (by simp [Call.arguments]) (hvars' ▸ hw)
  rw [List.forall_mem_singleton, List.forall_mem_append, hdelta.allows_binary]
  have hrows : ∀ hd : a delta.id = 0 ∨ a delta.id = 1,
      ((∀ row ∈ c.switchedRows delta false hs, row.holds a.lift = true) ∧
        ∀ row ∈ d.switchedRows delta true ht, row.holds a.lift = true) ↔
      (a delta.id = 0 → c.Says a) ∧ (a delta.id = 1 → d.Says a) := fun hd =>
    and_congr (Constraint.switchedRows_exact hrhs hh₁ hi hd false)
      (Constraint.switchedRows_exact hrhs' hh₂ hj hd true)
  rw [and_congr_right hrows]
  simp only [Call.Meaning, Value.handedOver, Value.Says, List.map_cons, List.map_nil,
    List.cons.injEq, and_true]
  constructor
  · rintro ⟨hd | hd, hfirst, hsecond⟩
    · exact .inl ⟨hd, hfirst hd⟩
    · exact .inr ⟨hd, hsecond hd⟩
  · rintro (⟨hd, h⟩ | ⟨hd, h⟩)
    · exact ⟨.inl hd, fun _ => h, fun hone => by simp [hd] at hone⟩
    · exact ⟨.inr hd, fun hzero => by simp [hd] at hzero, fun _ => h⟩

end Model

end MixedInteger
