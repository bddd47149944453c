import MixedInteger.Proofs.Reformulation.Ordinary
import MixedInteger.Proofs.Reformulation.ProductCompletion

/-!
# Reasons to refuse a reformulation

A reformulation of ordinary operands that leaves its constants to be derived may be refused: an
operand is missing or not binary, an expression has an infinite bound, a number is not in range, a
name is in use.  To each of these reasons belongs a kind of faults.

## What is here

* `Model.Call.IsDocumented` — a reformulation of ordinary operands.
* `Model.Call.Refuses` — the reasons for which it is refused, in the order in which they are looked
  at.
* `Build.FailsWith`, `Build.FailsIf` — a step fails with a fault of a kind, and it does so exactly
  under a condition on the kind, with the rules by which such steps are put together.
-/

set_option autoImplicit false

namespace MixedInteger

open Arithmetic Extended

/-! ## Reasons -/

section Reasons

variable {F : Type} [Field F] [LinearOrder F] [FloorRing F] [ToString F] [Extended.Tolerance F]

namespace Value

/-- A bound of the operand is infinite. -/
def IsUnbounded (x : Value (Extended F)) : Prop := ∃ i, x.intervalOf = .ok i ∧ i.isFinite = false

/-- A bound of the expression of the constraint is infinite. -/
def IsUnboundedConstraint (x : Value (Extended F)) : Prop :=
  ∃ c i, x = .constraint c i ∧ c.expr.interval.isFinite = false

/-- Two numbers are the ends of a range: the first one is positive, and the second one is finite and
not below it. -/
def AreEnds (lower upper : Value (Extended F)) : Prop :=
  ∃ l u : F, lower.toNumber = .ok (.finite l) ∧ upper.toNumber = .ok (.finite u) ∧ 0 < l ∧ l ≤ u

/-- The value names an encoding of an exclusive or. -/
def IsEncoding (x : Value (Extended F)) : Prop := x = .text "constraints" ∨ x = .text "compact"

/-- The value is zero or one. -/
def IsBit (x : Value (Extended F)) : Prop := ∃ s, x = .scalar s ∧ (s.number = 0 ∨ s.number = 1)

/-- A number is a positive integer, and no truth value. -/
def IsDivisor (x : Value (Extended F)) : Prop :=
  ∃ s, x = .scalar s ∧ (∀ b, s ≠ .truth b) ∧ ∃ d : Int, 0 < d ∧ s.number = d

end Value

namespace Model.Call

/-- A reformulation of ordinary operands, which leaves its constants to be derived. -/
def IsDocumented : Model.Call (Extended F) → Prop
  | .conjunction args | .disjunction args => ∀ x ∈ Value.operands args, x.IsOrdinary
  | .negation x => x.IsOrdinary
  | .exclusive x y encoding => x.IsOrdinary ∧ y.IsOrdinary ∧ ∃ s, encoding = .text s
  | .implication x y => x.IsOrdinary ∧ y.IsOrdinary
  | .cardinality _ bound args => bound.IsNumber ∧ ∀ x ∈ Value.operands args, x.IsOrdinary
  | .indicator delta constraint active bigM =>
    delta.IsOrdinary ∧ constraint.IsOrdinaryConstraint ∧ active.IsNumber ∧ bigM = .none
  | .eitherOr first second bigM =>
    first.IsOrdinaryConstraint ∧ second.IsOrdinaryConstraint ∧ bigM = .none
  | .magnitude x bigM => x.IsOrdinary ∧ bigM = .none
  | .maximum exprs bigM | .minimum exprs bigM =>
    (∃ xs, exprs.elements = .ok xs ∧ ∀ x ∈ xs, x.IsOrdinary) ∧ bigM = .none
  | .product x y bigM => x.IsOrdinary ∧ y.IsOrdinary ∧ bigM = .none
  | .semiContinuous lower upper name =>
    (∃ s, lower = .scalar s) ∧ (∃ s, upper = .scalar s) ∧ (name = .none ∨ ∃ s, name = .text s)
  | .divide x divisor => x.IsOrdinary ∧ divisor.IsNumber
  | .reify constraint bigM margin =>
    constraint.IsOrdinaryConstraint ∧ bigM = .none ∧ margin = .none
  | _ => False

/-- The kinds of faults with which a reformulation is refused in a model.  Where two reasons apply,
the one that is looked at first counts. -/
def Refuses (m : Model (Extended F)) : Model.Call (Extended F) → Fault.Kind → Prop
  | .conjunction args, k | .disjunction args, k =>
    (Value.operands args = [] ∧ k = .invalidArity) ∨
      ((∃ x ∈ Value.operands args, x.isBinary = false) ∧ k = .invalidVariableKind)
  | .negation x, k => x.isBinary = false ∧ k = .invalidVariableKind
  | .exclusive x y encoding, k =>
    (¬encoding.IsEncoding ∧ k = .value) ∨
      (encoding.IsEncoding ∧ (x.isBinary = false ∨ y.isBinary = false) ∧ k = .invalidVariableKind)
  | .implication x y, k => (x.isBinary = false ∨ y.isBinary = false) ∧ k = .invalidVariableKind
  | .cardinality _ _ args, k =>
    (∃ x ∈ Value.operands args, x.isBinary = false) ∧ k = .invalidVariableKind
  | .indicator delta constraint active _, k =>
    (delta.isBinary = false ∧ k = .invalidVariableKind) ∨
      (delta.isBinary = true ∧ ¬active.IsBit ∧ k = .value) ∨
      (delta.isBinary = true ∧ active.IsBit ∧ constraint.IsUnboundedConstraint ∧
        k = .unboundedBigM)
  | .eitherOr first second _, k =>
    (first.IsUnboundedConstraint ∨ second.IsUnboundedConstraint) ∧ k = .unboundedBigM
  | .magnitude x _, k => x.IsUnbounded ∧ k = .unboundedBigM
  | .maximum exprs _, k | .minimum exprs _, k =>
    (exprs.elements = .ok [] ∧ k = .invalidArity) ∨
      (∃ xs, exprs.elements = .ok xs ∧ 2 ≤ xs.length ∧ (∃ x ∈ xs, x.IsUnbounded) ∧
        k = .unboundedBigM)
  | .product x y _, k =>
    (x.isBinary = false ∧ y.isBinary = false ∧ k = .unsupportedProduct) ∨
      (((x.isBinary = true ∧ y.isBinary = false ∧ y.IsUnbounded) ∨
        (x.isBinary = false ∧ y.isBinary = true ∧ x.IsUnbounded)) ∧ k = .unboundedBigM)
  | .semiContinuous lower upper name, k =>
    (¬lower.AreEnds upper ∧ k = .invalidRange) ∨
      (lower.AreEnds upper ∧ (m.find? name).isSome = true ∧ k = .value)
  | .divide x divisor, k =>
    (¬divisor.IsDivisor ∨ ∃ i, x.intervalOf = .ok i ∧
      (Arithmetic.lt i.lower zero = true ∨ isFinite i.upper = false)) ∧ k = .invalidRange
  | .reify constraint _ _, k => constraint.IsUnboundedConstraint ∧ k = .unboundedBigM
  | _, _ => False

end Model.Call

end Reasons

/-! ## Steps that fail -/

namespace Build

section Steps

variable {K α β : Type} {x : Build K α} {g : α → Build K β} {m : Model K} {k : Fault.Kind}
  {R : Fault.Kind → Prop}

/-- The step fails on a model, with a fault of a kind. -/
def FailsWith (x : Build K α) (m : Model K) (k : Fault.Kind) : Prop :=
  ∃ f n, exec x m = (.error f, n) ∧ f.kind = k

namespace FailsWith

theorem throw (f : Fault) : FailsWith (throw f : Build K α) m f.kind := ⟨f, m, rfl, rfl⟩

theorem bind (h : FailsWith x m k) : FailsWith (x >>= g) m k := by
  obtain ⟨f, n, hx, hk⟩ := h
  exact ⟨f, n, exec_bind_of_error hx g, hk⟩

theorem map {g : α → β} (h : FailsWith x m k) : FailsWith (g <$> x) m k := by
  obtain ⟨f, n, hx, hk⟩ := h
  exact ⟨f, n, exec_map_eq_error.2 hx, hk⟩

/-- A first step that succeeds is not the reason. -/
theorem bind_of_ok {n : Model K} {a : α} (hx : exec x m = (.ok a, n)) (h : FailsWith (g a) n k) :
    FailsWith (x >>= g) m k := by
  obtain ⟨f, n', hg, hk⟩ := h
  exact ⟨f, n', (exec_bind_of_ok hx g).trans hg, hk⟩

theorem lift_bind {a : α} (h : FailsWith (g a) m k) :
    FailsWith (liftM (.ok a : Except Fault α) >>= g) m k :=
  bind_of_ok (exec_liftM _ m) h

theorem lift {r : Except Fault α} (h : ∃ f, r = .error f ∧ f.kind = k) :
    FailsWith (liftM r : Build K α) m k := by
  obtain ⟨f, rfl, hk⟩ := h
  exact ⟨f, m, rfl, hk⟩

end FailsWith

/-- The step fails with a fault of a kind exactly under a condition on the kind. -/
def FailsIf (x : Build K α) (m : Model K) (R : Fault.Kind → Prop) : Prop :=
  ∀ k, FailsWith x m k ↔ R k

theorem Succeeds.failsIf {P : α → Model K → Prop} (h : Succeeds x m P) (hR : ∀ k, ¬R k) :
    FailsIf x m R := by
  obtain ⟨a, n, hx, -⟩ := h
  refine fun k => iff_of_false ?_ (hR k)
  rintro ⟨f, n', hx', -⟩
  cases hx.symm.trans hx'

theorem FailsWith.failsIf (h : FailsWith x m k) (hR : ∀ k', R k' ↔ k' = k) : FailsIf x m R := by
  obtain ⟨f, n, hx, rfl⟩ := h
  refine fun k' => Iff.trans ⟨?_, ?_⟩ (hR k').symm
  · rintro ⟨f', n', hx', rfl⟩
    cases hx.symm.trans hx'
    rfl
  · rintro rfl
    exact ⟨f, n, hx, rfl⟩

/-- What has been read is not the reason. -/
theorem FailsIf.lift_bind {a : α} (h : FailsIf (g a) m R) :
    FailsIf (liftM (.ok a : Except Fault α) >>= g) m R := by
  intro k
  refine Iff.trans ⟨?_, .lift_bind⟩ (h k)
  rintro ⟨f, n, hx, hk⟩
  exact ⟨f, n, (exec_bind_of_ok (exec_liftM _ m) g).symm.trans hx, hk⟩

theorem FailsIf.map {g : α → β} (h : FailsIf x m R) : FailsIf (g <$> x) m R := by
  intro k
  refine Iff.trans ⟨?_, .map⟩ (h k)
  rintro ⟨f, n, hx, hk⟩
  exact ⟨f, n, exec_map_eq_error.1 hx, hk⟩

/-- A step that has one reason to fail. -/
theorem failsIf_of_reason {p : Prop} (hR : ∀ k', R k' ↔ p ∧ k' = k) (hfails : p → FailsWith x m k)
    (hsucceeds : ¬p → ∃ P, Succeeds x m P) : FailsIf x m R := by
  by_cases hp : p
  · exact (hfails hp).failsIf fun k' => (hR k').trans (and_iff_right hp)
  · obtain ⟨P, hx⟩ := hsucceeds hp
    exact hx.failsIf fun k' h => hp ((hR k').1 h).1

/-- What does not fail succeeds. -/
theorem FailsIf.succeeds_iff (h : FailsIf x m R) : (∃ a n, exec x m = (.ok a, n)) ↔ ∀ k, ¬R k := by
  constructor
  · rintro ⟨a, n, hx⟩ k hk
    obtain ⟨f, n', hx', -⟩ := (h k).2 hk
    cases hx.symm.trans hx'
  · intro hR
    rcases hx : exec x m with ⟨f | a, n⟩
    · exact absurd ((h f.kind).1 ⟨f, n, hx, rfl⟩) (hR f.kind)
    · exact ⟨a, n, rfl⟩

/-- Several readings fail with a fault of a kind if one of them fails, and if all that fail do so with
a fault of this kind. -/
theorem exists_mapM_eq_error {p : α → Bool} {f : α → Except Fault β} {l : List α}
    (hok : ∀ a ∈ l, p a = true → ∃ b, f a = .ok b)
    (herror : ∀ a ∈ l, p a = false → ∃ e, f a = .error e ∧ e.kind = k)
    (h : ∃ a ∈ l, p a = false) :
    ∃ e, l.mapM f = .error e ∧ e.kind = k := by
  induction l with
  | nil =>
    obtain ⟨a, ha, -⟩ := h
    cases ha
  | cons a l ih =>
    obtain ⟨hoka, hokl⟩ := List.forall_mem_cons.1 hok
    obtain ⟨herrora, herrorl⟩ := List.forall_mem_cons.1 herror
    rw [List.mapM_cons]
    cases ha : p a with
    | true =>
      -- The first reading succeeds, so that the one that fails is among the others.
      obtain ⟨b, hb⟩ := hoka ha
      obtain ⟨c, hc, hpc⟩ := h
      have hcl : c ∈ l := (List.mem_cons.1 hc).resolve_left fun hca =>
        Bool.false_ne_true (hpc.symm.trans (hca ▸ ha))
      obtain ⟨e, he, hk⟩ := ih hokl herrorl ⟨c, hcl, hpc⟩
      exact ⟨e, by rw [hb, he]; rfl, hk⟩
    | false =>
      obtain ⟨e, he, hk⟩ := herrora ha
      exact ⟨e, by rw [he]; rfl, hk⟩

end Steps

end Build

end MixedInteger
