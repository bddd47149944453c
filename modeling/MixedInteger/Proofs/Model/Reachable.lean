import MixedInteger.Proofs.Model.Repaint
import MixedInteger.Proofs.Reformulation.Failure
import MixedInteger.Proofs.Reformulation.Kept

/-!
# Reachable models

A model starts empty and changes by calls, whether they succeed or not.  It may get another name,
and the names within it may come to look different.  This file proves that all such models are
well-formed.

## What is here

* `Model.Declares` — from one model to another, variables are created at most.
* `Build.register_taken` — a row is taken in under a name that was free.
* `Model.Reachable` — the models that calls lead to.
* `Model.WellFormed.call` — what one call preserves.
* `Model.Reachable.wellFormed` — what holds of all of them.
-/

set_option autoImplicit false

namespace MixedInteger

open Arithmetic Fallible

variable {K : Type}

/-! ## Calls that are not reformulations -/

/-- From one model to another, variables are created at most. -/
def Model.Declares [Arithmetic K] (m n : Model K) : Prop := ∃ vs, m.Grown vs [] n

instance [Arithmetic K] : IsPreorder (Model K) Model.Declares where
  refl m := ⟨[], .refl m⟩
  trans _ _ _ h h' := by
    obtain ⟨vs, hg⟩ := h
    obtain ⟨ws, hg'⟩ := h'
    exact ⟨vs ++ ws, hg.trans hg'⟩

namespace Build

variable [Arithmetic K]

theorem addVariable_declares (domain lower upper name : Value K) :
    Moves Model.Declares (addVariable domain lower upper name) :=
  AllOrNothing.moves (fun h => ⟨[], h.grown⟩) (addVariable_spec domain lower upper name)
    fun _ v _ h => ⟨[v], h.1⟩

theorem addVariables_declares (count domain lower upper stem : Value K) :
    Moves Model.Declares (addVariables count domain lower upper stem) := by
  have hcheck : ∀ name : Value K, Moves Model.Declares (requireNewName name) := fun name =>
    AllOrNothing.moves (fun h => ⟨[], h.grown⟩) (requireNewName_spec name)
      fun m _ _ h => h.1 ▸ refl_of Model.Declares m
  refine .bind (.lift _) fun n => .bind (.lift _) fun names => .bind (.forIn ?_ _) fun _ => ?_
  · exact fun name _ _ => .bind (hcheck name) fun _ => .pure _
  · exact .mapM fun name _ => addVariable_declares domain lower upper name

/-- A name that passes is not the name of a row. -/
theorem requireNewRow_spec {name : Value K} (hname : name ≠ .none) (m : Model K) :
    AllOrNothing (requireNewRow name) m fun _ n => n = m ∧ m.IsFree name := by
  cases hk : name.isKey with
  | false =>
    simp only [requireNewRow, hk, Bool.not_false, if_true]
    exact .throw _
  | true =>
    cases hf : m.hasRow name with
    | false =>
      refine .inl ⟨⟨⟩, m, ?_, rfl, ⟨hname, hk⟩, hf⟩
      simp [requireNewRow, hk, exec_bind, hf]
    | true =>
      right
      rcases hd : name.display with e | s
      · exact ⟨e, m, by simp [requireNewRow, hk, exec_bind, hf, hd], .refl m⟩
      · exact ⟨_, m, by simp [requireNewRow, hk, exec_bind, hf, hd]; rfl, .refl m⟩

/-- What is known of a row that has been taken in: the name was free, and has been given for the row,
or is a text from a counter. -/
def IsTaken (m : Model K) (c : Constraint K) (name : Value K) (d : Constraint K) (m' : Model K) :
    Prop :=
  ∃ n, m.SameContent n ∧ n.IsFree d.name ∧ d = c.withName d.name ∧ m' = n.withRow d ∧
    (d.name = (if name.isPresent then name else c.name) ∨ ∃ s, d.name = .text s)

/-- **A row is taken in under a name that was free**, or not at all. -/
theorem register_taken (c : Constraint K) (name : Value K) (m : Model K) :
    AllOrNothing (register c name) m (IsTaken m c name) := by
  rw [register]
  split
  · refine .bind (freshConstraintName_spec m).allOrNothing (fun s n h => h.1) fun s n h => ?_
    exact .inl ⟨_, _, rfl, n, h.1, Model.isFree_text h.2, rfl, rfl, .inr ⟨s, rfl⟩⟩
  · refine .bind (requireNewRow_spec ‹_› m) (fun _ n h => h.1 ▸ .refl m) ?_
    rintro _ n ⟨rfl, h⟩
    exact .inl ⟨_, _, rfl, n, .refl n, h, rfl, rfl, .inl rfl⟩

/-- A row that a caller wrote makes a model grow. -/
theorem register_given_spec (c : Constraint K) (name : Value K) (m : Model K) :
    AllOrNothing (register c name) m fun _ m' => m.Grown [] [c] m' := by
  refine (register_taken c name m).mono ?_
  rintro d _ ⟨n, hs, hfree, hd, rfl, -⟩
  have hnamed : d.withName .none = c.withName .none := by rw [hd]; rfl
  have hg : n.Grown [] [c] (n.withRow d) :=
    ⟨rfl, (List.append_nil _).symm, fun i hi => absurd hi (Nat.not_lt_zero i),
      fun v hv => absurd hv List.not_mem_nil, ⟨[d], rfl, congrArg (fun e => [e]) hnamed⟩, rfl, rfl,
      fun hm => hm.withRow hfree⟩
  exact hs.grown.trans hg

/-- The objective may have been set even where its direction cannot be read. -/
theorem setObjective_spec (expr direction : Value K) (m : Model K) :
    (exec (setObjective expr direction) m).2 = m ∨ ∃ e d, expr.toExpr = .ok e ∧
      (exec (setObjective expr direction) m).2 = { m with objective := some e, direction := d } := by
  unfold setObjective
  rcases he : expr.toExpr with f | e
  · exact .inl (by rw [exec_bind_of_error (exec_liftM _ m)])
  · right
    rw [exec_bind_of_ok (exec_liftM _ m), exec_bind_of_ok (exec_modify _ m)]
    split
    · exact ⟨e, m.direction, rfl, rfl⟩
    · rcases hd : direction.toDirection with f | d
      · exact ⟨e, m.direction, rfl, by rw [exec_bind_of_error (exec_liftM _ _)]⟩
      · exact ⟨e, d, rfl, by rw [exec_bind_of_ok (exec_liftM _ _), exec_modify]⟩

end Build

namespace Model

variable [Arithmetic K]

theorem WellFormed.sameContent {m m' : Model K} (h : m.WellFormed) (hs : m.SameContent m') :
    m'.WellFormed :=
  h.grown hs.grown .nil

/-- A model with the same variables and rows and a well-formed objective. -/
theorem WellFormed.congr {m n : Model K} (h : m.WellFormed) (hid : n.id = m.id)
    (hvars : n.vars = m.vars) (hcs : n.constraints = m.constraints)
    (hnames : n.rowNames = m.rowNames) (ho : ∀ e, n.objective = some e → e.WellFormed m) :
    n.WellFormed := by
  have hk : m.Keeps n := ⟨hid, fun v hv => ⟨v, hvars ▸ hv, .refl v⟩⟩
  refine ⟨?_, ?_, ?_, fun e he => (ho e he).mono hk, ⟨?_, ?_, ?_, ?_⟩⟩
  · simp only [hvars, hid]
    exact h.ids
  · rw [hvars]
    exact h.proper
  · rw [hcs]
    exact fun c hc => (h.rows c hc).mono hk
  · rw [hnames, hcs, h.names.rowNames_eq]
  · rw [hnames]
    exact h.names.keys
  · rw [hnames]
    exact h.names.apart
  · rw [variableNames, hvars]
    exact h.names.vars

theorem WellFormed.declares {m : Model K} (h : m.WellFormed) {α : Type} {x : Build K α}
    (hx : Moves Declares x) : (Build.exec x m).2.WellFormed := by
  obtain ⟨vs, hg⟩ := hx m
  exact h.grown hg .nil

theorem WellFormed.addConstraint {m : Model K} (h : m.WellFormed) {constraint : Value K}
    (hc : constraint.WellFormed m) (name : Value K) :
    (Build.exec (Build.perform (.addConstraint constraint name)) m).2.WellFormed := by
  cases constraint with
  | constraint c i =>
    have hall : Build.AllOrNothing (Build.perform (.addConstraint (.constraint c i) name)) m
        fun _ m' => m.Grown [] [c] m' := by
      refine .bind_succeeds (Build.register_given_spec c name m) fun d n hg => ?_
      exact (Build.lastRow_spec d n).mono fun _ _ ha => ha.2 ▸ hg
    rcases hall with ⟨a, n, hx, hg⟩ | ⟨e, n, hx, hs⟩
    · rw [hx]
      exact h.grown hg (.cons (LinearExpr.WellFormed.mono hg.keeps hc) .nil)
    · rw [hx]
      exact h.sameContent hs
  | _ => exact h

theorem WellFormed.reformulation [Sensible K] {m : Model K} (h : m.WellFormed) {c : Call K}
    (hc : c.isReformulation = true) (ha : c.Admissible m) :
    (Build.exec (Build.perform c) m).2.WellFormed := by
  by_cases hl : c.IsLate
  · obtain ⟨d, j, e, rhs, i, delta, m', harg, he, hx, hg⟩ := Build.perform_late hl m
    have hd : d.expr.WellFormed m := (ha _ harg).wellFormed
    have hed : e.WellFormed m := by
      rcases he with rfl | rfl
      · exact hd
      · exact hd.negate
    rw [hx]
    refine h.grown hg (.cons ((hed.mono hg.keeps).plus ?_) .nil)
    exact LinearExpr.wellFormed_monomial (hg.knows_new List.mem_cons_self) _
  · rcases Build.perform_spec hc hl m with ⟨a, n, hx, he⟩ | ⟨f, n, hx, hs⟩
    · rw [hx]
      exact h.effect hc ha he
    · rw [hx]
      exact h.sameContent hs

/-- **A call keeps a model well-formed**, whether it succeeds or not. -/
theorem WellFormed.call [Sensible K] {m : Model K} (h : m.WellFormed) {c : Call K}
    (ha : c.Admissible m) : (Build.exec (Build.perform c) m).2.WellFormed := by
  cases c with
  | addVariable domain lower upper name =>
    exact h.declares (.map _ (Build.addVariable_declares domain lower upper name))
  | addVariables count domain lower upper stem =>
    exact h.declares (.bind (Build.addVariables_declares count domain lower upper stem) fun vs =>
      .pure _)
  | addConstraint constraint name =>
    exact h.addConstraint (ha constraint List.mem_cons_self).wellFormed name
  | setObjective expr direction =>
    have hx : (Build.exec (Build.perform (.setObjective expr direction)) m).2 =
        (Build.exec (Build.setObjective expr direction) m).2 := by
      rw [Build.perform, Build.exec_bind]
      rcases Build.exec (Build.setObjective expr direction) m with ⟨e | a, n⟩ <;> rfl
    rw [hx]
    rcases Build.setObjective_spec expr direction m with h' | ⟨e, d, he, h'⟩
    · rw [h']
      exact h
    · rw [h']
      have hw := (ha expr List.mem_cons_self).wellFormed
      refine h.congr rfl rfl rfl rfl fun f hf => ?_
      cases hf
      exact Value.wellFormed_of_toExpr hw he
  | _ => exact h.reformulation rfl ha

/-! ## Reachable models -/

/-- The models that calls lead to. -/
inductive Reachable : Model K → Prop where
  /-- A new model. -/
  | empty (id : Nat) (name : Value K) : Reachable (empty id name)
  /-- A call, which may fail. -/
  | call {m : Model K} (h : Reachable m) (c : Call K) (hc : c.Admissible m) :
    Reachable (Build.exec (Build.perform c) m).2
  /-- Another name for the problem. -/
  | rename {m : Model K} (h : Reachable m) (name : Value K) : Reachable { m with name := name }
  /-- Names that look as they do now. -/
  | repaint {m : Model K} (h : Reachable m) (look : Look K) : Reachable (m.repaint look)

theorem Reachable.of_call {m n : Model K} (h : m.Reachable) (c : Call K) (hc : c.Admissible m)
    (hn : (Build.exec (Build.perform c) m).2 = n) : n.Reachable := hn ▸ h.call c hc

/-- **Every reachable model is well-formed.** -/
theorem Reachable.wellFormed [Sensible K] {m : Model K} (h : m.Reachable) : m.WellFormed := by
  induction h with
  | empty id name => exact wellFormed_empty id name
  | call _ c hc ih => exact ih.call hc
  | rename _ name ih => exact ih.congr rfl rfl rfl rfl ih.objective
  | repaint _ look ih => exact ih.repaint look

end Model

end MixedInteger
