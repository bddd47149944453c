import MixedInteger.Proofs.Reformulation.Evolution
import MixedInteger.Session.Vocabulary

/-!
# The history of a model

What a caller finds in a model after any number of calls, some of which may have failed: names that
are apart and can be looked up, bounds in order, coefficients that are kept.  A further step only
ever adds to it.

## What is here

* `Model.Step` — what a caller does to a model.
* `Model.Reached` — the models that steps lead to.
* `Model.Step.evolves` — what one step preserves.
* `Model.Reached.registry` — what holds of all models that steps lead to.
* `Model.Reached.history` — what a caller finds in such a model, and after one more step.
-/

set_option autoImplicit false

namespace MixedInteger

variable {K : Type} [Arithmetic K]

open Arithmetic

namespace Model

/-- What a caller does to a model.  All else that a caller can do with a model only reads it. -/
inductive Step : Model K → Model K → Prop where
  /-- A call, which may fail. -/
  | call (m : Model K) {c : Call K} (hc : c.IsHandedOver) :
    Step m (Build.exec (Build.perform c) m).2
  /-- Another name for the problem. -/
  | rename (m : Model K) (name : Value K) : Step m { m with name := name }

/-- **A step makes a model evolve.** -/
theorem Step.evolves {m n : Model K} (h : m.Step n) : m.Evolves n := by
  cases h with
  | call hc => exact Build.perform_moves hc m
  | rename name => exact .of_eq rfl rfl rfl (.inl rfl)

/-- The models that steps lead to. -/
inductive Reached : Model K → Prop where
  /-- A new model. -/
  | empty (id : Nat) (name : Value K) : Reached (empty id name)
  /-- A step. -/
  | step {m n : Model K} (h : Reached m) (hn : m.Step n) : Reached n
  /-- Names that look as they do now. -/
  | repaint {m : Model K} (h : Reached m) (look : Look K) : Reached (m.repaint look)

theorem Registry.repaint {m : Model K} (h : m.Registry) (look : Look K) :
    (m.repaint look).Registry := by
  refine ⟨?_, ?_, h.rowNames.repaint look, ?_, ?_, ?_⟩
  · rw [variableNames_repaint]
    exact h.variableNames.repaint look
  · exact List.forall_mem_map.2 fun v hv =>
      (h.proper v hv).alike (Value.alike_repaintVariable look v)
  · simp [Model.repaint, h.rowNames_eq, Value.repaintConstraint_eq]
  · refine List.forall_mem_map.2 fun c hc => ?_
    rw [Value.repaintConstraint_eq]
    exact (h.made c hc).repaint look
  · intro e he
    obtain ⟨f, hf, rfl⟩ := Option.map_eq_some_iff.1 he
    exact (h.objective f hf).repaint look

/-- **The registry of a model is in order whatever a caller does.** -/
theorem Reached.registry {m : Model K} (h : m.Reached) : m.Registry := by
  induction h with
  | empty id name => exact registry_empty id name
  | step _ hn ih => exact hn.evolves.registry ih
  | repaint _ look ih => exact ih.repaint look

/-- Calls one after another are steps. -/
theorem Reached.foldl {m : Model K} (hm : m.Reached) {calls : List (Call K)}
    (hcalls : ∀ c ∈ calls, c.IsHandedOver) :
    (calls.foldl (fun m c => (Build.exec (Build.perform c) m).2) m).Reached := by
  induction calls generalizing m with
  | nil => exact hm
  | cons c calls ih =>
    obtain ⟨hc, hcalls⟩ := List.forall_mem_cons.1 hcalls
    exact ih (hm.step (.call m hc)) hcalls

/-- The constraints that a model answers can be handed over again. -/
theorem Registry.isMade_of_mem_rows {m : Model K} (h : m.Registry) {v : Value K} (hv : v ∈ m.rows) :
    v.isSettled = true ∧ v.IsMade := by
  obtain ⟨i, hi, rfl⟩ := List.mem_mapIdx.1 hv
  have hc : m.constraints[i] ∈ m.constraints := List.getElem_mem hi
  refine ⟨rfl, h.made _ hc, (h.rowNames.isName _ ?_).isSettled⟩
  rw [h.rowNames_eq]
  exact List.mem_map_of_mem hc

/-! ## Looking names up -/

/-- A variable is found under its own name. -/
theorem Registry.find?_name [Comparable K] {m : Model K} (h : m.Registry) {v : Variable K}
    (hv : v ∈ m.vars) : m.find? v.name = some v := by
  obtain ⟨before, after, hsplit⟩ := List.append_of_mem hv
  have hname := h.variableNames.isName v.name (List.mem_map_of_mem hv)
  have hapart := List.pairwise_map.1 h.variableNames.apart
  rw [hsplit] at hapart
  rw [find?, List.find?_eq_some_iff_append]
  refine ⟨Value.sameKey_self v.name hname.isKey hname.isSettled, before, after, hsplit,
    fun w hw => ?_⟩
  rw [(List.pairwise_append.1 hapart).2.2 w hw v List.mem_cons_self]
  rfl

theorem namedVariable_eq_ok_iff {m : Model K} {name : Value K} {v : Variable K} :
    Vocabulary.namedVariable m name = .ok (.var v) ↔
      name.isKey = true ∧ m.find? name = some v := by
  rw [Vocabulary.namedVariable]
  cases name.isKey with
  | false => simp
  | true =>
    cases hf : m.find? name with
    | none => simp
    | some w => simp

/-- Names none of which is found under a later one are not found under an earlier one either. -/
theorem pairwise_apart [Comparable K] {α : Type} {name : α → Value K} {l : List α}
    (h : (l.map name).Pairwise fun n k => n.sameKey k = false) :
    l.Pairwise fun a b => (name a).sameKey (name b) = false ∧ (name b).sameKey (name a) = false := by
  refine (List.pairwise_map.1 h).imp fun hab => ⟨hab, ?_⟩
  rw [Value.sameKey_comm]
  exact hab

/-! ## What a caller finds -/

/-- **The history of a model.**  After any steps of a caller, the names of the variables are apart and
each variable, and no other, is found under its name; every constraint has a name, these names are
apart, and the names that count as in use are just these; all bounds are numbers in order, those of
binary variables zero and one; and the coefficients of all constraints are above the tolerance.  One
more step leaves the variables and the constraints as they are, and where they are. -/
theorem Reached.history [Comparable K] [KeepsIntegers K] {m : Model K} (h : m.Reached) :
    (m.vars.Pairwise fun v w => v.name.sameKey w.name = false ∧ w.name.sameKey v.name = false) ∧
    (∀ v ∈ m.vars, Vocabulary.namedVariable m v.name = .ok (.var v)) ∧
    (∀ name v, Vocabulary.namedVariable m name = .ok (.var v) →
      v ∈ m.vars ∧ v.name.sameKey name = true) ∧
    (∀ c ∈ m.constraints, c.name ≠ .none) ∧
    (m.constraints.Pairwise fun c d =>
      c.name.sameKey d.name = false ∧ d.name.sameKey c.name = false) ∧
    m.rowNames = m.constraints.map (fun c => c.name) ∧
    (∀ v ∈ m.vars, isNaN v.lower = false ∧ isNaN v.upper = false ∧ le v.lower v.upper = true ∧
      (v.domain = .binary → v.lower = zero ∧ v.upper = one)) ∧
    (∀ c ∈ m.constraints, ∀ t ∈ c.expr.terms, lt tolerance (abs t.2) = true) ∧
    ∀ n, m.Step n → m.vars <+: n.vars ∧ m.constraints <+: n.constraints := by
  have hreg := h.registry
  have hrows := hreg.rowNames
  rw [hreg.rowNames_eq] at hrows
  refine ⟨pairwise_apart hreg.variableNames.apart, fun v hv => ?_, fun name v hv => ?_,
    fun c hc => ?_, pairwise_apart hrows.apart, hreg.rowNames_eq, fun v hv => ?_,
    fun c hc => (hreg.made c hc).isKept, fun n hn => ⟨hn.evolves.vars, hn.evolves.constraints⟩⟩
  · have hname := hreg.variableNames.isName v.name (List.mem_map_of_mem hv)
    exact namedVariable_eq_ok_iff.2 ⟨hname.isKey, hreg.find?_name hv⟩
  · have hfind : m.vars.find? (fun w => w.name.sameKey name) = some v :=
      (namedVariable_eq_ok_iff.1 hv).2
    exact ⟨List.mem_of_find?_eq_some hfind, by simpa using List.find?_some hfind⟩
  · exact (hrows.isName c.name (List.mem_map_of_mem hc)).ne_none
  · have hproper := (hreg.proper v hv).interval
    rw [Interval.isProper, Bool.not_eq_true', Bool.or_eq_false_iff, Bool.or_eq_false_iff] at hproper
    obtain ⟨⟨hlower, hupper⟩, hlt⟩ := hproper
    refine ⟨hlower, hupper, Comparable.le_of_not_lt hlower hupper hlt, fun hd => ?_⟩
    have hbinary := (hreg.proper v hv).binary hd
    exact ⟨congrArg Interval.lower hbinary, congrArg Interval.upper hbinary⟩

/-- A variable is asked for twice under one name, which fails the second time, and a row over it is
taken in without a name. -/
theorem history_twice :
    let x : Variable Float := ⟨⟨0, 0⟩, .text "x", .integer, 0, 10⟩
    let ask : Call Float := .addVariable (.domain .integer) (.real 0) (.real 10) (.text "x")
    let row : Call Float := .addConstraint
      (.constraint ⟨.ofTerms [(x, 2)] 0, .le, 7, .none⟩ (some (.loose 0))) .none
    let m := [ask, ask, row].foldl (fun m c => (Build.exec (Build.perform c) m).2) (empty 0 .none)
    m.Reached ∧ m.vars.length = 1 ∧ m.constraints.length = 1 ∧
      (∀ c ∈ m.constraints, c.name ≠ .none) ∧
      Vocabulary.namedVariable m (.text "x") = .ok (.var x) := by
  intro x ask row m
  have hask : ask.IsHandedOver := by
    simp only [ask, Call.IsHandedOver, Call.arguments, List.forall_mem_cons]
    exact ⟨⟨rfl, trivial⟩, ⟨rfl, trivial⟩, ⟨rfl, trivial⟩, ⟨rfl, trivial⟩,
      fun _ hv => absurd hv List.not_mem_nil⟩
  have hrow : row.IsHandedOver := by
    simp [row, Call.IsHandedOver, Call.arguments, Value.isSettled, Value.IsMade,
      LinearExpr.IsMade.ofTerms]
  have h : m.Reached :=
    (((Reached.empty 0 .none).step (.call _ hask)).step (.call _ hask)).step (.call _ hrow)
  obtain ⟨-, hfound, -, hnames, -⟩ := h.history
  have hx : x ∈ m.vars := List.mem_singleton.2 rfl
  exact ⟨h, rfl, rfl, hnames, hfound x hx⟩

end Model

end MixedInteger
