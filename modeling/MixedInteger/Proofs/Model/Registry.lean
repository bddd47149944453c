import MixedInteger.Proofs.Linear.Kept
import MixedInteger.Proofs.Model.Reachable
import MixedInteger.Proofs.Value.Table

/-!
# The registry of a model

A model knows its variables and its constraints by their names.  Whatever a caller does, and whether
it succeeds or not, the names stay apart, bounds stay in order, and what is there stays there.

## What is here

* `Model.Registry` — what holds of a model at any time.
* `Model.Evolves` — from one model to another, variables and constraints are added at most.
* `Build.addVariable_moves`, `Build.register_moves` — a variable is created, and a row is taken in,
  under a name that is free.
-/

set_option autoImplicit false

namespace MixedInteger

variable {K : Type} [Arithmetic K]

open Arithmetic Fallible

/-! ## What holds of a model at any time -/

namespace Model

/-- What holds of a model at any time. -/
structure Registry (m : Model K) : Prop where
  variableNames : Value.AreNames m.variableNames
  proper : ∀ v ∈ m.vars, v.IsProper
  rowNames : Value.AreNames m.rowNames
  rowNames_eq : m.rowNames = m.constraints.map fun c => c.name
  made : ∀ c ∈ m.constraints, c.expr.IsMade
  objective : ∀ e ∈ m.objective, e.IsMade

theorem registry_empty (id : Nat) (name : Value K) : (empty id name).Registry :=
  ⟨Value.areNames_nil, fun _ h => absurd h List.not_mem_nil, Value.areNames_nil, rfl,
    fun _ h => absurd h List.not_mem_nil, nofun⟩

/-- From one model to another, variables and constraints are added at the end at most, and what holds
at any time still does. -/
structure Evolves (m n : Model K) : Prop where
  vars : m.vars <+: n.vars
  constraints : m.constraints <+: n.constraints
  registry : m.Registry → n.Registry

instance : IsPreorder (Model K) Evolves where
  refl _ := ⟨List.prefix_rfl, List.prefix_rfl, fun h => h⟩
  trans _ _ _ h h' := ⟨h.vars.trans h'.vars, h.constraints.trans h'.constraints,
    h'.registry ∘ h.registry⟩

namespace Evolves

variable {m n : Model K}

/-- The variables and the constraints stay, and so does the objective unless a new one is set. -/
theorem of_eq (hvars : n.vars = m.vars) (hrows : n.constraints = m.constraints)
    (hnames : n.rowNames = m.rowNames)
    (hobjective : n.objective = m.objective ∨ ∃ e, n.objective = some e ∧ e.IsMade) :
    m.Evolves n := by
  refine ⟨hvars ▸ List.prefix_rfl, hrows ▸ List.prefix_rfl, fun h => ⟨?_, ?_, ?_, ?_, ?_, ?_⟩⟩
  · rw [Model.variableNames, hvars]
    exact h.variableNames
  · rw [hvars]
    exact h.proper
  · rw [hnames]
    exact h.rowNames
  · rw [hnames, hrows, h.rowNames_eq]
  · rw [hrows]
    exact h.made
  · rcases hobjective with hsame | ⟨e, hnew, he⟩
    · rw [hsame]
      exact h.objective
    · rw [hnew]
      rintro _ ⟨⟩
      exact he

theorem of_sameContent (h : m.SameContent n) : m.Evolves n :=
  of_eq h.vars_eq h.constraints_eq h.rowNames_eq (.inl h.objective_eq)

/-- A variable under a name that was free. -/
theorem withVariable {v : Variable K} (hname : v.name.IsName) (hfree : m.find? v.name = none)
    (hv : v.IsProper) : m.Evolves { m with vars := m.vars ++ [v] } := by
  refine ⟨List.prefix_append _ _, List.prefix_rfl, fun h => ⟨?_, ?_, h.rowNames, h.rowNames_eq,
    h.made, h.objective⟩⟩
  · rw [Model.variableNames, List.map_append]
    refine h.variableNames.concat hname (List.forall_mem_map.2 fun w hw => ?_)
    exact Bool.eq_false_iff.2 (List.find?_eq_none.1 hfree w hw)
  · exact List.forall_mem_append.2 ⟨h.proper, List.forall_mem_singleton.2 hv⟩

/-- A constraint under a name that was free. -/
theorem withRow {c : Constraint K} (hname : c.name.IsName) (hfree : m.hasRow c.name = false)
    (hc : c.expr.IsMade) : m.Evolves (m.withRow c) := by
  refine ⟨List.prefix_rfl, List.prefix_append _ _, fun h => ⟨h.variableNames, h.proper, ?_, ?_, ?_,
    h.objective⟩⟩
  · refine h.rowNames.concat hname fun n hn => ?_
    exact Bool.eq_false_iff.2 (List.any_eq_false.1 hfree n hn)
  · rw [Model.withRow, List.map_append, h.rowNames_eq]
    rfl
  · exact List.forall_mem_append.2 ⟨h.made, List.forall_mem_singleton.2 hc⟩

end Evolves

/-- No variable is found under a text that is not the name of one. -/
theorem find?_text {m : Model K} {s : String} (h : s ∉ textNames m.variableNames) :
    m.find? (.text s) = none := by
  refine List.find?_eq_none.2 fun v hv hsame => h (mem_textNames.2 ?_)
  exact List.mem_map.2 ⟨v, hv, Value.eq_of_sameKey_text hsame⟩

end Model

/-! ## Building steps -/

namespace Build

theorem requireNewName_moves (name : Value K) : Moves Model.Evolves (requireNewName name) :=
  AllOrNothing.moves .of_sameContent (requireNewName_spec name) fun m _ _ h => h.1 ▸ refl_of Model.Evolves m

theorem lastRows_moves (n : Nat) : Moves Model.Evolves (lastRows n : Build K _) :=
  .bind .get fun _ => .pure _

theorem lastRow_moves (c : Constraint K) : Moves Model.Evolves (lastRow c) :=
  .bind .get fun _ => .pure _

/-! ### Variables -/

/-- **A variable is created under a name that is free.** -/
theorem declare_evolves {name : Value K} {m : Model K} (hname : name.IsName)
    (hfree : m.find? name = none) (d : Domain) (lower upper : K) :
    m.Evolves (exec (declare name d lower upper) m).2 := by
  cases hp : (d.bounds lower upper).isProper with
  | false =>
    obtain ⟨e, he⟩ := exec_declare_of_not_isProper name m hp
    rw [he]
    exact refl_of Model.Evolves m
  | true =>
    rw [exec_declare m hp]
    exact .withVariable hname hfree (Model.isProper_nextVariable m name hp)

theorem auxiliary_moves (stem : String) (d : Domain) (lower upper : K) :
    Moves Model.Evolves (auxiliary stem d lower upper) := by
  intro m
  change m.Evolves (exec (auxiliary stem d lower upper) m).2
  obtain ⟨s, n, hx, hs, hfree⟩ := auxiliaryName_spec stem m
  rw [auxiliary, exec_bind_of_ok hx]
  exact trans_of Model.Evolves (.of_sameContent hs)
    (declare_evolves (Value.isName_text s) (Model.find?_text hfree) d lower upper)

theorem selector_moves (stem : String) : Moves Model.Evolves (selector stem : Build K _) :=
  auxiliary_moves stem .binary zero one

/-- A variable from arguments under a name that is free. -/
theorem declareRead_evolves (domain lower upper : Value K) {name : Value K} {m : Model K}
    (hname : name.IsName) (hfree : m.find? name = none) :
    m.Evolves (exec (do
      match ← domain.toDomain with
      | .binary => declare name .binary zero one
      | d => do
        let l ← lower.toNumber
        let u ← upper.toNumber
        declare name d l u) m).2 := by
  have hread : ∀ d, m.Evolves (exec (do
      let l ← lower.toNumber
      let u ← upper.toNumber
      declare name d l u) m).2 := by
    intro d
    rcases lower.toNumber with e | l
    · exact refl_of Model.Evolves m
    · rcases upper.toNumber with e | u
      · exact refl_of Model.Evolves m
      · exact declare_evolves hname hfree d l u
  rcases domain.toDomain with e | d
  · exact refl_of Model.Evolves m
  · cases d with
    | binary => exact declare_evolves hname hfree .binary zero one
    | continuous => exact hread .continuous
    | integer => exact hread .integer

/-- **A caller creates a variable under a name that is free**, or nothing happens. -/
theorem addVariable_moves (domain lower upper : Value K) {name : Value K}
    (hname : name.isSettled = true) :
    Moves Model.Evolves (addVariable domain lower upper name) := by
  intro m
  change m.Evolves (exec (addVariable domain lower upper name) m).2
  rcases requireNewName_spec name m with ⟨_, n, hx, rfl, hkey, hfree⟩ | ⟨e, n, hx, hs⟩
  · rw [addVariable, exec_bind_of_ok hx]
    split
    · obtain ⟨s, k, hs, hc, hnew⟩ := freshVariableName_spec n
      dsimp only
      rw [exec_bind_of_ok hs, exec_bind_of_ok (exec_pure _ k)]
      exact trans_of Model.Evolves (.of_sameContent hc)
        (declareRead_evolves domain lower upper (Value.isName_text s) (Model.find?_text hnew))
    · dsimp only
      rw [exec_bind_of_ok (exec_pure _ n)]
      exact declareRead_evolves domain lower upper ⟨‹_›, hkey, hname⟩ hfree
  · rw [addVariable, exec_bind_of_error hx]
    exact .of_sameContent hs

/-- The names of several variables are texts, or there are none. -/
theorem isSettled_of_variableNames {count : Nat} {stem : Value K} {names : List (Value K)}
    (h : variableNames count stem = .ok names) : ∀ n ∈ names, n.isSettled = true := by
  unfold variableNames at h
  split at h
  · cases h
    intro n hn
    rw [List.eq_of_mem_replicate hn]
    rfl
  · intro n hn
    obtain ⟨i, -, hi⟩ := exists_of_forall₂ (forall₂_of_mapM_eq_ok h) hn
    obtain ⟨s, -, ⟨⟩⟩ := bind_eq_ok.1 hi
    rfl

theorem addVariables_moves (count domain lower upper stem : Value K) :
    Moves Model.Evolves (addVariables count domain lower upper stem) := by
  refine .bind (.lift _) fun n => .lift_bind fun names hnames => ?_
  refine .bind (.forIn (fun name _ _ => ?_) _) fun _ => .mapM fun name hname => ?_
  · exact .bind (requireNewName_moves name) fun _ => .pure _
  · exact addVariable_moves domain lower upper (isSettled_of_variableNames hnames name hname)

/-! ### Rows -/

/-- A row that has been taken in can be handed over again. -/
theorem IsTaken.isMade {m n : Model K} {c d : Constraint K} {name : Value K}
    (h : IsTaken m c name d n) (hc : c.expr.IsMade) (hown : c.name.isSettled = true)
    (hname : name.isSettled = true) : d.expr.IsMade ∧ d.name.isSettled = true := by
  obtain ⟨k, -, -, hd, -, hchosen⟩ := h
  refine ⟨hd ▸ hc, ?_⟩
  rcases hchosen with h | ⟨s, h⟩
  · rw [h]
    split
    · exact hname
    · exact hown
  · rw [h]
    rfl

/-- **A model evolves with a row** that is taken in under a name that is free. -/
theorem register_moves {c : Constraint K} {name : Value K} (hc : c.expr.IsMade)
    (hown : c.name.isSettled = true) (hname : name.isSettled = true) :
    Moves Model.Evolves (register c name) := by
  refine AllOrNothing.moves .of_sameContent (register_taken c name) fun m d k h => ?_
  obtain ⟨hexpr, hsettled⟩ := h.isMade hc hown hname
  obtain ⟨n, hs, hfree, -, rfl, -⟩ := h
  exact trans_of Model.Evolves (.of_sameContent hs)
    (.withRow ⟨hfree.key.1, hfree.key.2, hsettled⟩ hfree.free hexpr)

theorem register_answers {c : Constraint K} {name : Value K} (hc : c.expr.IsMade)
    (hown : c.name.isSettled = true) (hname : name.isSettled = true) :
    Answers (fun d : Constraint K => d.expr.IsMade ∧ d.name.isSettled = true) (register c name) :=
  fun m _ _ h => ((register_taken c name m).of_ok h).isMade hc hown hname

/-- The row that has been taken in last, as it is answered. -/
theorem lastRow_answers {c : Constraint K} (hc : c.expr.IsMade ∧ c.name.isSettled = true) :
    Answers Value.IsMade (lastRow c) :=
  .bind fun _ => .pure hc

end Build

end MixedInteger
