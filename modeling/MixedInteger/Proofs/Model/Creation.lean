import MixedInteger.Proofs.Model.Names
import MixedInteger.Proofs.Model.Step
import MixedInteger.Proofs.Number.Laws

/-!
# New variables and new rows

Each reformulation is put together from a few small steps: a name from a counter, a variable with
bounds, a row taken in.  This file has one statement for each of them, about the model after it and
about whether it can fail.

## What is here

* `Model.Grown` — a model that has got more variables and rows, and otherwise says the same.
* `Interval.isProper`, `Variable.IsProper` — the bounds that a variable can have.
* `Build.exec_declare`, `Build.declare_spec` — the next variable of a model is created.
* `Build.auxiliary_spec`, `Build.selector_spec` — auxiliary variables.
* `Build.register_spec`, `Build.registerAll_spec` — nameless rows are always taken in.
-/

set_option autoImplicit false

namespace MixedInteger

variable {K : Type}

theorem Model.SameContent.names [Arithmetic K] {m m' : Model K} (h : m.SameContent m')
    (hm : m.NamesDistinct) : m'.NamesDistinct := by
  refine ⟨?_, ?_, ?_, ?_⟩
  · rw [h.rowNames_eq, h.constraints_eq, hm.rowNames_eq]
  · rw [h.rowNames_eq]
    exact hm.keys
  · rw [h.rowNames_eq]
    exact hm.apart
  · rw [Model.variableNames, h.vars_eq]
    exact hm.vars

section Growth

variable [Arithmetic K]

open Arithmetic

/-! ## Bounds -/

/-- Whether a variable can have these bounds: they are numbers and do not cross. -/
def Interval.isProper (i : Interval K) : Bool :=
  !(isNaN i.lower || isNaN i.upper || lt i.upper i.lower)

/-- The bounds of a variable of a domain for which these bounds are asked. -/
def Domain.bounds (d : Domain) (lower upper : K) : Interval K :=
  if d = .binary then ⟨zero, one⟩ else ⟨lower, upper⟩

/-- The bounds of a variable are as they have to be. -/
structure Variable.IsProper (v : Variable K) : Prop where
  interval : v.interval.isProper = true
  binary : v.domain = .binary → v.interval = ⟨zero, one⟩

/-- The kind and the bounds of a variable. -/
structure Variable.IsOf (v : Variable K) (d : Domain) (i : Interval K) : Prop where
  domain_eq : v.domain = d
  interval_eq : v.interval = i

namespace Model

/-- The variable that a model creates next. -/
def nextVariable (m : Model K) (name : Value K) (d : Domain) (lower upper : K) : Variable K :=
  ⟨⟨m.id, m.vars.length⟩, name, d, (d.bounds lower upper).lower, (d.bounds lower upper).upper⟩

theorem isProper_nextVariable (m : Model K) (name : Value K) {d : Domain} {lower upper : K}
    (hp : (d.bounds lower upper).isProper = true) : (m.nextVariable name d lower upper).IsProper :=
  ⟨hp, fun hd => if_pos hd⟩

/-! ## Growth -/

/-- A model with some more variables and some more constraints at the end, where the constraints are
known up to their names.  Names that were apart still are. -/
structure Grown (m : Model K) (vs : List (Variable K)) (cs : List (Constraint K)) (m' : Model K) :
    Prop where
  id_eq : m'.id = m.id
  vars_eq : m'.vars = m.vars ++ vs
  ids : ∀ i (h : i < vs.length), vs[i].id = ⟨m.id, m.vars.length + i⟩
  proper : ∀ v ∈ vs, v.IsProper
  constraints_eq : ∃ named : List (Constraint K), m'.constraints = m.constraints ++ named ∧
    named.map (fun c => c.withName .none) = cs.map fun c => c.withName .none
  objective_eq : m'.objective = m.objective
  direction_eq : m'.direction = m.direction
  names : m.NamesDistinct → m'.NamesDistinct

theorem SameContent.grown {m m' : Model K} (h : m.SameContent m') : m.Grown [] [] m' where
  id_eq := h.id_eq
  vars_eq := by rw [h.vars_eq, List.append_nil]
  ids i hi := absurd hi (Nat.not_lt_zero i)
  proper v hv := absurd hv List.not_mem_nil
  constraints_eq := ⟨[], by rw [h.constraints_eq, List.append_nil], rfl⟩
  objective_eq := h.objective_eq
  direction_eq := h.direction_eq
  names := h.names

theorem Grown.refl (m : Model K) : m.Grown [] [] m := (SameContent.refl m).grown

theorem Grown.trans {m n k : Model K} {vs ws : List (Variable K)} {cs ds : List (Constraint K)}
    (h : m.Grown vs cs n) (h' : n.Grown ws ds k) : m.Grown (vs ++ ws) (cs ++ ds) k where
  id_eq := h'.id_eq.trans h.id_eq
  vars_eq := by rw [h'.vars_eq, h.vars_eq, List.append_assoc]
  ids i hi := by
    rcases Nat.lt_or_ge i vs.length with hlt | hge
    · rw [List.getElem_append_left hlt, h.ids i hlt]
    · rw [List.getElem_append_right hge, h'.ids, h.id_eq, h.vars_eq, List.length_append]
      congr 1
      omega
  proper v hv := (List.mem_append.1 hv).elim (h.proper v) (h'.proper v)
  constraints_eq := by
    obtain ⟨named, hc, hn⟩ := h.constraints_eq
    obtain ⟨named', hc', hn'⟩ := h'.constraints_eq
    refine ⟨named ++ named', ?_, ?_⟩
    · rw [hc', hc, List.append_assoc]
    · rw [List.map_append, List.map_append, hn, hn']
  objective_eq := h'.objective_eq.trans h.objective_eq
  direction_eq := h'.direction_eq.trans h.direction_eq
  names hm := h'.names (h.names hm)

end Model

end Growth

namespace Build

open Arithmetic

/-! ## Names -/

/-- A name from a counter is not in use. -/
theorem auxiliaryName_spec (stem : String) (m : Model K) :
    Succeeds (auxiliaryName stem) m fun s n =>
      m.SameContent n ∧ s ∉ textNames n.variableNames := by
  refine ⟨_, _, rfl, ⟨rfl, rfl, rfl, rfl, rfl, rfl, rfl⟩, ?_⟩
  exact firstFree_unused (label_injective (stem ++ "_")) _

theorem freshVariableName_spec (m : Model K) :
    Succeeds freshVariableName m fun s n =>
      m.SameContent n ∧ s ∉ textNames n.variableNames := by
  refine ⟨_, _, rfl, ⟨rfl, rfl, rfl, rfl, rfl, rfl, rfl⟩, ?_⟩
  exact firstFree_unused (label_injective "x") _

theorem freshConstraintName_spec (m : Model K) :
    Succeeds freshConstraintName m fun s n => m.SameContent n ∧ s ∉ textNames n.rowNames := by
  refine ⟨_, _, rfl, ⟨rfl, rfl, rfl, rfl, rfl, rfl, rfl⟩, ?_⟩
  exact firstFree_unused (label_injective "c") _

theorem lastRows_spec (k : Nat) (m : Model K) :
    Succeeds (lastRows k) m fun rows m' => rows = m.rows.drop (m.constraints.length - k) ∧ m' = m :=
  ⟨_, _, rfl, rfl, rfl⟩

variable [Arithmetic K]

/-- No variable is found under a name that passes. -/
theorem requireNewName_spec (name : Value K) (m : Model K) :
    AllOrNothing (requireNewName name) m fun _ n =>
      n = m ∧ name.isKey = true ∧ m.find? name = none := by
  cases hk : name.isKey with
  | false =>
    simp only [requireNewName, hk, Bool.not_false, if_true]
    exact .throw _
  | true =>
    cases hf : m.find? name with
    | none =>
      refine .inl ⟨⟨⟩, m, ?_, rfl, rfl, rfl⟩
      simp [requireNewName, hk, exec_bind, hf]
    | some v =>
      right
      rcases hd : name.display with e | s
      · exact ⟨e, m, by simp [requireNewName, hk, exec_bind, hf, hd], .refl m⟩
      · exact ⟨_, m, by simp [requireNewName, hk, exec_bind, hf, hd]; rfl, .refl m⟩

/-! ## Variables -/

/-- What is known of a variable that has been created with some bounds. -/
def IsCreated (m : Model K) (d : Domain) (i : Interval K) (v : Variable K) (m' : Model K) : Prop :=
  i.isProper = true ∧ v.IsOf d i ∧ m.Grown [v] [] m'

/-- With proper bounds a variable is created. -/
theorem exec_declare {name : Value K} {d : Domain} {lower upper : K} (m : Model K)
    (hp : (d.bounds lower upper).isProper = true) :
    exec (declare name d lower upper) m = (.ok (m.nextVariable name d lower upper),
      { m with vars := m.vars ++ [m.nextVariable name d lower upper] }) := by
  rw [Interval.isProper, Bool.not_eq_true', Domain.bounds] at hp
  rw [declare]
  simp only [hp, Bool.false_eq_true, if_false]
  rfl

/-- With other bounds nothing happens. -/
theorem exec_declare_of_not_isProper (name : Value K) {d : Domain} {lower upper : K} (m : Model K)
    (hp : (d.bounds lower upper).isProper = false) :
    ∃ e, exec (declare name d lower upper) m = (.error e, m) := by
  rw [Interval.isProper, Bool.not_eq_false', Domain.bounds] at hp
  rw [declare]
  simp only [hp, if_true]
  rcases name.display with e | s
  · exact ⟨e, rfl⟩
  · exact ⟨_, rfl⟩

/-- **A variable that is created is the next one**, with the bounds that were asked. -/
theorem declare_spec {name : Value K} (d : Domain) (lower upper : K) {m : Model K}
    (hn : ∀ s, name = .text s → s ∉ textNames m.variableNames) :
    AllOrNothing (declare name d lower upper) m (IsCreated m d (d.bounds lower upper)) := by
  cases hp : (d.bounds lower upper).isProper with
  | false =>
    obtain ⟨e, he⟩ := exec_declare_of_not_isProper name m hp
    exact .inr ⟨e, m, he, .refl m⟩
  | true =>
    refine .inl ⟨_, _, exec_declare m hp, hp, ⟨rfl, rfl⟩, rfl, rfl, ?_, ?_, ⟨[], by simp, rfl⟩, rfl,
      rfl, ?_⟩
    · intro i hi
      obtain rfl : i = 0 := by simpa using hi
      rfl
    · intro v hv
      rw [List.mem_singleton.1 hv]
      exact Model.isProper_nextVariable m name hp
    · exact fun hm => hm.addVar hn

/-- With proper bounds a variable is always created. -/
theorem declare_succeeds {name : Value K} {d : Domain} {lower upper : K} {m : Model K}
    {P : Variable K → Model K → Prop} (hp : (d.bounds lower upper).isProper = true)
    (h : AllOrNothing (declare name d lower upper) m P) :
    Succeeds (declare name d lower upper) m P := by
  rcases h with h | ⟨e, n, he, -⟩
  · exact h
  · rw [exec_declare m hp] at he
    cases he

theorem auxiliary_spec (stem : String) (d : Domain) (lower upper : K) (m : Model K) :
    AllOrNothing (auxiliary stem d lower upper) m (IsCreated m d (d.bounds lower upper)) := by
  refine .bind (auxiliaryName_spec stem m).allOrNothing (fun s n h => h.1) ?_
  rintro s n ⟨hs, hn⟩
  refine (declare_spec d lower upper ?_).mono ?_
  · rintro t ⟨⟩
    exact hn
  · rintro v m' ⟨hp, hv, hg⟩
    exact ⟨hp, hv, hs.grown.trans hg⟩

/-- With proper bounds an auxiliary variable is always created. -/
theorem auxiliary_succeeds (stem : String) {d : Domain} {lower upper : K} (m : Model K)
    (hp : (d.bounds lower upper).isProper = true) :
    Succeeds (auxiliary stem d lower upper) m (IsCreated m d (d.bounds lower upper)) := by
  refine .bind (auxiliaryName_spec stem m) ?_
  rintro s n ⟨hs, hn⟩
  refine (declare_succeeds hp (declare_spec d lower upper ?_)).mono ?_
  · rintro t ⟨⟩
    exact hn
  · rintro v m' ⟨hp, hv, hg⟩
    exact ⟨hp, hv, hs.grown.trans hg⟩

theorem isProper_unit [Sensible K] : (⟨zero, one⟩ : Interval K).isProper = true := by
  simp [Interval.isProper, Sensible.isNaN_zero, Sensible.isNaN_one, Sensible.lt_one_zero]

/-- **An auxiliary binary variable is always created.** -/
theorem selector_spec [Sensible K] (stem : String) (m : Model K) :
    Succeeds (selector stem) m (IsCreated m .binary ⟨zero, one⟩) :=
  auxiliary_succeeds stem m isProper_unit

/-! ## Rows -/

/-- **A nameless row is always taken in.** -/
theorem register_spec {c : Constraint K} (hc : c.name = .none) (m : Model K) :
    Succeeds (register c .none) m fun _ m' => m.Grown [] [c] m' := by
  obtain ⟨s, n, hn, hs, hfree⟩ := freshConstraintName_spec m
  refine ⟨c.withName (.text s), n.withRow (c.withName (.text s)), ?_, ?_⟩
  · simp only [register, hc, Value.isPresent, Bool.false_eq_true, if_false]
    rw [exec_bind_of_ok hn]
    rfl
  · have hg : n.Grown [] [c] (n.withRow (c.withName (.text s))) := by
      refine ⟨rfl, (List.append_nil _).symm, fun i hi => absurd hi (Nat.not_lt_zero i),
        fun v hv => absurd hv List.not_mem_nil, ⟨[c.withName (.text s)], rfl, rfl⟩, rfl, rfl, ?_⟩
      exact fun hm => hm.withRow (Model.isFree_text hfree)
    exact hs.grown.trans hg

/-- **Nameless rows are always taken in.** -/
theorem registerAll_spec {cs : List (Constraint K)} (hcs : ∀ c ∈ cs, c.name = .none)
    (m : Model K) : Succeeds (registerAll cs) m fun _ m' => m.Grown [] cs m' := by
  induction cs generalizing m with
  | nil => exact .pure (.refl m)
  | cons c cs ih =>
    rw [registerAll, List.mapM_cons]
    refine .bind (register_spec (hcs c List.mem_cons_self) m) fun d n hg => ?_
    refine .bind (ih (fun d hd => hcs d (List.mem_cons_of_mem _ hd)) n) fun ds m' hg' => ?_
    exact .pure (hg.trans hg')

end Build

end MixedInteger
