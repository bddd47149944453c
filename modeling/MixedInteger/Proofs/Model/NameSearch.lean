import MixedInteger.Proofs.Model.Registry

/-!
# Searches for names

Names that a caller does not give are searched for: from a counter on, one number after another is
tried, until the label of one is not in use.  Nothing bounds such a search but the number of names
in use: each of them is the label of one number at most.  And since each search leaves its counter
behind the number that it has found, no later one finds the same label again, whatever has been
registered or has failed in between.

## What is here

* `NameSearch` — the searches of a model: for variables, for auxiliary variables under a stem, and
  for rows.
* `Tries`, `NameSearch.tries` — the search, one number after another, and **how soon it ends**.
* `Searches` — the searches that a building step makes, with the names that they find.
* `NameSearch.Run` — building steps one after another, whether they succeed or not.
* `NameSearch.Run.findsNew` — **what the searches of a run find is new each time**.
-/

set_option autoImplicit false

namespace MixedInteger

variable {K : Type}

/-! ## The searches of a model -/

/-- A search for a name. -/
inductive NameSearch where
  /-- The name of a variable. -/
  | ordinary
  /-- The name of an auxiliary variable under a stem. -/
  | auxiliary (stem : String)
  /-- The name of a row. -/
  | row
  deriving DecidableEq

namespace NameSearch

/-- The search as a building step. -/
def run : NameSearch → Build K String
  | ordinary => Build.freshVariableName
  | auxiliary stem => Build.auxiliaryName stem
  | row => Build.freshConstraintName

/-- The label of a number. -/
def label : NameSearch → ℕ → String
  | ordinary, i => s!"x{i}"
  | auxiliary stem, i => s!"{stem}_{i}"
  | row, i => s!"c{i}"

/-- The number at which the search starts.  Auxiliary variables share one, whatever their stem. -/
def counter (m : Model K) : NameSearch → ℕ
  | ordinary => m.variableCounter
  | auxiliary _ => m.auxiliaryCounter
  | row => m.constraintCounter

/-- The model with another number at which the search starts. -/
def moveTo (m : Model K) (n : ℕ) : NameSearch → Model K
  | ordinary => { m with variableCounter := n }
  | auxiliary _ => { m with auxiliaryCounter := n }
  | row => { m with constraintCounter := n }

/-- The names that have been registered where the search looks. -/
def names (m : Model K) : NameSearch → List (Value K)
  | ordinary | auxiliary _ => m.variableNames
  | row => m.rowNames

/-- Whether a name is in use where the search looks. -/
def isTaken [Arithmetic K] (m : Model K) (name : String) : NameSearch → Bool
  | ordinary | auxiliary _ => (m.find? (.text name)).isSome
  | row => m.hasRow (.text name)

theorem label_inj (s : NameSearch) (i j : ℕ) (h : s.label i = s.label j) : i = j := by
  cases s with
  | ordinary => exact label_injective "x" i j h
  | auxiliary stem => exact label_injective (stem ++ "_") i j h
  | row => exact label_injective "c" i j h

/-- A search answers the label of the first free number and leaves its counter behind it. -/
theorem exec_run (s : NameSearch) (m : Model K) {i : ℕ}
    (h : firstFree (textNames (s.names m)) s.label (s.counter m) = i) :
    Build.exec s.run m = (.ok (s.label i), s.moveTo m (i + 1)) := by
  subst h
  cases s <;> rfl

theorem counter_moveTo (s t : NameSearch) (m : Model K) {n : ℕ} (h : s.counter m ≤ n) :
    t.counter m ≤ t.counter (s.moveTo m n) := by
  cases s <;> cases t <;> first | exact h | exact le_rfl

theorem counter_moveTo_self (s : NameSearch) (m : Model K) (n : ℕ) :
    s.counter (s.moveTo m n) = n := by
  cases s <;> rfl

theorem isTaken_iff [Arithmetic K] (s : NameSearch) (m : Model K) (name : String) :
    s.isTaken m name = true ↔ name ∈ textNames (s.names m) := by
  have hvariable : (m.find? (.text name)).isSome = true ↔ name ∈ textNames m.variableNames := by
    rw [Option.isSome_iff_ne_none, ne_eq, not_iff_comm]
    exact ⟨Model.find?_text, Model.not_mem_variableNames⟩
  cases s with
  | ordinary => exact hvariable
  | auxiliary stem => exact hvariable
  | row =>
    rw [isTaken, Model.hasRow, List.any_eq_true, names, mem_textNames]
    constructor
    · rintro ⟨n, hn, hsame⟩
      exact Value.eq_of_sameKey_text hsame ▸ hn
    · exact fun h => ⟨_, h, by rw [Value.sameKey_text, beq_self_eq_true]⟩

end NameSearch

/-! ## How soon a search ends -/

/-- A search that starts at a number, after so many tries, ends at another: each try asks whether
the label of one number is taken, and goes on to the next number if it is. -/
inductive Tries (taken : String → Bool) (label : ℕ → String) : ℕ → ℕ → ℕ → Prop
  | found {i : ℕ} (h : taken (label i) = false) : Tries taken label i 1 i
  | next {i tries j : ℕ} (h : taken (label i) = true) (rest : Tries taken label (i + 1) tries j) :
    Tries taken label i (tries + 1) j

/-- A search ends at the first number whose label is not taken. -/
theorem Tries.of_first {taken : String → Bool} {label : ℕ → String} {start j : ℕ} (hle : start ≤ j)
    (hfree : taken (label j) = false) (htaken : ∀ i, start ≤ i → i < j → taken (label i) = true) :
    Tries taken label start (j - start + 1) j := by
  obtain ⟨k, rfl⟩ := Nat.exists_eq_add_of_le hle
  rw [Nat.add_sub_cancel_left]
  induction k generalizing start with
  | zero => exact .found hfree
  | succ k ih =>
    have hnext : start + (k + 1) = start + 1 + k := by omega
    rw [hnext] at hfree htaken ⊢
    refine .next (htaken start le_rfl (by omega)) (ih (by omega) hfree fun i hi hlt => ?_)
    exact htaken i (by omega) hlt

/-- **The number that is found is the first one** whose label is not in use, and there are no more
numbers before it than names in use. -/
theorem firstFree_first (used : List String) {label : ℕ → String}
    (hl : ∀ i j, label i = label j → i = j) (start : ℕ) :
    start ≤ firstFree used label start ∧
      firstFree used label start ≤ start + used.length ∧
      ∀ i, start ≤ i → i < firstFree used label start → label i ∈ used := by
  obtain ⟨i, hi, hfree⟩ := exists_unused used hl start
  rw [firstFree]
  cases hf : (List.range' start (used.length + 1)).find? fun i => !used.contains (label i) with
  | none =>
    have hused := List.find?_eq_none.1 hf i hi
    simp [hfree] at hused
  | some j =>
    obtain ⟨-, hj, hbefore⟩ := List.find?_range'_eq_some.1 hf
    rw [List.mem_range'_1] at hj
    refine ⟨hj.1, by simp only [Option.getD_some]; omega, fun i hi hlt => ?_⟩
    simpa using hbefore i hi hlt

/-- **A search ends** after at most one more try than there are registered names, at a name that is
not in use. -/
theorem NameSearch.tries [Arithmetic K] (s : NameSearch) (m : Model K) : ∃ tries i,
    Tries (s.isTaken m) s.label (s.counter m) tries i ∧ tries ≤ (s.names m).length + 1 ∧
      Build.exec s.run m = (.ok (s.label i), s.moveTo m (i + 1)) ∧
      s.isTaken m (s.label i) = false ∧ s.counter m ≤ i := by
  obtain ⟨hle, hbound, htaken⟩ := firstFree_first (textNames (s.names m)) s.label_inj
    (s.counter m)
  have hlen : (textNames (s.names m)).length ≤ (s.names m).length := List.length_filterMap_le _ _
  have hfree : s.isTaken m (s.label (firstFree (textNames (s.names m)) s.label (s.counter m))) =
      false := by
    rw [Bool.eq_false_iff, ne_eq, s.isTaken_iff]
    exact firstFree_unused s.label_inj _
  refine ⟨_, _, .of_first hle hfree fun i hi hlt => (s.isTaken_iff m _).2 (htaken i hi hlt),
    by omega, s.exec_run m rfl, hfree, hle⟩

/-! ## The searches of a building step -/

/-- The searches that a building step makes on a model, in their order, with the names that they
find.  What leaves all counters as they are makes none, whatever else it does to the model. -/
inductive Searches : {α : Type} → Build K α → Model K → List (NameSearch × String) → Prop
  | search (s : NameSearch) {m n : Model K} {name : String}
    (h : Build.exec s.run m = (.ok name, n)) : Searches s.run m [(s, name)]
  | quiet {α : Type} {x : Build K α} {m : Model K}
    (h : ∀ s : NameSearch, s.counter (Build.exec x m).2 = s.counter m) : Searches x m []
  | bind_ok {α β : Type} {x : Build K α} {f : α → Build K β} {m n : Model K} {a : α}
    {log log' : List (NameSearch × String)} (hx : Searches x m log)
    (ha : Build.exec x m = (.ok a, n)) (hf : Searches (f a) n log') :
    Searches (x >>= f) m (log ++ log')
  | bind_error {α β : Type} {x : Build K α} {f : α → Build K β} {m n : Model K} {e : Fault}
    {log : List (NameSearch × String)} (hx : Searches x m log)
    (he : Build.exec x m = (.error e, n)) : Searches (x >>= f) m log

/-- From one model to another, searches have found names by numbers that lie between the counters of
the two, and each of them once. -/
structure FindsNew (m : Model K) (log : List (NameSearch × String)) (n : Model K) : Prop where
  counter_le : ∀ s : NameSearch, s.counter m ≤ s.counter n
  labelled : ∀ s name, (s, name) ∈ log →
    ∃ i, s.counter m ≤ i ∧ i < s.counter n ∧ name = s.label i
  nodup : log.Nodup

namespace FindsNew

variable {m n k : Model K} {log log' : List (NameSearch × String)}

theorem nil (h : ∀ s : NameSearch, s.counter n = s.counter m) : FindsNew m [] n :=
  ⟨fun s => (h s).ge, fun _ _ h => absurd h List.not_mem_nil, List.nodup_nil⟩

theorem append (h : FindsNew m log n) (h' : FindsNew n log' k) : FindsNew m (log ++ log') k := by
  refine ⟨fun s => (h.counter_le s).trans (h'.counter_le s), fun s name hs => ?_,
    List.nodup_append.2 ⟨h.nodup, h'.nodup, ?_⟩⟩
  · rcases List.mem_append.1 hs with hs | hs
    · obtain ⟨i, hge, hlt, hname⟩ := h.labelled s name hs
      exact ⟨i, hge, hlt.trans_le (h'.counter_le s), hname⟩
    · obtain ⟨i, hge, hlt, hname⟩ := h'.labelled s name hs
      exact ⟨i, (h.counter_le s).trans hge, hlt, hname⟩
  · -- what is found later has a number that the counter had left behind
    rintro ⟨s, name⟩ hs _ hs' rfl
    obtain ⟨i, -, hlt, hname⟩ := h.labelled s name hs
    obtain ⟨j, hge, -, hname'⟩ := h'.labelled s name hs'
    have hij : i = j := s.label_inj i j (hname.symm.trans hname')
    omega

end FindsNew

theorem NameSearch.findsNew [Arithmetic K] (s : NameSearch) {m n : Model K} {name : String}
    (h : Build.exec s.run m = (.ok name, n)) : FindsNew m [(s, name)] n := by
  obtain ⟨-, i, -, -, hx, -, hle⟩ := s.tries m
  obtain ⟨rfl, rfl⟩ : s.label i = name ∧ s.moveTo m (i + 1) = n := by
    rw [h] at hx
    cases hx
    exact ⟨rfl, rfl⟩
  refine ⟨fun t => s.counter_moveTo t m (by omega), ?_, List.nodup_singleton _⟩
  intro t name ht
  cases List.mem_singleton.1 ht
  exact ⟨i, hle, by rw [s.counter_moveTo_self]; omega, rfl⟩

/-- **What the searches of a building step find is new each time.** -/
theorem Searches.findsNew [Arithmetic K] {α : Type} {x : Build K α} {m : Model K}
    {log : List (NameSearch × String)} (h : Searches x m log) :
    FindsNew m log (Build.exec x m).2 := by
  induction h with
  | search s h =>
    rw [h]
    exact s.findsNew h
  | quiet h => exact .nil h
  | bind_ok _ ha _ ihx ihf =>
    rw [ha] at ihx
    rw [Build.exec_bind_of_ok ha]
    exact ihx.append ihf
  | bind_error _ he ih =>
    rw [he] at ih
    rw [Build.exec_bind_of_error he]
    exact ih

namespace NameSearch

/-- Building steps one after another, each on the model that the one before has left, whether that
one has succeeded or not, with all their searches. -/
inductive Run : Model K → List (NameSearch × String) → Model K → Prop
  | nil (m : Model K) : Run m [] m
  | step {α : Type} {x : Build K α} {m n : Model K} {log log' : List (NameSearch × String)}
    (h : Searches x m log) (rest : Run (Build.exec x m).2 log' n) : Run m (log ++ log') n

/-- **What the searches of a run find is new each time.** -/
theorem Run.findsNew [Arithmetic K] {m n : Model K} {log : List (NameSearch × String)}
    (h : Run m log n) : FindsNew m log n := by
  induction h with
  | nil m => exact .nil fun _ => rfl
  | step h _ ih => exact h.findsNew.append ih

end NameSearch

end MixedInteger
