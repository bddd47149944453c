import MixedInteger.Model.Build
import Mathlib

/-!
# Names

Names that a caller does not give are searched for among the numbered labels of a stem.  The search
always finds one that is not in use, so the names of a model stay apart.

## What is here

* `firstFree_unused` — the label that the search finds is not in use.
* `Model.NamesDistinct` — variables and rows have names of their own, with one statement for each
  way in which a model gets a new name.
-/

set_option autoImplicit false

namespace MixedInteger

variable {K : Type}

/-! ## The search -/

/-- Among one more labels than there are names in use, one is free. -/
theorem exists_unused (used : List String) {label : Nat → String}
    (hl : ∀ i j, label i = label j → i = j) (start : Nat) :
    ∃ i ∈ List.range' start (used.length + 1), label i ∉ used := by
  refine Classical.byContradiction fun h => ?_
  have hall : ∀ i ∈ List.range' start (used.length + 1), label i ∈ used := by
    intro i hi
    exact Classical.byContradiction fun hn => h ⟨i, hi, hn⟩
  have hnd : ((List.range' start (used.length + 1)).map label).Nodup :=
    List.Pairwise.map label (fun i j hij hlab => hij (hl i j hlab)) List.nodup_range'
  have hsub : (List.range' start (used.length + 1)).map label ⊆ used := by
    intro s hs
    obtain ⟨i, hi, rfl⟩ := List.mem_map.1 hs
    exact hall i hi
  have := hnd.length_le_of_subset hsub
  rw [List.length_map, List.length_range'] at this
  omega

/-- **The label that the search finds is not in use.** -/
theorem firstFree_unused {used : List String} {label : Nat → String}
    (hl : ∀ i j, label i = label j → i = j) (start : Nat) :
    label (firstFree used label start) ∉ used := by
  obtain ⟨i, hi, hfree⟩ := exists_unused used hl start
  rw [firstFree]
  cases hf : (List.range' start (used.length + 1)).find? fun i => !used.contains (label i) with
  | none =>
    have := List.find?_eq_none.1 hf i hi
    simp [hfree] at this
  | some j =>
    have := List.find?_some hf
    simpa using this

/-- The labels under a stem are different for different numbers. -/
theorem label_injective (stem : String) (i j : Nat)
    (h : stem ++ toString i = stem ++ toString j) : i = j :=
  Nat.repr_injective ((String.append_right_inj stem).1 h)

/-! ## Names that stay apart -/

theorem textNames_append (xs ys : List (Value K)) :
    textNames (xs ++ ys) = textNames xs ++ textNames ys :=
  List.filterMap_append

theorem mem_textNames {xs : List (Value K)} {s : String} : s ∈ textNames xs ↔ .text s ∈ xs := by
  rw [textNames, List.mem_filterMap]
  constructor
  · rintro ⟨v, hv, hs⟩
    cases v with
    | text t =>
      cases hs
      exact hv
    | _ => cases hs
  · intro h
    exact ⟨_, h, rfl⟩

/-- Only a text is found under itself. -/
theorem Value.eq_of_sameKey_text [Arithmetic K] {v : Value K} {s : String}
    (h : v.sameKey (.text s) = true) : v = .text s := by
  cases v with
  | text t => rw [eq_of_beq ((sameKey_text t s).symm.trans h)]
  | constraint c id => cases id <;> cases h
  | _ => cases h

/-- A text finds only itself. -/
theorem Value.eq_of_text_sameKey [Arithmetic K] {v : Value K} {s : String}
    (h : Value.sameKey (.text s) v = true) : v = .text s := by
  cases v with
  | text t => rw [eq_of_beq ((sameKey_text s t).symm.trans h)]
  | constraint c id => cases id <;> cases h
  | _ => cases h

theorem Value.eq_text_of_text? {v : Value K} {s : String} (h : v.text? = some s) : v = .text s := by
  cases v <;> cases h
  rfl

theorem textNames_singleton (v : Value K) : textNames [v] = v.text?.toList := by
  cases v <;> rfl

/-- Names are still apart after one more that is not among them. -/
theorem nodup_textNames_concat {xs : List (Value K)} {name : Value K}
    (hxs : (textNames xs).Nodup) (h : ∀ s, name = .text s → s ∉ textNames xs) :
    (textNames (xs ++ [name])).Nodup := by
  rw [textNames_append, textNames_singleton]
  cases hn : name.text? with
  | none => rwa [Option.toList_none, List.append_nil]
  | some s =>
    have hs : name = .text s := Value.eq_text_of_text? hn
    refine List.nodup_append.2 ⟨hxs, List.pairwise_singleton _ s, ?_⟩
    intro a ha b hb hab
    rw [hab, List.mem_singleton.1 hb] at ha
    exact h s hs ha

namespace Model

variable [Arithmetic K]

/-- The rows are known by their names.  Each row has a name that can be looked up and is not found
under the name of a row before it, and no two variables have one text as their name. -/
structure NamesDistinct (m : Model K) : Prop where
  rowNames_eq : m.rowNames = m.constraints.map fun c => c.name
  keys : ∀ n ∈ m.rowNames, n ≠ .none ∧ n.isKey = true
  apart : m.rowNames.Pairwise fun n k => n.sameKey k = false
  vars : (textNames m.variableNames).Nodup

theorem namesDistinct_empty (id : Nat) (name : Value K) : (empty id name).NamesDistinct :=
  ⟨rfl, fun _ h => absurd h List.not_mem_nil, .nil, List.nodup_nil⟩

/-- No two rows have one text as their name. -/
theorem NamesDistinct.rows {m : Model K} (h : m.NamesDistinct) : (textNames m.rowNames).Nodup := by
  rw [textNames]
  refine List.Pairwise.filterMap _ (fun n k hne s hs t ht hst => ?_) h.apart
  cases n with
  | text s' =>
    cases k with
    | text t' =>
      cases hs
      cases ht
      simp [Value.sameKey_text, hst] at hne
    | _ => cases ht
  | _ => cases hs

theorem NamesDistinct.addVar {m : Model K} (h : m.NamesDistinct) {v : Variable K}
    (hv : ∀ s, v.name = .text s → s ∉ textNames m.variableNames) :
    NamesDistinct { m with vars := m.vars ++ [v] } := by
  refine ⟨h.rowNames_eq, h.keys, h.apart, ?_⟩
  rw [variableNames, List.map_append]
  exact nodup_textNames_concat h.vars hv

omit [Arithmetic K] in
/-- The model that has taken in one more row. -/
def withRow (m : Model K) (c : Constraint K) : Model K :=
  { m with constraints := m.constraints ++ [c], rowNames := m.rowNames ++ [c.name] }

/-- A name that no row has is free. -/
structure IsFree (m : Model K) (name : Value K) : Prop where
  key : name ≠ .none ∧ name.isKey = true
  free : m.hasRow name = false

theorem NamesDistinct.withRow {m : Model K} (h : m.NamesDistinct) {c : Constraint K}
    (hc : m.IsFree c.name) : (m.withRow c).NamesDistinct := by
  refine ⟨?_, ?_, ?_, h.vars⟩
  · rw [Model.withRow, List.map_append, h.rowNames_eq]
    rfl
  · exact List.forall_mem_append.2 ⟨h.keys, List.forall_mem_singleton.2 hc.key⟩
  · refine List.pairwise_append.2 ⟨h.apart, List.pairwise_singleton _ _, fun n hn k hk => ?_⟩
    rw [List.mem_singleton.1 hk]
    exact Bool.eq_false_iff.2 (List.any_eq_false.1 hc.free n hn)

/-- A text under which no variable is found is not the name of one. -/
theorem not_mem_variableNames {m : Model K} {s : String}
    (h : m.find? (.text s) = none) : s ∉ textNames m.variableNames := by
  rw [mem_textNames, variableNames, List.mem_map]
  rintro ⟨v, hv, hn⟩
  have := List.find?_eq_none.1 h v hv
  simp [hn, Value.sameKey_text] at this

/-- A text that is not the name of a row is free. -/
theorem isFree_text {m : Model K} {s : String} (h : s ∉ textNames m.rowNames) :
    m.IsFree (.text s) := by
  refine ⟨⟨nofun, rfl⟩, List.any_eq_false.2 fun n hn hsame => h (mem_textNames.2 ?_)⟩
  exact Value.eq_of_sameKey_text hsame ▸ hn

end Model

end MixedInteger
