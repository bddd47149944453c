import MixedInteger.Proofs.Model.WellFormed
import MixedInteger.Session.Portrait

/-!
# Names that look different

The names within a model are values, and what some of them look like changes from time to time.
They are still told apart in the same way, and a model stays well-formed.

## What is here

* `Value.text?_repaint` — texts stay texts, and nothing else becomes one.
* `Value.sameKey_repaint` — keys are one key or two, however they look.
* `Model.WellFormed.repaint` — a model is well-formed however its names look.
-/

set_option autoImplicit false

namespace MixedInteger

variable {K : Type}

/-! ## Values that look different -/

namespace Value

/-- A name that is a text stays one, and no other name becomes one. -/
theorem text?_repaint (look : Look K) (path : List Handle) (v : Value K) :
    (v.repaint look path).text? = v.text? := by
  unfold repaint
  split
  · split <;> rfl
  · rfl
  · split
    · rfl
    · split <;> rfl
  · rfl
  · rfl
  · rfl
  · rfl
  · split
    · rfl
    · split <;> rfl
  · rfl
  · rfl

/-- Nothing becomes nothing. -/
theorem repaint_ne_none (look : Look K) (path : List Handle) {v : Value K} (hv : v ≠ none) :
    v.repaint look path ≠ none := by
  unfold repaint
  split
  · split <;> nofun
  · nofun
  · split
    · nofun
    · split <;> nofun
  · nofun
  · nofun
  · nofun
  · nofun
  · split
    · nofun
    · split <;> nofun
  · nofun
  · exact hv

theorem textNames_repaint (look : Look K) (names : List (Value K)) :
    textNames (names.map (repaint look [])) = textNames names := by
  rw [textNames, textNames, List.filterMap_map]
  congr 1
  funext v
  exact text?_repaint look [] v

theorem repaintVariable_eq (look : Look K) (v : Variable K) :
    repaintVariable look [] v = { v with name := v.name.repaint look [] } := by
  cases v
  rw [repaintVariable]

theorem alike_repaintVariable (look : Look K) (v : Variable K) :
    v.Alike (repaintVariable look [] v) := by
  rw [repaintVariable_eq]
  exact ⟨rfl, rfl, rfl⟩

theorem repaintExpr_eq (look : Look K) (e : LinearExpr K) :
    repaintExpr look [] e =
      ⟨e.terms.map fun t => (repaintVariable look [] t.1, t.2), e.constant⟩ := by
  obtain ⟨ts, c⟩ := e
  rw [repaintExpr]
  congr 1
  induction ts with
  | nil => rw [repaintTerms, List.map_nil]
  | cons t ts ih =>
    obtain ⟨⟨id, name, d, l, u⟩, x⟩ := t
    rw [repaintTerms, ih, List.map_cons, repaintVariable]

theorem repaintConstraint_eq (look : Look K) (c : Constraint K) :
    repaintConstraint look [] c =
      { c with expr := repaintExpr look [] c.expr, name := c.name.repaint look [] } := by
  cases c
  rw [repaintConstraint]

/-! ### Keys -/

theorem repaint_sequence {look : Look K} {path : List Handle} {shape : Shape}
    (h : shape.isFixed = true) (items : List (Value K)) :
    repaint look path (sequence shape items) = sequence shape (repaintAll look path items) := by
  cases shape with
  | list id => cases h
  | _ => rw [repaint]; rintro _ ⟨⟩

theorem repaint_handle {look : Look K} {path : List Handle} {h : Handle} {p : Portrait}
    (hk : isKey (handle h p : Value K) = true) :
    repaint look path (handle h p) = handle h ((look path).portrait h) := by
  cases h with
  | inside id => cases hk
  | _ => rw [repaint]; rintro _ ⟨⟩

mutual

/-- A key stays one, however it looks. -/
theorem isKey_repaint (look : Look K) (path : List Handle) :
    ∀ v : Value K, v.isKey = true → (v.repaint look path).isKey = true
  | sequence shape items, h => by
    rw [isKey, Bool.and_eq_true] at h
    rw [repaint_sequence h.1, isKey, h.1, areKeys_repaintAll look path items h.2]
    rfl
  | handle h p, hk => by
    rw [repaint_handle hk]
    cases h with
    | inside id => cases hk
    | _ => rfl
  | none, h | scalar _, h | text _, h | domain _, h | direction _, h | relation _, h => by
    simpa [repaint] using h
  | var v, _ => by simp [repaint, isKey]
  | constraint c id, _ => by simp [repaint, isKey]
  | table es id, h => by simp [isKey] at h
  | expr e, h => by simp [isKey] at h

theorem areKeys_repaintAll (look : Look K) (path : List Handle) :
    ∀ vs : List (Value K), areKeys vs = true → areKeys (repaintAll look path vs) = true
  | [], _ => rfl
  | v :: vs, h => by
    simp only [areKeys, Bool.and_eq_true] at h
    simp [repaintAll, areKeys, isKey_repaint look path v h.1, areKeys_repaintAll look path vs h.2]

end

variable [Arithmetic K]

mutual

/-- A key is found, and finds, what it did before it looked different. -/
theorem sameKey_repaint_sides (look : Look K) (path : List Handle) :
    ∀ v : Value K, v.isKey = true → ∀ u, sameKey u (v.repaint look path) = sameKey u v ∧
      sameKey (v.repaint look path) u = sameKey v u
  | sequence shape items, h, u => by
    rw [isKey, Bool.and_eq_true] at h
    rw [repaint_sequence h.1]
    cases u with
    | sequence p us =>
      have hitems := sameKeys_repaintAll_sides look path items h.2 us
      constructor
      · rw [sameKey, sameKey, hitems.1]
      · rw [sameKey, sameKey, hitems.2]
    | constraint c id => cases id <;> exact ⟨rfl, rfl⟩
    | _ => exact ⟨rfl, rfl⟩
  | handle h p, hk, u => by
    rw [repaint_handle hk]
    cases u with
    | constraint c id => cases id <;> exact ⟨rfl, rfl⟩
    | _ => exact ⟨rfl, rfl⟩
  | none, _, u | scalar _, _, u | text _, _, u | domain _, _, u | direction _, _, u
  | relation _, _, u => by
    simp [repaint]
  | var ⟨i, n, d, l, r⟩, _, u => by
    rw [repaint, repaintVariable]
    cases u with
    | constraint c id => cases id <;> exact ⟨rfl, rfl⟩
    | _ => exact ⟨rfl, rfl⟩
  | constraint ⟨e, r, x, n⟩ id, _, u => by
    rw [repaint, repaintConstraint]
    cases u with
    | constraint c id' => cases id <;> cases id' <;> exact ⟨rfl, rfl⟩
    | _ => cases id <;> exact ⟨rfl, rfl⟩
  | table es id, h, _ => by cases h
  | expr e, h, _ => by cases h

theorem sameKeys_repaintAll_sides (look : Look K) (path : List Handle) :
    ∀ vs : List (Value K), areKeys vs = true → ∀ us,
      sameKeys us (repaintAll look path vs) = sameKeys us vs ∧
        sameKeys (repaintAll look path vs) us = sameKeys vs us
  | [], _, us => ⟨rfl, rfl⟩
  | v :: vs, _, [] => ⟨rfl, rfl⟩
  | v :: vs, h, u :: us => by
    rw [areKeys, Bool.and_eq_true] at h
    have hv := sameKey_repaint_sides look path v h.1 u
    have hvs := sameKeys_repaintAll_sides look path vs h.2 us
    rw [repaintAll, sameKeys, sameKeys, sameKeys, sameKeys, hv.1, hv.2, hvs.1, hvs.2]
    exact ⟨rfl, rfl⟩

end

/-- **Keys are one key or two, however they look.** -/
theorem sameKey_repaint (look : Look K) (path : List Handle) {v w : Value K}
    (hv : v.isKey = true) (hw : w.isKey = true) :
    sameKey (v.repaint look path) (w.repaint look path) = sameKey v w :=
  (sameKey_repaint_sides look path w hw _).1.trans (sameKey_repaint_sides look path v hv w).2

end Value

/-! ## Models that look different -/

namespace Model

theorem keeps_repaint (look : Look K) (m : Model K) : m.Keeps (m.repaint look) :=
  ⟨rfl, fun v hv => ⟨_, List.mem_map_of_mem hv, Value.alike_repaintVariable look v⟩⟩

theorem wellFormed_repaintExpr {m : Model K} (look : Look K) {e : LinearExpr K}
    (h : e.WellFormed m) : (Value.repaintExpr look [] e).WellFormed (m.repaint look) := by
  rw [Value.repaintExpr_eq]
  refine ⟨?_, ?_⟩
  · have hid : (fun t : Variable K × K => (Value.repaintVariable look [] t.1).id) =
        fun t => t.1.id :=
      funext fun t => (Value.alike_repaintVariable look t.1).id_eq.symm
    rw [List.map_map]
    change (e.terms.map fun t => (Value.repaintVariable look [] t.1).id).Nodup
    rw [hid]
    exact h.nodup
  · intro u hu
    obtain ⟨t, ht, rfl⟩ := List.mem_map.1 hu
    have halike := Value.alike_repaintVariable look t.1
    intro ho
    rw [← halike.id_eq] at ho
    obtain ⟨w, hw, htw⟩ := (keeps_repaint look m).knows (h.known t ht) ho
    exact ⟨w, hw, halike.symm.trans htw⟩

theorem variableNames_repaint (look : Look K) (m : Model K) :
    (m.repaint look).variableNames = m.variableNames.map (Value.repaint look []) := by
  simp [Model.repaint, variableNames, Value.repaintVariable_eq]

variable [Arithmetic K]

theorem NamesDistinct.repaint {m : Model K} (look : Look K) (h : m.NamesDistinct) :
    (m.repaint look).NamesDistinct := by
  refine ⟨?_, ?_, ?_, ?_⟩
  · simp [Model.repaint, h.rowNames_eq, Value.repaintConstraint_eq]
  · refine List.forall_mem_map.2 fun n hn => ⟨?_, ?_⟩
    · exact Value.repaint_ne_none look [] (h.keys n hn).1
    · exact Value.isKey_repaint look [] n (h.keys n hn).2
  · refine List.pairwise_map.2 (h.apart.imp_of_mem fun {n k} hn hk hne => ?_)
    rwa [Value.sameKey_repaint look [] (h.keys n hn).2 (h.keys k hk).2]
  · rw [variableNames_repaint, Value.textNames_repaint]
    exact h.vars

/-- A model is well-formed however its names look. -/
theorem WellFormed.repaint {m : Model K} (look : Look K) (h : m.WellFormed) :
    (m.repaint look).WellFormed where
  ids i hi := by
    have hi' : i < m.vars.length := by simpa [Model.repaint] using hi
    simp only [Model.repaint, List.getElem_map]
    rw [← (Value.alike_repaintVariable look _).id_eq]
    exact h.ids i hi'
  proper v hv := by
    obtain ⟨w, hw, rfl⟩ := List.mem_map.1 hv
    exact (h.proper w hw).alike (Value.alike_repaintVariable look w)
  rows c hc := by
    obtain ⟨d, hd, rfl⟩ := List.mem_map.1 hc
    rw [Value.repaintConstraint_eq]
    exact wellFormed_repaintExpr look (h.rows d hd)
  objective e he := by
    obtain ⟨f, hf, rfl⟩ := Option.map_eq_some_iff.1 he
    exact wellFormed_repaintExpr look (h.objective f hf)
  names := h.names.repaint look

end Model

end MixedInteger
