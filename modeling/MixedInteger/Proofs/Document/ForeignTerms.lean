import MixedInteger.Document.LpFile
import MixedInteger.Proofs.Document.RowNames

/-!
# Terms of foreign variables

A row may mention variables of other models.  The arrays of a model, its row-wise text and its
column-wise text treat them in three ways.  There are no arrays for such a model.  The row-wise text
writes the variable under its name, which may be that of a variable of the model.  The column-wise
text leaves the term out.

## What is here

* `StandardForm.Encodes` — arrays in which each term has a column of its own.
* `Model.ownPart`, `Model.WellFormed.mpsText_ownPart` — what the column-wise text leaves out.
* `Model.WellFormed.mem_nonzeroEntries` — what it does not leave out.
* `LinearExpr.nodup_names_iff` — when the names in a written row are apart.
* `Model.HasEncodings`, `Model.hasEncodings` — all of this, for reachable models.
-/

set_option autoImplicit false

namespace MixedInteger

variable {K : Type}

/-! ## Coefficients -/

/-- A term is found under its variable. -/
theorem Terms.get?_of_mem {ts : Terms K} (hts : (ts.map fun t => t.1.id).Nodup)
    {t : Variable K × K} (ht : t ∈ ts) : Terms.get? ts t.1 = some t.2 := by
  induction ts with
  | nil => cases ht
  | cons u ts ih =>
    rw [List.map_cons, List.nodup_cons] at hts
    rw [Model.get?_cons]
    rcases List.mem_cons.1 ht with rfl | ht
    · rw [if_pos rfl]
    · have hne : u.1.id ≠ t.1.id := fun hid =>
        hts.1 (hid ▸ List.mem_map_of_mem (f := fun t : Variable K × K => t.1.id) ht)
      rw [if_neg hne, ih hts.2 ht]

/-- Coefficients are found by identity. -/
theorem Terms.get?_congr (ts : Terms K) {v w : Variable K} (h : v.id = w.id) :
    Terms.get? ts v = Terms.get? ts w := by
  rw [Terms.get?, Terms.get?, h]

variable [Arithmetic K]

open Arithmetic

/-! ## Arrays -/

/-- Each term stands in the column of its variable. -/
structure StandardForm.Encodes (s : StandardForm K) (m : Model K) : Prop where
  rows : ∀ (i : Nat) c, m.constraints[i]? = some c → ∀ t ∈ c.expr.terms,
    ∃ (j : Nat) (w : Variable K), m.vars[j]? = some w ∧ w.id = t.1.id ∧
      (s.matrix[i]?.bind fun row => row[j]?) = some t.2
  cost : ∀ e, m.objective = some e → ∀ t ∈ e.terms,
    ∃ (j : Nat) (w : Variable K), m.vars[j]? = some w ∧ w.id = t.1.id ∧
      s.cost[j]? = some (m.objectiveSign * t.2)

namespace Model

variable {m : Model K}

/-- **Where there are arrays, no term is missing from them.** -/
theorem WellFormed.encodes (hm : m.WellFormed) {s : StandardForm K} (hs : m.standardForm = .ok s) :
    s.Encodes m := by
  rw [standardForm] at hs
  split at hs
  · cases hs
  split at hs
  · cases hs
  next hown =>
    have hown := m.mentionsOwn_iff.2 (by simpa using hown)
    cases hs
    refine ⟨fun i c hc t ht => ?_, fun e he t ht => ?_⟩
    · have hmem := List.mem_of_getElem? hc
      obtain ⟨w, hw, hid⟩ := hown.rows c hmem t ht
      obtain ⟨j, hj⟩ := List.getElem?_of_mem hw
      have hget : c.expr.coefficient w = t.2 := by
        rw [LinearExpr.coefficient, Terms.get?_congr _ hid,
          Terms.get?_of_mem (hm.rows c hmem).nodup ht, Option.getD_some]
      refine ⟨j, w, hj, hid, ?_⟩
      simp [denseRow, hc, hj, hget]
    · obtain ⟨w, hw, hid⟩ := hown.objective e he t ht
      obtain ⟨j, hj⟩ := List.getElem?_of_mem hw
      have hget : Terms.get? e.terms w = some t.2 := by
        rw [Terms.get?_congr _ hid, Terms.get?_of_mem (hm.objective e he).nodup ht]
      refine ⟨j, w, hj, hid, ?_⟩
      simp [costs, he, hj, hget]

/-! ## Columns -/

/-- The terms of an expression whose variables the model has created. -/
def ownTerms (m : Model K) (e : LinearExpr K) : LinearExpr K :=
  ⟨e.terms.filter fun t => m.owns t.1, e.constant⟩

/-- The model without the terms of foreign variables. -/
def ownPart (m : Model K) : Model K :=
  { m with
    objective := m.objective.map m.ownTerms
    constraints := m.constraints.map fun c => { c with expr := m.ownTerms c.expr } }

omit [Arithmetic K] in
theorem rowNamesFrom_map (f : Constraint K → Constraint K) (hf : ∀ c, (f c).name = c.name)
    (cs : List (Constraint K)) (n : Nat) : rowNamesFrom n (cs.map f) = rowNamesFrom n cs := by
  induction cs generalizing n with
  | nil => rfl
  | cons c cs ih => simp only [List.map_cons, rowNamesFrom, hf, ih]

omit [Arithmetic K] in
theorem rows_ownPart (m : Model K) : m.ownPart.problem.rows =
    m.problem.rows.map fun r => (r.1, { r.2 with expr := m.ownTerms r.2.expr }) := by
  have hnames : m.ownPart.problem.rowNames = m.problem.rowNames :=
    rowNamesFrom_map (fun c => { c with expr := m.ownTerms c.expr }) (fun _ => rfl) m.constraints 0
  rw [Problem.rows, hnames]
  exact List.zip_map_right

omit [Arithmetic K] in
theorem namedExprs_ownPart (m : Model K) : m.ownPart.problem.namedExprs =
    m.problem.namedExprs.map fun r => (r.1, m.ownTerms r.2) := by
  rw [Problem.namedExprs, Problem.namedExprs, rows_ownPart, List.map_append]
  congr 1
  · change (m.objective.map m.ownTerms).toList.map _ = (m.objective.toList.map _).map _
    cases m.objective <;> rfl
  · rw [List.map_map, List.map_map]
    rfl

/-- The column of a variable of the model has no entry that comes from a foreign variable. -/
theorem columnEntries_ownPart {v : Variable K} (hv : v ∈ m.vars) :
    m.ownPart.problem.columnEntries v = m.problem.columnEntries v := by
  have hfilter : ∀ e : LinearExpr K, ((m.ownTerms e).terms.filter fun t => t.1.id = v.id) =
      e.terms.filter fun t => t.1.id = v.id := by
    intro e
    rw [ownTerms, List.filter_filter]
    refine List.filter_congr fun t _ => ?_
    by_cases hid : t.1.id = v.id
    · have howns : m.owns t.1 = true :=
        List.any_eq_true.2 ⟨v, hv, decide_eq_true hid.symm⟩
      rw [howns, Bool.and_true]
    · simp [hid]
  rw [Problem.columnEntries, namedExprs_ownPart, List.foldl_map, Problem.columnEntries]
  simp only [hfilter]

theorem nonzeroEntries_ownPart {v : Variable K} (hv : v ∈ m.vars) :
    m.ownPart.problem.nonzeroEntries v = m.problem.nonzeroEntries v := by
  rw [Problem.nonzeroEntries, columnEntries_ownPart hv, Problem.nonzeroEntries]

/-- The records that describe a model are those that describe its own part. -/
theorem mpsFile_ownPart (m : Model K) (title : String) :
    MpsFile.ofProblem title m.ownPart.problem = MpsFile.ofProblem title m.problem := by
  have hrecords : ∀ p : Variable K → Bool,
      (m.vars.filter p).flatMap m.ownPart.problem.columnRecords =
        (m.vars.filter p).flatMap m.problem.columnRecords := fun p =>
    List.flatMap_congr fun v hv => by
      rw [Problem.columnRecords, nonzeroEntries_ownPart (List.mem_filter.1 hv).1,
        Problem.columnRecords]
  have hused : (m.vars.filter fun v => !(m.ownPart.problem.nonzeroEntries v).isEmpty) =
      m.vars.filter fun v => !(m.problem.nonzeroEntries v).isEmpty :=
    List.filter_congr fun v hv => by rw [nonzeroEntries_ownPart hv]
  rw [MpsFile.ofProblem, MpsFile.ofProblem, MpsFile.mk.injEq]
  refine ⟨rfl, rfl, ?_, hrecords _, hrecords _, ?_,
    congrArg (List.flatMap MpsBound.ofVariable) hused⟩
  · rw [rows_ownPart, List.map_map]
    rfl
  · rw [rows_ownPart, List.map_map]
    simp only [ownPart, problem]
    cases m.objective <;> rfl

/-- **The column-wise text leaves out the terms of foreign variables**: it is the text of the model
without them. -/
theorem WellFormed.mpsText_ownPart (hm : m.WellFormed) :
    m.ownPart.problem.mpsText = m.problem.mpsText := by
  have hkey : ∀ c ∈ m.constraints, c.name.isKey = true := fun c hc =>
    (hm.names.keys c.name (hm.names.rowNames_eq ▸ List.mem_map_of_mem hc)).2
  have hkeys : m.problem.requireRowKeys = .ok () :=
    forM_eq_ok fun c hc => by rw [hkey c hc]; rfl
  have hkeysOwn : m.ownPart.problem.requireRowKeys = .ok () := by
    refine forM_eq_ok (List.forall_mem_map.2 fun c hc => ?_)
    rw [hkey c hc]
    rfl
  have hnames : m.ownPart.problem.mpsNames = m.problem.mpsNames := by
    have hrows := rowNamesFrom_map (fun c => { c with expr := m.ownTerms c.expr }) (fun _ => rfl)
      m.constraints 0
    have hused : (m.vars.filter fun v => !(m.ownPart.problem.nonzeroEntries v).isEmpty) =
        m.vars.filter fun v => !(m.problem.nonzeroEntries v).isEmpty :=
      List.filter_congr fun v hv => by rw [nonzeroEntries_ownPart hv]
    exact congrArg₂ (· ++ ·) hrows (congrArg (List.map Variable.name) hused)
  simp only [Problem.mpsText, Problem.mpsTextUnder, hkeys, hkeysOwn, hnames, mpsFile_ownPart]
  rfl

omit [Arithmetic K] in
/-- The merging of coefficients depends on the identity of the variable only. -/
theorem IsMerged.congr {v w : Variable K} (h : v.id = w.id) {a b : K} (hv : m.IsMerged v a b) :
    m.IsMerged w a b := by
  obtain ⟨e, c, he, hc, hname, ha, hb⟩ := hv
  rw [Terms.get?_congr _ h] at ha hb
  exact ⟨e, c, he, hc, hname, ha, hb⟩

/-- **The column-wise text does not leave out another term**: a coefficient of a variable of the
model is an entry of its column, unless it is zero or added to another one. -/
theorem WellFormed.mem_nonzeroEntries [Printed K] (hm : m.WellFormed) {r : Value K × LinearExpr K}
    (hr : r ∈ m.problem.namedExprs) {t : Variable K × K} (ht : t ∈ r.2.terms)
    (hzero : eq t.2 zero = false) (howns : m.owns t.1 = true)
    (hmerged : ¬∃ a b, m.IsMerged t.1 a b) :
    ∃ w ∈ m.vars, w.id = t.1.id ∧ (r.1, zero + t.2) ∈ m.problem.nonzeroEntries w := by
  obtain ⟨w, hw, hid⟩ := List.any_eq_true.1 howns
  have hid : w.id = t.1.id := of_decide_eq_true hid
  have hentries := hm.columnEntries_of_not_isMerged (v := w) fun ⟨a, b, h⟩ =>
    hmerged ⟨a, b, h.congr hid⟩
  refine ⟨w, hw, hid, ?_⟩
  rw [Problem.nonzeroEntries, hentries]
  refine List.mem_filter.2 ⟨List.mem_filterMap.2 ⟨r, hr, ?_⟩, ?_⟩
  · rw [Problem.entry, Terms.get?_congr _ hid, Terms.get?_of_mem (hm.nodup_terms r hr) ht]
    rfl
  · rw [Printed.eq_zero_add, hzero]
    rfl

end Model

/-! ## Names -/

/-- **The names in a written row are apart** if those of its variables look different. -/
theorem LinearExpr.nodup_names_iff {e : LinearExpr K} (he : (e.terms.map fun t => t.1.id).Nodup) :
    ((LpTerm.ofExpr e).map LpTerm.name).Nodup ↔
      ∀ t ∈ e.terms, ∀ u ∈ e.terms, eq t.2 zero = false → eq u.2 zero = false →
        t.1.id ≠ u.1.id → t.1.name.label ≠ u.1.name.label := by
  have hwritten : ∀ t, t ∈ e.terms.filter (fun t => !eq t.2 zero) ↔
      t ∈ e.terms ∧ eq t.2 zero = false := fun t => by rw [List.mem_filter, Bool.not_eq_true']
  have hnodup : (e.terms.filter fun t => !eq t.2 zero).Pairwise fun t u => t.1.id ≠ u.1.id :=
    (List.pairwise_map.1 he).sublist List.filter_sublist
  rw [LpTerm.ofExpr, List.map_map]
  constructor
  · intro h t ht u hu hzt hzu hne hlabel
    have heq : t = u := List.inj_on_of_nodup_map h ((hwritten t).2 ⟨ht, hzt⟩)
      ((hwritten u).2 ⟨hu, hzu⟩) hlabel
    exact hne (heq ▸ rfl)
  · intro h
    refine List.pairwise_map.2 (hnodup.imp_of_mem fun {t u} ht hu hne => ?_)
    obtain ⟨ht, hzt⟩ := (hwritten t).1 ht
    obtain ⟨hu, hzu⟩ := (hwritten u).1 hu
    exact h t ht u hu hzt hzu hne

namespace Model

variable {m : Model K}

/-- Two variables of a model that are named by texts look different. -/
theorem WellFormed.label_ne (hm : m.WellFormed) {v w : Variable K} (hv : v ∈ m.vars)
    (hw : w ∈ m.vars) (hne : v.id ≠ w.id) {s t : String} (hs : v.name = .text s)
    (ht : w.name = .text t) : v.name.label ≠ w.name.label := by
  have hapart := hm.names.vars
  rw [textNames, variableNames, List.nodup_iff_pairwise_ne, List.pairwise_filterMap,
    List.pairwise_map] at hapart
  have hpair : m.vars.Pairwise fun v w => ∀ s t, v.name = .text s → w.name = .text t → s ≠ t :=
    hapart.imp fun {v w} h s t hs ht => h s (by rw [hs]; rfl) t (by rw [ht]; rfl)
  have hsymm : Std.Symm fun v w : Variable K =>
      ∀ s t, v.name = .text s → w.name = .text t → s ≠ t :=
    ⟨fun v w h s t hs ht => (h t s ht hs).symm⟩
  rw [hs, ht, Value.label_text, Value.label_text]
  exact hpair.forall hv hw (fun hvw => hne (congrArg (fun v => v.id) hvw)) s t hs ht

/-! ## All written forms -/

/-- What becomes of the terms of a model when it is written. -/
structure HasEncodings (m : Model K) : Prop where
  /-- Where there are arrays, each term stands in the column of its variable. -/
  arrays : ∀ s, m.standardForm = .ok s → s.Encodes m
  /-- The column-wise text is that of the model without the terms of foreign variables. -/
  columns_foreign : m.problem.mpsText = m.ownPart.problem.mpsText
  /-- All other terms are in the columns of their variables, but for a variable that occurs in the
  objective and in the row of its name. -/
  columns_own : ∀ r ∈ m.problem.namedExprs, ∀ t ∈ r.2.terms, eq t.2 zero = false →
    m.owns t.1 = true → (¬∃ a b, m.IsMerged t.1 a b) →
    ∃ w ∈ m.vars, w.id = t.1.id ∧ (r.1, zero + t.2) ∈ m.problem.nonzeroEntries w
  /-- The row-wise text has the terms of each row. -/
  rows : (LpFile.ofProblem m.problem).rows.map LpRow.terms =
    m.constraints.map fun c => LpTerm.ofExpr c.expr
  /-- The names in a row are apart if those of its variables look different. -/
  names : ∀ e ∈ m.exprs, ((LpTerm.ofExpr e).map LpTerm.name).Nodup ↔
    ∀ t ∈ e.terms, ∀ u ∈ e.terms, eq t.2 zero = false → eq u.2 zero = false →
      t.1.id ≠ u.1.id → t.1.name.label ≠ u.1.name.label
  /-- Those of variables of the model do, if they are texts. -/
  labels : ∀ v ∈ m.vars, ∀ w ∈ m.vars, v.id ≠ w.id → ∀ s t, v.name = .text s → w.name = .text t →
    v.name.label ≠ w.name.label

/-- **What becomes of the terms of a model.**  The arrays have all of them or there are none.  The
column-wise text has those of the variables of the model only, and leaves the others out.  The
row-wise text has all of them, under names that are apart unless those of the variables look alike,
which they do only where a variable is foreign or not named by a text. -/
theorem hasEncodings [Sensible K] [Printed K] (hm : m.Reachable) : m.HasEncodings := by
  have hw := hm.wellFormed
  refine ⟨fun s hs => hw.encodes hs, hw.mpsText_ownPart.symm, fun r hr t ht hzero howns hmerged =>
    hw.mem_nonzeroEntries hr ht hzero howns hmerged, ?_, fun e he => ?_,
    fun v hv w hw' hne s t hs ht => hw.label_ne hv hw' hne hs ht⟩
  · change (m.problem.rows.map LpRow.ofConstraint).map LpRow.terms = _
    rw [hw.problem_rows, List.map_map, List.map_map]
    rfl
  · refine LinearExpr.nodup_names_iff ?_
    rw [← hw.exprs_eq] at he
    obtain ⟨r, hr, rfl⟩ := List.mem_map.1 he
    exact hw.nodup_terms r hr

/-! ## A row with a foreign variable -/

/-- A variable of another model with the same name as the load. -/
def otherLoad : Variable Float := { load with id := ⟨1, 0⟩ }

/-- The row that both loads are at most one. -/
def sharedRow : Constraint Float := ⟨⟨[(load, 1), (otherLoad, 1)], 0⟩, .le, 1, .none⟩

/-- The model of one load. -/
def ownerModel : Model Float := { empty 0 .none with vars := [load] }

/-- The model of one load and this row. -/
def sharedModel : Model Float :=
  { ownerModel with
    constraints := [sharedRow.withName (.text "c0")]
    rowNames := [.text "c0"]
    constraintCounter := 1 }

theorem sharedModel_reachable : sharedModel.Reachable := by
  have hvars : ownerModel.Reachable := (Reachable.empty (K := Float) 0 .none).of_call _
    (Call.admissible_addVariable _ .continuous 0 10 "load") rfl
  refine hvars.of_call (.addConstraint (.constraint sharedRow none) .none) ?_ rfl
  have hrow : (Value.constraint sharedRow none).WellFormed ownerModel := by
    refine ⟨by decide, List.forall_mem_cons.2 ⟨knows_of_mem List.mem_cons_self,
      List.forall_mem_singleton.2 fun hid => ?_⟩⟩
    cases hid
  simp only [Call.Admissible, Call.arguments, List.forall_mem_cons, Value.Admissible, Value.parts]
  exact ⟨⟨hrow, List.forall_mem_nil _⟩, ⟨trivial, List.forall_mem_nil _⟩, List.forall_mem_nil _⟩

/-- What becomes of the two loads. -/
theorem hasEncodings_sharedModel : sharedModel.Reachable ∧ sharedModel.HasEncodings :=
  ⟨sharedModel_reachable, hasEncodings sharedModel_reachable⟩

/-- **A term of a foreign variable can be left out of one text and get lost in the other**, where
two variables of a row have one name. -/
theorem exists_foreign_term : ∃ (m : Model Float) (c : Constraint Float)
    (t : Variable Float × Float) (lp mps : String),
    m.Reachable ∧ c ∈ m.constraints ∧ t ∈ c.expr.terms ∧ eq t.2 zero = false ∧ m.owns t.1 = false ∧
    m.problem.mpsText = .ok mps ∧ m.ownPart.problem.mpsText = .ok mps ∧
    m.problem.lpText = .ok lp ∧ ¬((LpTerm.ofExpr c.expr).map LpTerm.name).Nodup := by
  refine ⟨sharedModel, sharedRow.withName (.text "c0"), (otherLoad, 1), _, _, sharedModel_reachable,
    List.mem_cons_self, List.mem_cons_of_mem _ List.mem_cons_self, by decide, by decide, rfl, ?_,
    rfl, by decide⟩
  exact sharedModel_reachable.wellFormed.mpsText_ownPart

end Model

end MixedInteger
