import MixedInteger.Document.MpsFile
import MixedInteger.Proofs.Document.StandardForm
import MixedInteger.Proofs.Number.Printed

/-!
# The columns of a model

The column-wise text collects the coefficients of a variable by the names of the rows.  As long as
the names are apart, each entry is the coefficient of the variable in one row, and the entries that
are not zero are those that are written.

## What is here

* `Problem.columnEntries_eq`, `Problem.nonzeroEntries_eq` — the entries of a column, row by row.
* `Model.WellFormed.pairwise_namedExprs` — the rows of a model are apart.
* `Model.HasIdentifiers` — models whose names are identifiers.
* `Model.loadModel` — a small one.
-/

set_option autoImplicit false

namespace MixedInteger

variable {K : Type} [Arithmetic K]

open Arithmetic

/-! ## Entries -/

/-- A number under a new name comes last. -/
theorem addEntry_of_new {row : Value K} {entries : List (Value K × K)}
    (h : ∀ e ∈ entries, e.1.sameKey row = false) (c : K) :
    addEntry row c entries = entries ++ [(row, zero + c)] := by
  induction entries with
  | nil => rfl
  | cons e entries ih =>
    have hne : ¬e.1.sameKey row = true := by simp [h e List.mem_cons_self]
    rw [addEntry, if_neg hne, ih fun d hd => h d (List.mem_cons_of_mem e hd), List.cons_append]

omit [Arithmetic K] in
/-- A variable has one term at most. -/
theorem filter_id_eq {ts : Terms K} (hts : (ts.map fun t => t.1.id).Nodup) (v : Variable K) :
    (ts.filter fun t => t.1.id = v.id).map Prod.snd = (Terms.get? ts v).toList := by
  induction ts with
  | nil => rfl
  | cons t ts ih =>
    rw [List.map_cons, List.nodup_cons] at hts
    rw [Model.get?_cons]
    by_cases ht : t.1.id = v.id
    · have hrest : Terms.get? ts v = none := Model.get?_eq_none (ht ▸ hts.1)
      rw [List.filter_cons_of_pos (by simpa using ht), List.map_cons, ih hts.2, if_pos ht, hrest]
      rfl
    · rw [List.filter_cons_of_neg (by simpa using ht), ih hts.2, if_neg ht]

namespace Problem

variable {p : Problem K}

/-- The entry of a variable in a row. -/
def entry (v : Variable K) (row : Value K × LinearExpr K) : Option (Value K × K) :=
  (Terms.get? row.2.terms v).map fun c => (row.1, zero + c)

/-- What one more row adds to the entries of a column. -/
theorem foldl_addEntry_eq {row : Value K × LinearExpr K}
    (hrow : (row.2.terms.map fun t => t.1.id).Nodup) (v : Variable K)
    (entries : List (Value K × K)) :
    (row.2.terms.filter fun t => t.1.id = v.id).foldl
        (fun acc t => addEntry row.1 t.2 acc) entries =
      (Terms.get? row.2.terms v).elim entries fun c => addEntry row.1 c entries := by
  rw [← List.foldl_map (f := Prod.snd) (g := fun acc c => addEntry row.1 c acc), filter_id_eq hrow]
  cases Terms.get? row.2.terms v <;> rfl

/-- **The entries of a column are its coefficients row by row**, if the rows in which the variable
occurs are apart. -/
theorem columnEntries_eq {v : Variable K}
    (hrows : p.namedExprs.Pairwise fun a b => (Terms.get? a.2.terms v).isSome →
      (Terms.get? b.2.terms v).isSome → a.1.sameKey b.1 = false)
    (hterms : ∀ r ∈ p.namedExprs, (r.2.terms.map fun t => t.1.id).Nodup) :
    p.columnEntries v = p.namedExprs.filterMap (entry v) := by
  -- The entries so far have names that the remaining rows do not have.
  have hfold : ∀ (rows : List (Value K × LinearExpr K)) (entries : List (Value K × K)),
      rows.Pairwise (fun a b => (Terms.get? a.2.terms v).isSome →
        (Terms.get? b.2.terms v).isSome → a.1.sameKey b.1 = false) →
      (∀ r ∈ rows, (r.2.terms.map fun t => t.1.id).Nodup) →
      (∀ e ∈ entries, ∀ r ∈ rows, (Terms.get? r.2.terms v).isSome → e.1.sameKey r.1 = false) →
      rows.foldl (fun acc row => (row.2.terms.filter fun t => t.1.id = v.id).foldl
        (fun acc t => addEntry row.1 t.2 acc) acc) entries =
      entries ++ rows.filterMap (entry v) := by
    intro rows
    induction rows with
    | nil =>
      intro entries _ _ _
      exact (List.append_nil entries).symm
    | cons r rows ih =>
      intro entries hpair hnodup hnew
      obtain ⟨hr, hpair⟩ := List.pairwise_cons.1 hpair
      have hrest := fun s hs => hnodup s (List.mem_cons_of_mem r hs)
      rw [List.foldl_cons, foldl_addEntry_eq (hnodup r List.mem_cons_self), List.filterMap_cons]
      cases hc : Terms.get? r.2.terms v with
      | none =>
        rw [show entry v r = none by rw [entry, hc]; rfl]
        exact ih entries hpair hrest fun e he s hs => hnew e he s (List.mem_cons_of_mem r hs)
      | some c =>
        have hsome : (Terms.get? r.2.terms v).isSome := hc ▸ rfl
        rw [show entry v r = some (r.1, zero + c) by rw [entry, hc]; rfl, Option.elim_some,
          addEntry_of_new fun e he => hnew e he r List.mem_cons_self hsome, ih _ hpair hrest]
        · rw [List.append_assoc]
          rfl
        · intro e he s hs hv
          rcases List.mem_append.1 he with he | he
          · exact hnew e he s (List.mem_cons_of_mem r hs) hv
          · rw [List.mem_singleton.1 he]
            exact hr s hs hsome hv
  exact hfold p.namedExprs [] hrows hterms fun e he => absurd he List.not_mem_nil

variable [Printed K]

/-- **The entries that are written are the coefficients that are not zero.** -/
theorem nonzeroEntries_eq (hrows : p.namedExprs.Pairwise fun a b => a.1.sameKey b.1 = false)
    (hterms : ∀ r ∈ p.namedExprs, (r.2.terms.map fun t => t.1.id).Nodup) (v : Variable K) :
    p.nonzeroEntries v = p.namedExprs.filterMap fun r =>
      if eq (r.2.coefficient v) zero then none else some (r.1, zero + r.2.coefficient v) := by
  rw [nonzeroEntries, columnEntries_eq (hrows.imp fun hne _ _ => hne) hterms, List.filter_filterMap]
  congr 1
  funext r
  rw [entry, LinearExpr.coefficient]
  cases Terms.get? r.2.terms v with
  | none => simp [Printed.eq_zero_zero]
  | some c =>
    rw [Option.map_some, Option.filter_some, Option.getD_some, Printed.eq_zero_add]
    cases eq c zero <;> rfl

end Problem

/-! ## Names -/

/-- Whether a name is a text that is an identifier. -/
def Value.isIdentifier : Value K → Bool
  | .text s => MixedInteger.isIdentifier s
  | _ => false

omit [Arithmetic K] in
theorem Value.exists_of_isIdentifier {v : Value K} (h : v.isIdentifier = true) :
    ∃ s, v = .text s ∧ MixedInteger.isIdentifier s = true := by
  cases v with
  | text s => exact ⟨s, rfl, h⟩
  | _ => cases h

/-- A name that is an identifier is written as this identifier. -/
theorem Value.isIdentifier_label {v : Value K} (h : v.isIdentifier = true) :
    MixedInteger.isIdentifier v.label = true := by
  obtain ⟨s, rfl, hs⟩ := exists_of_isIdentifier h
  rwa [label_text]

theorem Value.display_of_isIdentifier {v : Value K} (h : v.isIdentifier = true) :
    v.display = .ok v.label := by
  obtain ⟨s, rfl, -⟩ := exists_of_isIdentifier h
  rw [display_text, label_text]

/-- A check that each element passes is passed by all. -/
theorem forM_eq_ok {α : Type} {f : α → Except Fault Unit} {l : List α} (h : ∀ a ∈ l, f a = .ok ()) :
    l.forM f = .ok () := by
  induction l with
  | nil => rfl
  | cons a l ih =>
    change (f a >>= fun _ => l.forM f) = _
    rw [h a List.mem_cons_self]
    exact ih fun b hb => h b (List.mem_cons_of_mem a hb)

/-- Names that are identifiers can be written. -/
theorem requireTexts_eq_ok {names : List (Value K)} (h : ∀ n ∈ names, n.isIdentifier = true) :
    requireTexts names = .ok () :=
  forM_eq_ok fun n hn => by rw [Value.display_of_isIdentifier (h n hn)]; rfl

/-- Names that are texts are their own labels. -/
theorem textNames_eq_map_label {names : List (Value K)} (h : ∀ n ∈ names, n.isIdentifier = true) :
    textNames names = names.map Value.label := by
  induction names with
  | nil => rfl
  | cons n names ih =>
    obtain ⟨s, rfl, -⟩ := Value.exists_of_isIdentifier (h n List.mem_cons_self)
    rw [List.map_cons, Value.label_text, ← ih fun k hk => h k (List.mem_cons_of_mem _ hk)]
    rfl

omit [Arithmetic K] in
/-- Rows that have names keep them. -/
theorem rowNamesFrom_eq {cs : List (Constraint K)} (h : ∀ c ∈ cs, c.name ≠ .none) (n : Nat) :
    rowNamesFrom n cs = cs.map fun c => c.name := by
  induction cs generalizing n with
  | nil => rfl
  | cons c cs ih =>
    rw [rowNamesFrom]
    split
    · exact absurd ‹_› (h c List.mem_cons_self)
    · rw [List.map_cons, ih fun d hd => h d (List.mem_cons_of_mem c hd)]

namespace Model

variable {m : Model K}

/-- The expressions of the objective and of the rows. -/
def exprs (m : Model K) : List (LinearExpr K) :=
  m.objective.toList ++ m.constraints.map fun c => c.expr

/-- Whether a variable has a coefficient that is not zero. -/
def uses (m : Model K) (v : Variable K) : Bool := m.exprs.any fun e => !eq (e.coefficient v) zero

/-! ### The rows of a well-formed model -/

/-- The rows are written under their names. -/
theorem WellFormed.problem_rowNames (hm : m.WellFormed) :
    m.problem.rowNames = m.constraints.map fun c => c.name := by
  refine rowNamesFrom_eq (fun c hc => (hm.names.keys c.name ?_).1) 0
  rw [hm.names.rowNames_eq]
  exact List.mem_map_of_mem hc

theorem WellFormed.problem_rows (hm : m.WellFormed) :
    m.problem.rows = m.constraints.map fun c => (c.name, c) := by
  rw [List.map_prod_right_eq_zip, ← hm.problem_rowNames]
  rfl

theorem WellFormed.namedExprs (hm : m.WellFormed) :
    m.problem.namedExprs = (m.objective.toList.map fun e => (.text objectiveRow, e)) ++
      m.constraints.map fun c => (c.name, c.expr) := by
  rw [Problem.namedExprs, hm.problem_rows, List.map_map]
  rfl

theorem WellFormed.exprs_eq (hm : m.WellFormed) : m.problem.namedExprs.map Prod.snd = m.exprs := by
  rw [hm.namedExprs, exprs, List.map_append, List.map_map, List.map_map]
  exact congrArg (· ++ _) (List.map_id _)

/-- Each variable occurs once at most in the objective, and once at most in a row. -/
theorem WellFormed.nodup_terms (hm : m.WellFormed) :
    ∀ r ∈ m.problem.namedExprs, (r.2.terms.map fun t => t.1.id).Nodup := by
  rw [hm.namedExprs]
  refine List.forall_mem_append.2 ⟨?_, List.forall_mem_map.2 fun c hc => (hm.rows c hc).nodup⟩
  refine List.forall_mem_map.2 fun e he => (hm.objective e ?_).nodup
  exact Option.mem_toList.1 he

/-- No row is found under the name of one before it. -/
theorem WellFormed.pairwise_rows (hm : m.WellFormed) :
    (m.constraints.map fun c => (c.name, c.expr)).Pairwise fun a b => a.1.sameKey b.1 = false := by
  have hapart := hm.names.apart
  rw [hm.names.rowNames_eq] at hapart
  exact List.pairwise_map.2 (List.pairwise_map.1 hapart)

/-- **The rows of the text are apart**, if no row is named like the objective. -/
theorem WellFormed.pairwise_namedExprs (hm : m.WellFormed)
    (hobj : ∀ c ∈ m.constraints, c.name ≠ .text objectiveRow) :
    m.problem.namedExprs.Pairwise fun a b => a.1.sameKey b.1 = false := by
  rw [hm.namedExprs]
  refine List.pairwise_append.2 ⟨?_, hm.pairwise_rows, ?_⟩
  · cases m.objective with
    | none => exact .nil
    | some e => exact List.pairwise_singleton _ _
  · intro a ha b hb
    obtain ⟨e, -, rfl⟩ := List.mem_map.1 ha
    obtain ⟨c, hc, rfl⟩ := List.mem_map.1 hb
    exact Bool.eq_false_iff.2 fun hsame => hobj c hc (Value.eq_of_text_sameKey hsame)

/-! ### Identifiers -/

/-- The variables and the rows are named by identifiers. -/
structure HasIdentifiers (m : Model K) : Prop where
  vars : ∀ v ∈ m.vars, v.name.isIdentifier = true
  rows : ∀ c ∈ m.constraints, c.name.isIdentifier = true

theorem HasIdentifiers.problem_rowNames (h : m.HasIdentifiers) (hm : m.WellFormed) :
    ∀ n ∈ m.problem.rowNames, n.isIdentifier = true := by
  rw [hm.problem_rowNames]
  exact List.forall_mem_map.2 h.rows

/-- The objective and the rows have identifiers as their names. -/
theorem HasIdentifiers.isIdentifier (h : m.HasIdentifiers) (hm : m.WellFormed) :
    ∀ r ∈ m.problem.namedExprs, r.1.isIdentifier = true := by
  rw [hm.namedExprs]
  refine List.forall_mem_append.2
    ⟨List.forall_mem_map.2 fun e _ => ?_, List.forall_mem_map.2 h.rows⟩
  exact (by decide : MixedInteger.isIdentifier objectiveRow = true)

/-- Different variables have different labels. -/
theorem HasIdentifiers.nodup_vars (h : m.HasIdentifiers) (hm : m.WellFormed) :
    (m.vars.map fun v => v.name.label).Nodup := by
  have hnames : ∀ n ∈ m.variableNames, n.isIdentifier = true := List.forall_mem_map.2 h.vars
  have hnodup := hm.names.vars
  rw [textNames_eq_map_label hnames, variableNames, List.map_map] at hnodup
  exact hnodup

/-- Different rows have different labels. -/
theorem HasIdentifiers.nodup_rows (h : m.HasIdentifiers) (hm : m.WellFormed) :
    (m.constraints.map fun c => c.name.label).Nodup := by
  have hnames : ∀ n ∈ m.constraints.map fun c => c.name, n.isIdentifier = true :=
    List.forall_mem_map.2 h.rows
  have hnodup := hm.names.rows
  rw [hm.names.rowNames_eq, textNames_eq_map_label hnames, List.map_map] at hnodup
  exact hnodup

/-- A row that is not named like the objective has another label. -/
theorem HasIdentifiers.label_ne (h : m.HasIdentifiers) {c : Constraint K} (hc : c ∈ m.constraints)
    (hobj : c.name ≠ .text objectiveRow) : c.name.label ≠ objectiveRow := by
  intro hl
  obtain ⟨s, hs, -⟩ := Value.exists_of_isIdentifier (h.rows c hc)
  rw [hs, Value.label_text] at hl
  exact hobj (hl ▸ hs)

/-- The objective and the rows have different labels, if no row is named like the objective. -/
theorem HasIdentifiers.nodup_namedExprs (h : m.HasIdentifiers) (hm : m.WellFormed)
    (hobj : ∀ c ∈ m.constraints, c.name ≠ .text objectiveRow) :
    (m.problem.namedExprs.map fun r => r.1.label).Nodup := by
  rw [hm.namedExprs, List.map_append, List.map_map, List.map_map]
  have hrows : ((fun r : Value K × LinearExpr K => r.1.label) ∘ fun c : Constraint K =>
    (c.name, c.expr)) = fun c => c.name.label := rfl
  rw [hrows]
  cases m.objective with
  | none => exact h.nodup_rows hm
  | some e =>
    refine List.nodup_cons.2 ⟨fun hmem => ?_, h.nodup_rows hm⟩
    obtain ⟨c, hc, hl⟩ := List.mem_map.1 hmem
    have hlabelObj : (Value.text objectiveRow : Value K).label = objectiveRow := Value.label_text _
    exact h.label_ne hc (hobj c hc) (hl.trans hlabelObj)

/-! ## A small model -/

/-- A variable between zero and ten. -/
def load : Variable Float := ⟨⟨0, 0⟩, .text "load", .continuous, 0, 10⟩

/-- An integer variable that is at least minus one. -/
def trips : Variable Float := ⟨⟨0, 1⟩, .text "trips", .integer, -1, infinity⟩

/-- The row that twice the load and the trips are at most seven. -/
def loadRow : Constraint Float := ⟨⟨[(load, 2), (trips, 1)], 0⟩, .le, 7, .none⟩

/-- The load without the trips, and three. -/
def gain : LinearExpr Float := ⟨[(load, 1), (trips, -1)], 3⟩

/-- The model of these variables. -/
def variablesModel : Model Float := { empty 0 .none with vars := [load, trips] }

/-- The model of these variables and this row. -/
def rowModel : Model Float :=
  { variablesModel with
    constraints := [loadRow.withName (.text "c0")]
    rowNames := [.text "c0"]
    constraintCounter := 1 }

/-- The model of these variables and this row, where the gain is sought. -/
def loadModel : Model Float := { rowModel with objective := some gain, direction := .maximize }

omit [Arithmetic K] in
theorem wellFormed_pair {m : Model K} {v w : Variable K} (hv : v ∈ m.vars) (hw : w ∈ m.vars)
    (hne : v.id ≠ w.id) (c d : K) : Terms.WellFormed m [(v, c), (w, d)] := by
  refine ⟨List.nodup_cons.2 ⟨by simpa using hne, List.nodup_singleton _⟩, ?_⟩
  exact List.forall_mem_cons.2 ⟨knows_of_mem hv, List.forall_mem_singleton.2 (knows_of_mem hw)⟩

theorem variablesModel_reachable : variablesModel.Reachable := by
  have hload : { empty (K := Float) 0 .none with vars := [load] }.Reachable :=
    (Reachable.empty (K := Float) 0 .none).of_call _
      (Call.admissible_addVariable _ .continuous 0 10 "load") rfl
  exact hload.of_call _ (Call.admissible_addVariable _ .integer (-1) infinity "trips") rfl

theorem rowModel_reachable : rowModel.Reachable := by
  refine variablesModel_reachable.of_call (.addConstraint (.constraint loadRow none) .none) ?_ rfl
  have hrow : (Value.constraint loadRow none).WellFormed variablesModel :=
    wellFormed_pair List.mem_cons_self (List.mem_cons_of_mem _ List.mem_cons_self) (by decide) 2 1
  simp only [Call.Admissible, Call.arguments, List.forall_mem_cons, Value.Admissible, Value.parts]
  exact ⟨⟨hrow, List.forall_mem_nil _⟩, ⟨trivial, List.forall_mem_nil _⟩, List.forall_mem_nil _⟩

theorem loadModel_reachable : loadModel.Reachable := by
  refine rowModel_reachable.of_call (.setObjective (.expr gain) (.direction .maximize)) ?_ rfl
  have hgain : (Value.expr gain).WellFormed rowModel :=
    wellFormed_pair List.mem_cons_self (List.mem_cons_of_mem _ List.mem_cons_self) (by decide)
      1 (-1)
  simp only [Call.Admissible, Call.arguments, List.forall_mem_cons, Value.Admissible, Value.parts]
  exact ⟨⟨hgain, List.forall_mem_nil _⟩, ⟨trivial, List.forall_mem_nil _⟩, List.forall_mem_nil _⟩

theorem loadModel_hasIdentifiers : loadModel.HasIdentifiers :=
  ⟨by decide, by decide⟩

end Model

end MixedInteger
