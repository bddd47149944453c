import MixedInteger.Proofs.Document.Columns

/-!
# The names of the rows

The column-wise text declares the objective under a name of its own, which a row may have too.  It
collects the coefficients of a variable by the names of the rows, so the coefficients in such a row
are added to those in the objective.  This is the only way in which coefficients are added up: the
names of the rows are apart from each other.  Names that are not texts can still look alike.

## What is here

* `MpsFile.declared` — the names that a text declares.
* `Model.IsMerged` — a variable in the objective and in the row of its name.
* `Model.WellFormed.exists_columnEntries_sum` — its entry is a sum.
* `Model.WellFormed.columnEntries_of_not_isMerged` — no other entry is.
* `Model.WellFormed.nodup_declared_iff` — when the names are apart.
-/

set_option autoImplicit false

namespace MixedInteger

variable {K : Type} [Arithmetic K]

open Arithmetic

/-- The names that a column-wise text declares: that of the objective and those of the rows. -/
def MpsFile.declared (f : MpsFile K) : List String := objectiveRow :: f.rows.map Prod.snd

/-! ## The first entry of a column -/

/-- The first entry stays as long as no row is found under its name. -/
theorem addEntry_head {key row : Value K} (h : key.sameKey row = false) (x c : K)
    (entries : List (Value K × K)) :
    addEntry row c ((key, x) :: entries) = (key, x) :: addEntry row c entries := by
  rw [addEntry, if_neg (by simp [h])]

namespace Problem

/-- Rows under other names leave the first entry as it is. -/
theorem exists_foldl_head {v : Variable K} {key : Value K} {x : K}
    {rows : List (Value K × LinearExpr K)} (hrows : ∀ r ∈ rows, key.sameKey r.1 = false)
    (hterms : ∀ r ∈ rows, (r.2.terms.map fun t => t.1.id).Nodup) (entries : List (Value K × K)) :
    ∃ rest, rows.foldl (fun acc row => (row.2.terms.filter fun t => t.1.id = v.id).foldl
      (fun acc t => addEntry row.1 t.2 acc) acc) ((key, x) :: entries) = (key, x) :: rest := by
  induction rows generalizing entries with
  | nil => exact ⟨entries, rfl⟩
  | cons r rows ih =>
    have ih := ih (fun s hs => hrows s (List.mem_cons_of_mem r hs))
      fun s hs => hterms s (List.mem_cons_of_mem r hs)
    rw [List.foldl_cons, foldl_addEntry_eq (hterms r List.mem_cons_self)]
    cases Terms.get? r.2.terms v with
    | none => exact ih entries
    | some c =>
      rw [Option.elim_some, addEntry_head (hrows r List.mem_cons_self)]
      exact ih (addEntry r.1 c entries)

/-- The first entry of a column is a sum, if another row is found under the name of the first. -/
theorem exists_columnEntries_sum {p : Problem K} {v : Variable K}
    {first again : Value K × LinearExpr K} {before after : List (Value K × LinearExpr K)}
    (hexprs : p.namedExprs = first :: (before ++ again :: after))
    (hterms : ∀ r ∈ p.namedExprs, (r.2.terms.map fun t => t.1.id).Nodup)
    (hbefore : ∀ r ∈ before, first.1.sameKey r.1 = false)
    (hagain : first.1.sameKey again.1 = true) (hafter : ∀ r ∈ after, first.1.sameKey r.1 = false)
    {a b : K} (ha : Terms.get? first.2.terms v = some a)
    (hb : Terms.get? again.2.terms v = some b) :
    ∃ rest, p.columnEntries v = (first.1, zero + a + b) :: rest := by
  rw [hexprs] at hterms
  obtain ⟨hfirst, hterms⟩ := List.forall_mem_cons.1 hterms
  obtain ⟨htermsBefore, hterms⟩ := List.forall_mem_append.1 hterms
  obtain ⟨htermsAgain, htermsAfter⟩ := List.forall_mem_cons.1 hterms
  obtain ⟨rest, hrest⟩ := exists_foldl_head (v := v) (x := zero + a) hbefore htermsBefore []
  obtain ⟨rest', hrest'⟩ :=
    exists_foldl_head (v := v) (x := zero + a + b) hafter htermsAfter rest
  refine ⟨rest', ?_⟩
  rw [columnEntries, hexprs, List.foldl_cons, List.foldl_append, List.foldl_cons,
    foldl_addEntry_eq hfirst, ha, Option.elim_some, addEntry, hrest, foldl_addEntry_eq htermsAgain,
    hb, Option.elim_some, addEntry, if_pos hagain, hrest']

end Problem

namespace Model

variable {m : Model K}

/-- The first variable has a coefficient in the objective and another one in a row that is named
like it. -/
def IsMerged (m : Model K) (v : Variable K) (a b : K) : Prop :=
  ∃ e c, m.objective = some e ∧ c ∈ m.constraints ∧ c.name = .text objectiveRow ∧
    Terms.get? e.terms v = some a ∧ Terms.get? c.expr.terms v = some b

/-- **The entry is a sum** where the objective and the row of its name mention a variable. -/
theorem WellFormed.exists_columnEntries_sum (hm : m.WellFormed) {v : Variable K} {a b : K}
    (h : m.IsMerged v a b) :
    ∃ rest, m.problem.columnEntries v = (.text objectiveRow, zero + a + b) :: rest := by
  obtain ⟨e, c, he, hc, hname, ha, hb⟩ := h
  obtain ⟨before, after, hcs⟩ := List.append_of_mem hc
  have hself : (Value.text objectiveRow : Value K).sameKey c.name = true := by
    rw [hname, Value.sameKey_text, beq_self_eq_true]
  have hapart := hm.pairwise_rows
  rw [hcs, List.map_append, List.map_cons, List.pairwise_append, List.pairwise_cons] at hapart
  obtain ⟨-, ⟨hafter, -⟩, hbefore⟩ := hapart
  have hexprs := hm.namedExprs
  rw [he, hcs, List.map_append, List.map_cons] at hexprs
  refine Problem.exists_columnEntries_sum hexprs hm.nodup_terms
    (fun r hr => ?_) hself (fun r hr => hname ▸ hafter r hr) ha hb
  -- A row before that one is not found under its name, which is that of the objective.
  refine Bool.eq_false_iff.2 fun hsame => ?_
  have hne := hbefore r hr _ List.mem_cons_self
  rw [Value.eq_of_text_sameKey hsame, hself] at hne
  cases hne

/-- **The entries are the coefficients row by row** where the objective and the row of its name do
not both mention the variable. -/
theorem WellFormed.columnEntries_of_not_isMerged (hm : m.WellFormed) {v : Variable K}
    (h : ¬∃ a b, m.IsMerged v a b) :
    m.problem.columnEntries v = m.problem.namedExprs.filterMap (Problem.entry v) := by
  refine Problem.columnEntries_eq ?_ hm.nodup_terms
  rw [hm.namedExprs]
  refine List.pairwise_append.2 ⟨?_, hm.pairwise_rows.imp fun hne _ _ => hne, ?_⟩
  · cases m.objective with
    | none => exact .nil
    | some e => exact List.pairwise_singleton _ _
  · intro r hr s hs ha hb
    obtain ⟨e, he, rfl⟩ := List.mem_map.1 hr
    obtain ⟨c, hc, rfl⟩ := List.mem_map.1 hs
    obtain ⟨a, ha⟩ := Option.isSome_iff_exists.1 ha
    obtain ⟨b, hb⟩ := Option.isSome_iff_exists.1 hb
    refine Bool.eq_false_iff.2 fun hsame => h ⟨a, b, e, c, Option.mem_toList.1 he, hc, ?_, ha, hb⟩
    exact Value.eq_of_text_sameKey hsame

/-! ## The names -/

/-- The names are apart if no row looks like the objective, and no two rows look alike of which one
is not named by a text. -/
theorem WellFormed.nodup_declared_iff (hm : m.WellFormed) (title : String) :
    (MpsFile.ofProblem title m.problem).declared.Nodup ↔
      (∀ c ∈ m.constraints, c.name.label ≠ objectiveRow) ∧
      m.constraints.Pairwise fun c d =>
        c.name.text? = none ∨ d.name.text? = none → c.name.label ≠ d.name.label := by
  have hrows : (MpsFile.ofProblem title m.problem).rows.map Prod.snd =
      m.constraints.map fun c => c.name.label := by
    change (m.problem.rows.map fun r => (r.2.relation, r.1.label)).map Prod.snd = _
    rw [hm.problem_rows, List.map_map, List.map_map]
    rfl
  have hapart := hm.names.apart
  rw [hm.names.rowNames_eq, List.pairwise_map] at hapart
  rw [MpsFile.declared, hrows, List.nodup_cons, List.nodup_iff_pairwise_ne, List.pairwise_map]
  refine and_congr ?_ ⟨fun h => h.imp ?_, fun h => ?_⟩
  · rw [List.mem_map]
    exact ⟨fun h c hc hl => h ⟨c, hc, hl⟩, fun h ⟨c, hc, hl⟩ => h c hc hl⟩
  · exact fun hne _ => hne
  · refine (h.and hapart).imp fun {c d} ⟨hne, hsame⟩ hl => ?_
    -- Texts that look alike are one.
    cases hc : c.name.text? with
    | none => exact hne (.inl hc) hl
    | some s =>
      cases hd : d.name.text? with
      | none => exact hne (.inr hd) hl
      | some t =>
        rw [Value.eq_text_of_text? hc, Value.eq_text_of_text? hd] at hl hsame
        rw [Value.label_text, Value.label_text] at hl
        rw [Value.sameKey_text, hl, beq_self_eq_true] at hsame
        cases hsame

/-- **The declared names and the entries of a column.**  The names are apart if no row looks like
the objective, and no two rows look alike of which one is not named by a text.  The entries of a
column are its coefficients row by row, unless the objective and the row of its name both mention
the variable: then their coefficients are added up. -/
theorem declared_columnEntries_spec [Sensible K] (hm : m.Reachable) (title : String) :
    ((MpsFile.ofProblem title m.problem).declared.Nodup ↔
      (∀ c ∈ m.constraints, c.name.label ≠ objectiveRow) ∧
      m.constraints.Pairwise fun c d =>
        c.name.text? = none ∨ d.name.text? = none → c.name.label ≠ d.name.label) ∧
    ∀ v, ((¬∃ a b, m.IsMerged v a b) →
        m.problem.columnEntries v = m.problem.namedExprs.filterMap (Problem.entry v)) ∧
      ∀ a b, m.IsMerged v a b →
        ∃ rest, m.problem.columnEntries v = (.text objectiveRow, zero + a + b) :: rest :=
  ⟨hm.wellFormed.nodup_declared_iff title, fun _ =>
    ⟨hm.wellFormed.columnEntries_of_not_isMerged,
      fun _ _ => hm.wellFormed.exists_columnEntries_sum⟩⟩

/-! ## A row that is named like the objective -/

/-- The row that the load is at most five, under the name of the objective. -/
def clashRow : Constraint Float := ⟨⟨[(load, 1)], 0⟩, .le, 5, .text objectiveRow⟩

/-- The model of the load and this row. -/
def clashRowModel : Model Float :=
  { empty 0 .none with
    vars := [load], constraints := [clashRow], rowNames := [.text objectiveRow] }

/-- The same model, where the load is sought. -/
def clashModel : Model Float := { clashRowModel with objective := some ⟨[(load, 1)], 0⟩ }

theorem clashModel_reachable : clashModel.Reachable := by
  have hvars : { empty (K := Float) 0 .none with vars := [load] }.Reachable :=
    (Reachable.empty (K := Float) 0 .none).of_call _
      (Call.admissible_addVariable _ .continuous 0 10 "load") rfl
  have hterms : ∀ m : Model Float, load ∈ m.vars → Terms.WellFormed m [(load, 1)] := fun m hm =>
    ⟨List.nodup_singleton _, List.forall_mem_singleton.2 (knows_of_mem hm)⟩
  have hrow : clashRowModel.Reachable := by
    refine hvars.of_call
      (.addConstraint (.constraint clashRow none) (.text objectiveRow)) ?_ rfl
    have hwf := hterms { empty (K := Float) 0 .none with vars := [load] } List.mem_cons_self
    simp only [Call.Admissible, Call.arguments, List.forall_mem_cons, Value.Admissible, Value.parts]
    exact ⟨⟨hwf, List.forall_mem_nil _⟩, ⟨trivial, List.forall_mem_nil _⟩, List.forall_mem_nil _⟩
  refine hrow.of_call (.setObjective (.expr ⟨[(load, 1)], 0⟩) (.direction .minimize)) ?_ rfl
  have hwf := hterms clashRowModel List.mem_cons_self
  simp only [Call.Admissible, Call.arguments, List.forall_mem_cons, Value.Admissible, Value.parts]
  exact ⟨⟨hwf, List.forall_mem_nil _⟩, ⟨trivial, List.forall_mem_nil _⟩, List.forall_mem_nil _⟩

/-- The two coefficients of the load are added up. -/
theorem declared_columnEntries_spec_clashModel : clashModel.Reachable ∧
    clashModel.IsMerged load 1 1 ∧ ∃ rest : List (Value Float × Float),
      clashModel.problem.columnEntries load = (.text objectiveRow, zero + 1 + 1) :: rest := by
  have hmerged : clashModel.IsMerged load 1 1 :=
    ⟨_, _, rfl, List.mem_cons_self, rfl, rfl, rfl⟩
  exact ⟨clashModel_reachable, hmerged,
    ((declared_columnEntries_spec clashModel_reachable "problem").2 load).2 1 1 hmerged⟩

/-- **A row can have the name of the objective**, and then their coefficients are added up. -/
theorem exists_declared_not_nodup : ∃ (m : Model Float) (text : String) (v : Variable Float),
    m.Reachable ∧ m.problem.mpsText = .ok text ∧
    ¬(MpsFile.ofProblem "problem" m.problem).declared.Nodup ∧ m.IsMerged v 1 1 ∧
    m.problem.columnEntries v = [(.text objectiveRow, 2)] := by
  refine ⟨clashModel, _, load, clashModel_reachable, rfl, ?_,
    ⟨_, _, rfl, List.mem_cons_self, rfl, rfl, rfl⟩, rfl⟩
  decide

end Model

end MixedInteger
