import MixedInteger.Proofs.Document.Columns
import MixedInteger.Proofs.Document.LpReading
import MixedInteger.Proofs.Document.MpsRecovery

/-!
# The row-wise text says what the model says

The row-wise text goes row by row, and says something about a variable only where the variable is
not continuous or not between zero and infinity.  A reader finds the whole model in it.

## What is here

* `LpBound.foldl_apply` — the statement about the bounds of a variable says what they are.
* `LpReading.Constrains`, `LpReading.Describes` — a reader has found a model, without its objective
  or with it.
* `Model.HasOwnTerms` — models whose terms mention the variables of the model.
* `Model.exists_lpReading` — a reader finds a model in its text.
-/

set_option autoImplicit false

namespace MixedInteger

variable {K : Type} [Arithmetic K]

open Arithmetic

/-! ## Bounds -/

namespace LpBound

/-- The statement about a variable names it. -/
theorem name_of_ofVariable {v : Variable K} {b : LpBound K} (hb : ofVariable v = some b) :
    b.name = v.name.label := by
  unfold ofVariable at hb
  split at hb
  · cases hb
  split at hb
  · rw [← Option.some.inj hb, name]
  split at hb
  · rw [← Option.some.inj hb, name]
  split at hb
  · rw [← Option.some.inj hb, name]
  · rw [← Option.some.inj hb, name]

/-- There is a statement about a variable unless its bounds are zero and infinity. -/
theorem isSome_ofVariable (v : Variable K) :
    (ofVariable v).isSome = !(eq v.lower zero && eq v.upper infinity) := by
  unfold ofVariable
  split
  next h => rw [h]; rfl
  next h =>
    rw [Bool.not_eq_true] at h
    rw [h]
    split
    · rfl
    split
    · rfl
    split
    · rfl
    · rfl

/-- The variables about which there is a statement. -/
theorem map_name_filterMap (vs : List (Variable K)) : (vs.filterMap ofVariable).map name =
    (vs.filter fun v => !(eq v.lower zero && eq v.upper infinity)).map fun v => v.name.label := by
  induction vs with
  | nil => rfl
  | cons v vs ih =>
    rw [List.filterMap_cons, List.filter_cons, ← isSome_ofVariable]
    cases hb : ofVariable v with
    | none => exact ih
    | some b =>
      rw [List.map_cons, name_of_ofVariable hb, ih]
      rfl

variable [Printed K]

/-- **The statement about a variable says what its bounds are.** -/
theorem foldl_apply (v : Variable K) :
    ((ofVariable v).toList.map (map Printed.printed)).foldl apply ⟨.finite 0, .infinite false⟩ =
      ⟨Printed.printed v.lower, Printed.printed v.upper⟩ := by
  unfold ofVariable
  split
  next h =>
    obtain ⟨hl, hu⟩ := Bool.and_eq_true_iff.1 h
    rw [Printed.printed_of_eq hl, Printed.printed_zero, MpsBound.printed_of_eq_infinity hu]
    rfl
  split
  next h =>
    obtain ⟨hl, hu⟩ := Bool.and_eq_true_iff.1 h
    rw [MpsBound.printed_of_eq_negInfinity hl, MpsBound.printed_of_eq_infinity hu]
    rfl
  split
  next h =>
    rw [← Printed.printed_of_eq h]
    rfl
  split
  next h =>
    rw [MpsBound.printed_of_eq_infinity h]
    rfl
  next => rfl

end LpBound

/-! ## What is found -/

section Describes

variable [Printed K]

/-- The terms of an expression that are not zero, as they are printed. -/
def LinearExpr.printedTerms (e : LinearExpr K) : List (Extended ℚ × String) :=
  (e.terms.filter fun t => !eq t.2 zero).map fun t => (Printed.printed t.2, t.1.name.label)

/-- What a reader has found are the rows and the variables of a model: the same rows, and for each
variable the same bounds and the same kind.  Nothing is said about the bounds of a variable that is
binary or between zero and infinity, nor about the kind of one that is continuous. -/
structure LpReading.Constrains (r : LpReading) (m : Model K) : Prop where
  rows : r.rows = m.constraints.map fun c =>
    ⟨c.name.label, c.expr.printedTerms, c.relation, Printed.printed c.offset⟩
  interval : ∀ v ∈ m.vars, r.interval v.name.label =
    ⟨Printed.printed v.lower, Printed.printed v.upper⟩
  domain : ∀ v ∈ m.vars, r.domain v.name.label = v.domain
  bounds : r.bounds.map LpBound.name = (m.vars.filter fun v =>
    v.domain ≠ .binary && !(eq v.lower zero && eq v.upper infinity)).map fun v => v.name.label
  general : r.general = (m.vars.filter fun v => v.domain = .integer).map fun v => v.name.label
  binary : r.binary = (m.vars.filter fun v => v.domain = .binary).map fun v => v.name.label

/-- What a reader has found is a model: the same objective, the same rows and the same variables. -/
structure LpReading.Describes (r : LpReading) (m : Model K) : Prop extends r.Constrains m where
  direction : r.direction = m.direction
  objective : r.objective = (m.objective.map LinearExpr.printedTerms).getD []
  offset : r.offset = (m.objective.map fun e => Printed.printed e.constant).getD (.finite 0)

end Describes

namespace Model

/-- The terms of the objective and of the rows mention variables of the model. -/
def HasOwnTerms (m : Model K) : Prop := ∀ e ∈ m.exprs, ∀ t ∈ e.terms, t.1 ∈ m.vars

/-- The constant of the objective is finite. -/
def HasFiniteOffset (m : Model K) : Prop :=
  ∀ e, m.objective = some e → isFinite e.constant = true

section Labels

variable {m : Model K} (hm : m.WellFormed) (h : m.HasIdentifiers)

include hm h

/-- A variable is listed under its label where it satisfies what the list is about. -/
theorem mem_labels (p : Variable K → Bool) {v : Variable K} (hv : v ∈ m.vars) :
    v.name.label ∈ (m.vars.filter p).map (fun v => v.name.label) ↔ p v = true := by
  rw [List.mem_map]
  constructor
  · rintro ⟨w, hw, hl⟩
    obtain ⟨hw, hp⟩ := List.mem_filter.1 hw
    rwa [← List.inj_on_of_nodup_map (h.nodup_vars hm) hw hv hl]
  · intro hp
    exact ⟨v, List.mem_filter.2 ⟨hv, hp⟩, rfl⟩

end Labels

variable [Printed K] {m : Model K}

/-- A magnitude is written without a sign. -/
theorem isBare_abs (x : K) : IsBare (numberText (abs x)) :=
  ⟨isWord_numberText _,
    head_of_readMagnitude (Printed.readMagnitude_numberText (Printed.lt_abs_zero x))⟩

/-- The terms of an expression can be written. -/
theorem HasOwnTerms.isPlain_ofExpr (ht : m.HasOwnTerms) (h : m.HasIdentifiers) {e : LinearExpr K}
    (he : e ∈ m.exprs) : ∀ t ∈ LpTerm.ofExpr e, t.IsPlain := by
  refine List.forall_mem_map.2 fun t hmem => ?_
  have hv := h.vars _ (ht e he t (List.mem_filter.1 hmem).1)
  exact ⟨Value.isIdentifier_label hv, isBare_abs t.2⟩

theorem printedTerms_eq (e : LinearExpr K) : (LpTerm.ofExpr e).map
    (fun t => (signed t.negative (Printed.printed t.magnitude), t.name)) = e.printedTerms := by
  rw [LpTerm.ofExpr, List.map_map, LinearExpr.printedTerms]
  exact List.map_congr_left fun t _ => congrArg (·, _) (signed_printed_abs t.2)

omit [Arithmetic K] [Printed K] in
theorem objective_mem_exprs {e : LinearExpr K} (he : m.objective = some e) : e ∈ m.exprs :=
  List.mem_append_left _ (Option.mem_toList.2 he)

omit [Arithmetic K] [Printed K] in
theorem expr_mem_exprs {c : Constraint K} (hc : c ∈ m.constraints) : c.expr ∈ m.exprs :=
  List.mem_append_right _ (List.mem_map_of_mem hc)

/-- A finite constant of the objective is not taken for a name. -/
theorem isPlain_ofNumber {x : K} (hx : isFinite x = true) {c : LpConstant K}
    (hc : LpConstant.ofNumber x = some c) : c.IsPlain := by
  unfold LpConstant.ofNumber at hc
  split at hc
  · cases hc
  · obtain rfl := Option.some.inj hc
    exact ⟨signed_printed_abs x, Printed.printed_of_isFinite hx⟩

theorem offset_ofNumber (x : K) :
    ((LpConstant.ofNumber x).map fun c => (Printed.printed c.value : Extended ℚ)).getD (.finite 0) =
      Printed.printed x := by
  unfold LpConstant.ofNumber
  split
  next hzero => rw [Printed.printed_of_eq hzero, Printed.printed_zero]; rfl
  next => rfl

section Written

variable (hm : m.WellFormed) (h : m.HasIdentifiers) (ht : m.HasOwnTerms)

include hm h

/-- **The statements of a model can be written.** -/
theorem isPlain_ofProblem (ht : m.HasOwnTerms) : (LpFile.ofProblem m.problem).IsPlain := by
  have hvar : ∀ v ∈ m.vars, IsWord v.name.label := fun v hv =>
    isWord_of_isIdentifier (Value.isIdentifier_label (h.vars v hv))
  have hrows : ∀ r ∈ (LpFile.ofProblem m.problem).rows, ∃ c ∈ m.constraints,
      r = LpRow.ofConstraint (c.name, c) := by
    intro r hr
    obtain ⟨p, hp, rfl⟩ := List.mem_map.1 hr
    rw [hm.problem_rows] at hp
    obtain ⟨c, hc, rfl⟩ := List.mem_map.1 hp
    exact ⟨c, hc, rfl⟩
  refine ⟨?_, ?_, ?_, ?_, ?_, ?_, ?_⟩
  · intro t hmem
    change t ∈ (m.objective.map LpTerm.ofExpr).getD [] at hmem
    cases ho : m.objective with
    | none =>
      rw [ho] at hmem
      cases hmem
    | some e =>
      rw [ho] at hmem
      exact ht.isPlain_ofExpr h (objective_mem_exprs ho) t hmem
  · intro c hc
    obtain ⟨e, -, hc⟩ := Option.bind_eq_some_iff.1 hc
    unfold LpConstant.ofNumber at hc
    split at hc
    · cases hc
    · rw [← Option.some.inj hc]
      exact isBare_abs e.constant
  · intro r hr
    obtain ⟨c, hc, rfl⟩ := hrows r hr
    exact isWord_of_isIdentifier (Value.isIdentifier_label (h.rows c hc))
  · intro r hr
    obtain ⟨c, hc, rfl⟩ := hrows r hr
    exact ht.isPlain_ofExpr h (expr_mem_exprs hc)
  · intro b hb
    obtain ⟨v, hv, hb⟩ := List.mem_filterMap.1 hb
    rw [LpBound.name_of_ofVariable hb]
    exact hvar v (List.mem_filter.1 hv).1
  · exact List.forall_mem_map.2 fun v hv => hvar v (List.mem_filter.1 hv).1
  · exact List.forall_mem_map.2 fun v hv => hvar v (List.mem_filter.1 hv).1

/-- The bounds of a variable are found as they are. -/
theorem interval_lpReading {v : Variable K} (hv : v ∈ m.vars) :
    (LpFile.ofProblem m.problem).reading.interval v.name.label =
      ⟨Printed.printed v.lower, Printed.printed v.upper⟩ := by
  have hbinary : v.name.label ∈ (LpFile.ofProblem m.problem).reading.binary ↔
      v.domain = .binary := (mem_labels hm h _ hv).trans decide_eq_true_iff
  unfold LpReading.interval
  split
  next hmem =>
    have hi : v.interval = ⟨zero, one⟩ := (hm.proper v hv).binary (hbinary.1 hmem)
    have hl : v.lower = zero := congrArg Interval.lower hi
    have hu : v.upper = one := congrArg Interval.upper hi
    rw [hl, hu, Printed.printed_zero, Printed.printed_one]
  next hmem =>
    have hwide : v ∈ m.vars.filter fun v => v.domain ≠ .binary :=
      List.mem_filter.2 ⟨hv, decide_eq_true fun hd => hmem (hbinary.2 hd)⟩
    have hnodup : ((m.vars.filter fun v => v.domain ≠ .binary).map fun v => v.name.label).Nodup :=
      (h.nodup_vars hm).sublist (List.filter_sublist.map _)
    have hblock : ((m.vars.filter fun v => v.domain ≠ .binary).flatMap
        fun v => (LpBound.ofVariable v).toList).filter (fun b => b.name = v.name.label) =
        (LpBound.ofVariable v).toList :=
      filter_flatMap_key hnodup
        (fun w _ b hb => LpBound.name_of_ofVariable (Option.mem_toList.1 hb)) hwide
    have hbounds : (LpFile.ofProblem m.problem).reading.bounds =
        ((m.vars.filter fun v => v.domain ≠ .binary).flatMap
          fun v => (LpBound.ofVariable v).toList).map (LpBound.map Printed.printed) := by
      rw [← List.filterMap_eq_flatMap_toList]
      rfl
    have hname : ((fun b : LpBound (Extended ℚ) => decide (b.name = v.name.label)) ∘
        LpBound.map Printed.printed) = fun b : LpBound K => decide (b.name = v.name.label) :=
      funext fun b => by rw [Function.comp_apply, LpBound.name_map]
    rw [hbounds, List.filter_map, hname, hblock]
    exact LpBound.foldl_apply v

/-- The kind of a variable is found as it is. -/
theorem domain_lpReading {v : Variable K} (hv : v ∈ m.vars) :
    (LpFile.ofProblem m.problem).reading.domain v.name.label = v.domain := by
  have hbinary : v.name.label ∈ (LpFile.ofProblem m.problem).reading.binary ↔
      v.domain = .binary := (mem_labels hm h _ hv).trans decide_eq_true_iff
  have hgeneral : v.name.label ∈ (LpFile.ofProblem m.problem).reading.general ↔
      v.domain = .integer := (mem_labels hm h _ hv).trans decide_eq_true_iff
  rw [LpReading.domain]
  simp only [hbinary, hgeneral]
  cases v.domain <;> rfl

omit hm h in
/-- The variables whose bounds are stated. -/
theorem bounds_lpReading : (LpFile.ofProblem m.problem).reading.bounds.map LpBound.name =
    (m.vars.filter fun v => v.domain ≠ .binary &&
      !(eq v.lower zero && eq v.upper infinity)).map fun v => v.name.label := by
  have hname : (LpBound.name ∘ LpBound.map Printed.printed) = (LpBound.name (K := K)) :=
    funext fun b => LpBound.name_map _ b
  have hbounds : (LpFile.ofProblem m.problem).reading.bounds =
      ((m.vars.filter fun v => v.domain ≠ .binary).filterMap LpBound.ofVariable).map
        (LpBound.map Printed.printed) := rfl
  rw [hbounds, List.map_map, hname, LpBound.map_name_filterMap, List.filter_filter]
  simp only [Bool.and_comm]

/-- **A reader finds the rows and the variables** in the statements that describe a model, whatever
it finds as the objective. -/
theorem constrains_lpReading (terms : List (Extended ℚ × String)) (offset : Extended ℚ) :
    LpReading.Constrains { (LpFile.ofProblem m.problem).reading with
      objective := terms, offset := offset } m where
  rows := by
    change (m.problem.rows.map LpRow.ofConstraint).map _ = _
    rw [hm.problem_rows, List.map_map, List.map_map]
    refine List.map_congr_left fun c _ => ?_
    exact congrArg (LpReadRow.mk _ · _ _) (printedTerms_eq c.expr)
  interval v hv := interval_lpReading hm h hv
  domain v hv := domain_lpReading hm h hv
  bounds := bounds_lpReading
  general := rfl
  binary := rfl

/-- **A reader finds the model** in the statements that describe it. -/
theorem describes_lpReading : (LpFile.ofProblem m.problem).reading.Describes m where
  toConstrains := constrains_lpReading hm h _ _
  direction := rfl
  objective := by
    change ((m.objective.map LpTerm.ofExpr).getD []).map _ = _
    cases m.objective with
    | none => rfl
    | some e => exact printedTerms_eq e
  offset := by
    change ((m.objective.bind fun e => LpConstant.ofNumber e.constant).map _).getD _ = _
    cases m.objective with
    | none => rfl
    | some e => exact offset_ofNumber e.constant

end Written

/-! ## The text of a model -/

omit [Printed K] in
/-- An expression whose first term is named by a text can be written. -/
theorem requireTextStart_eq_ok {e : LinearExpr K}
    (he : ∀ t ∈ e.terms, t.1.name.isIdentifier = true) : requireTextStart e = .ok () := by
  unfold requireTextStart
  split
  · rfl
  next t ht =>
    obtain ⟨s, hs, -⟩ := Value.exists_of_isIdentifier (he t (List.mem_of_find?_eq_some ht))
    rw [hs, if_pos]
    rw [Bool.or_eq_true]
    exact .inr rfl

omit [Printed K] in
/-- A model whose names are identifiers has a row-wise text. -/
theorem lpText_eq_ok (hm : m.WellFormed) (h : m.HasIdentifiers) (ht : m.HasOwnTerms) :
    m.problem.lpText = .ok (LpFile.ofProblem m.problem).text := by
  have hterms : ∀ e ∈ m.exprs, ∀ t ∈ e.terms, t.1.name.isIdentifier = true :=
    fun e he t hmem => h.vars _ (ht e he t hmem)
  have hobjective : m.objective.forM requireTextStart = .ok () := by
    cases ho : m.objective with
    | none => rfl
    | some e => exact requireTextStart_eq_ok (hterms e (objective_mem_exprs ho))
  have hrows : m.constraints.forM (fun c => requireTextStart c.expr) = .ok () :=
    forM_eq_ok fun c hc => requireTextStart_eq_ok (hterms c.expr (expr_mem_exprs hc))
  have hnames : ∀ n ∈ m.problem.lpNames, n.isIdentifier = true := by
    refine List.forall_mem_append.2 ⟨h.problem_rowNames hm, List.forall_mem_map.2 fun v hv => ?_⟩
    rcases List.mem_append.1 hv with hv | hv
    · obtain ⟨e, he, hv⟩ := List.mem_flatMap.1 hv
      obtain ⟨t, hmem, rfl⟩ := List.mem_map.1 hv
      exact hterms e he t hmem
    · exact h.vars v (List.mem_filter.1 hv).1
  rw [Problem.lpText]
  change (do m.objective.forM requireTextStart; m.constraints.forM fun c => requireTextStart c.expr
             requireTexts m.problem.lpNames; return (LpFile.ofProblem m.problem).text) = _
  rw [hobjective, hrows, requireTexts_eq_ok hnames]
  rfl

/-- **The row-wise text of a model has its rows and its variables**, whatever the numbers are. -/
theorem WellFormed.exists_lpReading_constrains (hm : m.WellFormed) (h : m.HasIdentifiers)
    (ht : m.HasOwnTerms) :
    ∃ text r, m.problem.lpText = .ok text ∧ LpReading.read text = some r ∧ r.Constrains m := by
  obtain ⟨terms, offset, hread, -⟩ := LpFile.read_text (isPlain_ofProblem hm h ht)
  exact ⟨_, _, lpText_eq_ok hm h ht, hread, constrains_lpReading hm h terms offset⟩

/-- **The row-wise text of a model says what the model says.**  If the variables and the rows are
named by identifiers, the terms mention variables of the model and the constant of the objective is
finite, there is a text, and what the reader finds in it is the model: the direction, the objective
with its terms in their order and its constant, the rows with theirs, and the bounds and the kind of
each variable.  Bounds and kinds are stated only where they have to be. -/
theorem exists_lpReading {m : Model Float} (hm : m.Reachable) (h : m.HasIdentifiers)
    (ht : m.HasOwnTerms) (hoffset : m.HasFiniteOffset) :
    ∃ text r, m.problem.lpText = .ok text ∧ LpReading.read text = some r ∧ r.Describes m := by
  have hw := hm.wellFormed
  obtain ⟨terms, offset, hread, hplain⟩ := LpFile.read_text (isPlain_ofProblem hw h ht)
  obtain ⟨rfl, rfl⟩ := hplain fun c hc => by
    obtain ⟨e, he, hc⟩ := Option.bind_eq_some_iff.1 hc
    exact isPlain_ofNumber (hoffset e he) hc
  exact ⟨_, _, lpText_eq_ok hw h ht, hread, describes_lpReading hw h⟩

theorem loadModel_hasOwnTerms : loadModel.HasOwnTerms := by
  have hload : load ∈ loadModel.vars := List.mem_cons_self
  have htrips : trips ∈ loadModel.vars := List.mem_cons_of_mem _ List.mem_cons_self
  refine List.forall_mem_cons.2 ⟨?_, List.forall_mem_singleton.2 ?_⟩
  · exact List.forall_mem_cons.2 ⟨hload, List.forall_mem_singleton.2 htrips⟩
  · exact List.forall_mem_cons.2 ⟨hload, List.forall_mem_singleton.2 htrips⟩

theorem loadModel_hasFiniteOffset : loadModel.HasFiniteOffset := by
  rintro e ⟨⟩
  decide

/-- What is found in the text of the small model. -/
theorem exists_lpReading_loadModel : ∃ text r, loadModel.problem.lpText = .ok text ∧
    LpReading.read text = some r ∧ r.Describes loadModel :=
  exists_lpReading loadModel_reachable loadModel_hasIdentifiers loadModel_hasOwnTerms
    loadModel_hasFiniteOffset

end Model

end MixedInteger
