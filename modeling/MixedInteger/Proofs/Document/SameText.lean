import MixedInteger.Proofs.Document.LpRecovery
import MixedInteger.Proofs.Document.LpUnique
import MixedInteger.Proofs.Model.History

/-!
# Models with the same row-wise text

Nothing but its place in the text tells a name from a sign, a number or the name of a row, and names
are not looked at when they are taken in.  This file says for which names two models with the same
text have the same objective and the same rows, and why other names are left out.

## What is here

* `Model.statements`, `Model.objectiveTerms` — what a model says about its variables.
* `Model.IsLegible` — models whose names and numbers are found again.
* `Model.Draft` — a model in short, by the calls that lead to it.
* `Model.Reached.same_of_lpText_eq` — legible models with the same text say the same.
* `Model.collides_of_names` — names and numbers for which models do not.
-/

set_option autoImplicit false

namespace MixedInteger

open Arithmetic

variable {K : Type} [Arithmetic K] [Printed K]

/-! ## What a model says -/

/-- The coefficients of an expression and the names that they stand by. -/
def LinearExpr.exactTerms (e : LinearExpr K) : List (Extended ℚ × String) :=
  e.terms.map fun t => (Printed.exact t.2, t.1.name.label)

/-- What a constraint says under its name, with its constant on the right-hand side. -/
def Constraint.statement (c : Constraint K) : LpReadRow :=
  ⟨c.name.label, c.expr.exactTerms, c.relation, Printed.exact c.offset⟩

namespace Model

/-- What the constraints of a model say, in their order. -/
def statements (m : Model K) : List LpReadRow := m.constraints.map Constraint.statement

/-- The terms of the objective. -/
def objectiveTerms (m : Model K) : List (Extended ℚ × String) :=
  (m.objective.map LinearExpr.exactTerms).getD []

/-- The constant of the objective. -/
def objectiveConstant (m : Model K) : Extended ℚ :=
  (m.objective.map fun e => Printed.exact e.constant).getD (.finite 0)

/-- A model whose names and numbers are found again: the numbers in the objective and in the rows
are small integers, no name in them holds the end of a line, and the names of the variables in them
are words that are not taken for a number or for a number with a sign. -/
structure IsLegible (m : Model Float) : Prop where
  coefficients : ∀ e ∈ m.exprs, ∀ t ∈ e.terms, Double.IsSmallInteger t.2
  constant : ∀ e ∈ m.objective, Double.IsSmallInteger e.constant
  offsets : ∀ c ∈ m.constraints, Double.IsSmallInteger c.offset
  termNames : ∀ e ∈ m.exprs, ∀ t ∈ e.terms, IsTermName t.1.name.label
  rowNames : ∀ c ∈ m.constraints, '\n' ∉ c.name.label.toList

/-! ## What is written -/

omit [Printed K] in
/-- All rows have names. -/
theorem Registry.problem_rows {m : Model K} (h : m.Registry) :
    m.problem.rows = m.constraints.map fun c => (c.name, c) := by
  have hnames : ∀ c ∈ m.constraints, c.name ≠ .none := fun c hc =>
    (h.rowNames.isName c.name (h.rowNames_eq ▸ List.mem_map_of_mem hc)).ne_none
  rw [List.map_prod_right_eq_zip, ← rowNamesFrom_eq hnames 0]
  rfl

omit [Printed K] in
theorem Registry.isMade {m : Model K} (h : m.Registry) {e : LinearExpr K} (he : e ∈ m.exprs) :
    e.IsMade := by
  rcases List.mem_append.1 he with he | he
  · exact h.objective e (Option.mem_toList.1 he)
  · obtain ⟨c, hc, rfl⟩ := List.mem_map.1 he
    exact h.made c hc

omit [Printed K] in
theorem eq_text_of_lpText {p : Problem K} {text : String} (h : p.lpText = .ok text) :
    (LpFile.ofProblem p).text = text := by
  obtain ⟨-, -, h⟩ := bind_eq_ok.1 h
  obtain ⟨-, -, h⟩ := bind_eq_ok.1 h
  obtain ⟨-, -, h⟩ := bind_eq_ok.1 h
  exact Except.ok.inj h

section Legible

variable {m : Model Float}

/-- **What is printed of an expression is the expression**: no term is left out, and no number
changes. -/
theorem IsLegible.printedTerms_eq_exactTerms (h : m.IsLegible) (hm : m.Registry)
    {e : LinearExpr Float} (he : e ∈ m.exprs) : e.printedTerms = e.exactTerms := by
  have hkept : ∀ t ∈ e.terms, (!eq t.2 zero) = true := fun t ht => by
    rw [Double.ne_zero_of_significant ((hm.isMade he).isKept t ht)]
    rfl
  rw [LinearExpr.printedTerms, List.filter_eq_self.2 hkept]
  refine List.map_congr_left fun t ht => ?_
  rw [(h.coefficients e he t ht).printed_eq]

theorem IsLegible.isLegible_ofExpr (h : m.IsLegible) {e : LinearExpr Float} (he : e ∈ m.exprs) :
    ∀ t ∈ LpTerm.ofExpr e, t.IsLegible := by
  refine List.forall_mem_map.2 fun t ht => ?_
  have ht := (List.mem_filter.1 ht).1
  exact ⟨h.termNames e he t ht, t.2, h.coefficients e he t ht, rfl⟩

theorem isLegible_ofNumber {x : Float} (hx : Double.IsSmallInteger x) {c : LpConstant Float}
    (hc : LpConstant.ofNumber x = some c) : c.IsLegible := by
  unfold LpConstant.ofNumber at hc
  split at hc
  · cases hc
  · obtain rfl := Option.some.inj hc
    exact ⟨Double.numberText_eq x, x, hx, rfl⟩

/-- The statements of a legible model are legible. -/
theorem IsLegible.isLegible_ofProblem (h : m.IsLegible) (hm : m.Registry) :
    (LpFile.ofProblem m.problem).IsLegible where
  objective t ht := by
    change t ∈ (m.objective.map LpTerm.ofExpr).getD [] at ht
    cases ho : m.objective with
    | none =>
      rw [ho] at ht
      cases ht
    | some e =>
      rw [ho] at ht
      exact h.isLegible_ofExpr (objective_mem_exprs ho) t ht
  constant c hc := by
    obtain ⟨e, he, hc⟩ := Option.bind_eq_some_iff.1 hc
    exact isLegible_ofNumber (h.constant e he) hc
  rows r hr := by
    obtain ⟨p, hp, rfl⟩ := List.mem_map.1 hr
    rw [hm.problem_rows] at hp
    obtain ⟨c, hc, rfl⟩ := List.mem_map.1 hp
    exact ⟨h.rowNames c hc, h.isLegible_ofExpr (expr_mem_exprs hc)⟩

/-- **What a reader finds in a legible model is what the model says.** -/
theorem IsLegible.reading_eq (h : m.IsLegible) (hm : m.Registry) :
    (LpFile.ofProblem m.problem).reading.objective = m.objectiveTerms ∧
      (LpFile.ofProblem m.problem).offset = m.objectiveConstant ∧
      (LpFile.ofProblem m.problem).reading.rows = m.statements := by
  refine ⟨?_, ?_, ?_⟩
  · change ((m.objective.map LpTerm.ofExpr).getD []).map _ = _
    unfold objectiveTerms
    cases ho : m.objective with
    | none => rfl
    | some e =>
      exact (printedTerms_eq e).trans (h.printedTerms_eq_exactTerms hm (objective_mem_exprs ho))
  · change ((m.objective.bind fun e => LpConstant.ofNumber e.constant).map _).getD _ = _
    unfold objectiveConstant
    cases ho : m.objective with
    | none => rfl
    | some e => exact (offset_ofNumber e.constant).trans (h.constant e ho).printed_eq
  · change (m.problem.rows.map LpRow.ofConstraint).map _ = _
    rw [hm.problem_rows, List.map_map, List.map_map, statements]
    refine List.map_congr_left fun c hc => ?_
    change LpReadRow.mk _ ((LpTerm.ofExpr c.expr).map _) _ (Printed.printed c.offset) = _
    rw [printedTerms_eq, h.printedTerms_eq_exactTerms hm (expr_mem_exprs hc),
      (h.offsets c hc).printed_eq]
    rfl

end Legible

/-! ## Drafts -/

theorem eq_ok_of_toOption {α : Type} {x : Except Fault α} {a : α} (h : x.toOption = some a) :
    x = .ok a := by
  cases x with
  | error e => cases h
  | ok b => exact congrArg Except.ok (Option.some.inj h)

/-- A row of a draft: terms, a constant and a number that they are at most, perhaps with a name. -/
structure DraftRow where
  /-- The terms. -/
  terms : Terms Float
  /-- The constant. -/
  constant : Float
  /-- The right-hand side. -/
  rhs : Float
  /-- The name, if there is one. -/
  name : Option String

/-- A model in short: names of variables that are not negative, an objective, and rows. -/
structure Draft where
  /-- The names of the variables. -/
  names : List String
  /-- The terms of the objective. -/
  objective : Terms Float
  /-- The rows. -/
  rows : List DraftRow

/-- The variable that is asked for under a name, as the one of its number. -/
def draftVariable (index : Nat) (name : String) : Variable Float :=
  ⟨⟨0, index⟩, .text name, .continuous, 0, infinity⟩

/-- The call that takes a row in. -/
def DraftRow.call (r : DraftRow) : Call Float :=
  .addConstraint (.constraint ⟨.ofTerms r.terms r.constant, .le, r.rhs, .none⟩ (some (.loose 0)))
    (r.name.elim .none .text)

/-- The call that asks for a variable that is not negative. -/
def variableCall (name : String) : Call Float :=
  .addVariable (.domain .continuous) (.real 0) (.real infinity) (.text name)

/-- The calls that a draft stands for. -/
def Draft.calls (d : Draft) : List (Call Float) :=
  d.names.map variableCall ++
    .setObjective (.expr (.ofTerms d.objective 0)) .none :: d.rows.map DraftRow.call

/-- The model that a draft stands for. -/
def Draft.model (d : Draft) : Model Float :=
  d.calls.foldl (fun m c => (Build.exec (Build.perform c) m).2) (empty 0 .none)

/-- A draft can be called for. -/
theorem Draft.reached (d : Draft) : d.model.Reached := by
  refine (Reached.empty 0 .none).foldl
    (List.forall_mem_append.2 ⟨?_, List.forall_mem_cons.2 ⟨?_, ?_⟩⟩)
  · refine List.forall_mem_map.2 fun name _ => ?_
    simp only [variableCall, Call.IsHandedOver, Call.arguments, List.forall_mem_cons]
    exact ⟨⟨rfl, trivial⟩, ⟨rfl, trivial⟩, ⟨rfl, trivial⟩, ⟨rfl, trivial⟩,
      fun _ hv => absurd hv List.not_mem_nil⟩
  · simp [Call.IsHandedOver, Call.arguments, Value.isSettled, Value.IsMade,
      LinearExpr.IsMade.ofTerms]
  · refine List.forall_mem_map.2 fun r _ => ?_
    cases hr : r.name <;>
      simp [DraftRow.call, hr, Call.IsHandedOver, Call.arguments, Value.isSettled, Value.IsMade,
        LinearExpr.IsMade.ofTerms]

/-- A draft in which a row and variables have names that look like parts of a row. -/
def plainDraft : Draft where
  names := ["a:", "+"]
  objective := [(draftVariable 0 "a:", 3), (draftVariable 1 "+", -1)]
  rows := [⟨[(draftVariable 0 "a:", 1), (draftVariable 1 "+", 2)], 5, 4, some "a: + +"⟩]

/-- The same draft with one more variable, which is mentioned nowhere. -/
def idleDraft : Draft := { plainDraft with names := ["a:", "+", "-z <= 1"] }

/-! ## Models with the same text -/

/-- **Legible models with the same text say the same**: they have the same direction, the same rows
with their names, terms, comparisons and right-hand sides, and the same objective. -/
theorem Reached.same_of_lpText_eq {m n : Model Float} (hm : m.Reached) (hn : n.Reached)
    (hmw : m.IsLegible) (hnw : n.IsLegible) {text : String} (hmt : m.problem.lpText = .ok text)
    (hnt : n.problem.lpText = .ok text) :
    m.direction = n.direction ∧ m.statements = n.statements ∧
      m.objectiveTerms = n.objectiveTerms ∧ m.objectiveConstant = n.objectiveConstant := by
  obtain ⟨hmTerms, hmConstant, hmRows⟩ := hmw.reading_eq hm.registry
  obtain ⟨hnTerms, hnConstant, hnRows⟩ := hnw.reading_eq hn.registry
  obtain ⟨hdirection, hterms, hconstant, hrows⟩ := LpFile.reading_eq_of_text_eq
    (hmw.isLegible_ofProblem hm.registry) (hnw.isLegible_ofProblem hn.registry)
    ((eq_text_of_lpText hmt).trans (eq_text_of_lpText hnt).symm)
  rw [hmTerms, hnTerms] at hterms
  rw [hmConstant, hnConstant] at hconstant
  rw [hmRows, hnRows] at hrows
  exact ⟨hdirection, hrows, hterms, hconstant⟩

/-- The drafts have the same text and say the same. -/
theorem same_of_lpText_eq_drafts : ∃ text,
    plainDraft.model.Reached ∧ idleDraft.model.Reached ∧
    plainDraft.model.IsLegible ∧ idleDraft.model.IsLegible ∧
    plainDraft.model.problem.lpText = .ok text ∧ idleDraft.model.problem.lpText = .ok text ∧
    plainDraft.model.direction = idleDraft.model.direction ∧
    plainDraft.model.statements = idleDraft.model.statements ∧
    plainDraft.model.objectiveTerms = idleDraft.model.objectiveTerms ∧
    plainDraft.model.objectiveConstant = idleDraft.model.objectiveConstant := by
  have hnumbers : ∀ d ∈ [plainDraft, idleDraft],
      (∀ e ∈ d.model.exprs, ∀ t ∈ e.terms, Double.IsSmallInteger t.2) ∧
      (∀ e ∈ d.model.objective, Double.IsSmallInteger e.constant) ∧
      ∀ c ∈ d.model.constraints, Double.IsSmallInteger c.offset := by decide +kernel
  have hnames : ∀ d ∈ [plainDraft, idleDraft],
      (∀ e ∈ d.model.exprs, ∀ t ∈ e.terms, t.1.name.label ∈ ["a:", "+"]) ∧
      ∀ c ∈ d.model.constraints, '\n' ∉ c.name.label.toList := by decide +kernel
  have hterm : ∀ s ∈ ["a:", "+"], IsTermName s := by
    have hword : ∀ s ∈ ["a:", "+"], s.toList ≠ [] ∧ ' ' ∉ s.toList ∧ '\n' ∉ s.toList ∧
        s.toList.head? ≠ some '-' ∧ isNumeric s = false := by decide
    intro s hs
    obtain ⟨hne, hspace, hbreak, hminus, hnumeric⟩ := hword s hs
    exact IsWord.isTermName ⟨hne, hspace, hbreak⟩ hminus hnumeric
  have hlegible : ∀ d ∈ [plainDraft, idleDraft], d.model.IsLegible := fun d hd =>
    { coefficients := (hnumbers d hd).1
      constant := (hnumbers d hd).2.1
      offsets := (hnumbers d hd).2.2
      termNames := fun e he t ht => hterm _ ((hnames d hd).1 e he t ht)
      rowNames := (hnames d hd).2 }
  have htext : ∀ d ∈ [plainDraft, idleDraft], d.model.problem.lpText.toOption =
      some "Minimize\n obj: 3 a: - +\nSubject To\n a: + +: a: + 2 + <= -1\nEnd\n" := by
    decide +kernel
  have hplain := hlegible plainDraft List.mem_cons_self
  have hidle := hlegible idleDraft (List.mem_cons_of_mem _ List.mem_cons_self)
  have hplainText := eq_ok_of_toOption (htext plainDraft List.mem_cons_self)
  have hidleText := eq_ok_of_toOption (htext idleDraft (List.mem_cons_of_mem _ List.mem_cons_self))
  exact ⟨_, plainDraft.reached, idleDraft.reached, hplain, hidle, hplainText, hidleText,
    plainDraft.reached.same_of_lpText_eq idleDraft.reached hplain hidle hplainText hidleText⟩

/-! ## Names that are not found again -/

/-- All numbers are small integers, but for bounds that are infinite. -/
structure HasSmallIntegers (m : Model Float) : Prop where
  exprs : ∀ e ∈ m.exprs, Double.IsSmallInteger e.constant ∧
    ∀ t ∈ e.terms, Double.IsSmallInteger t.2
  rhs : ∀ c ∈ m.constraints, Double.IsSmallInteger c.rhs
  bounds : ∀ v ∈ m.vars, ∀ x ∈ [v.lower, v.upper], Double.IsSmallInteger x ∨
    ∃ negative, (Printed.exact x : Extended ℚ) = .infinite negative

instance (m : Model Float) : Decidable m.HasSmallIntegers :=
  decidable_of_iff ((∀ e ∈ m.exprs, Double.IsSmallInteger e.constant ∧
      ∀ t ∈ e.terms, Double.IsSmallInteger t.2) ∧
      (∀ c ∈ m.constraints, Double.IsSmallInteger c.rhs) ∧
      ∀ v ∈ m.vars, ∀ x ∈ [v.lower, v.upper], Double.IsSmallInteger x ∨
        ∃ negative, (Printed.exact x : Extended ℚ) = .infinite negative)
    ⟨fun h => ⟨h.1, h.2.1, h.2.2⟩, fun h => ⟨h.exprs, h.rhs, h.bounds⟩⟩

/-- Two models that calls lead to, with small integers only, have the same text and different rows. -/
structure Collides (m n : Model Float) : Prop where
  reached : m.Reached ∧ n.Reached
  numbers : m.HasSmallIntegers ∧ n.HasSmallIntegers
  text : ∃ text, m.problem.lpText = .ok text ∧ n.problem.lpText = .ok text
  statements : m.statements ≠ n.statements

theorem Draft.collides {c d : Draft}
    (hnumbers : c.model.HasSmallIntegers ∧ d.model.HasSmallIntegers)
    (hsome : c.model.problem.lpText.toOption.isSome = true)
    (hsame : d.model.problem.lpText.toOption = c.model.problem.lpText.toOption)
    (hne : c.model.statements ≠ d.model.statements) : c.model.Collides d.model := by
  obtain ⟨text, htext⟩ := Option.isSome_iff_exists.1 hsome
  exact ⟨⟨c.reached, d.reached⟩, hnumbers,
    ⟨text, eq_ok_of_toOption htext, eq_ok_of_toOption (hsame.trans htext)⟩, hne⟩

/-- A row of these terms that are at most one. -/
def atMostOne (terms : Terms Float) (name : Option String) : DraftRow := ⟨terms, 0, 1, name⟩

/-- A variable of this name that is at most one. -/
def single (name : String) : Draft :=
  ⟨[name], [], [atMostOne [(draftVariable 0 name, 1)] none]⟩

/-- Two variables whose sum is at most one. -/
def sumDraft : Draft :=
  ⟨["x", "y"], [], [atMostOne [(draftVariable 0 "x", 1), (draftVariable 1 "y", 1)] none]⟩

/-- Two variables that are at most one each. -/
def twoRowsDraft : Draft :=
  ⟨["x", "y"], [], [atMostOne [(draftVariable 0 "x", 1)] none,
    atMostOne [(draftVariable 1 "y", 1)] none]⟩

/-- A row whose name goes on in a second line. -/
def brokenDraft : Draft :=
  ⟨["x", "y"], [], [atMostOne [(draftVariable 1 "y", 1)] (some "c0: x <= 1\n c1")]⟩

/-- A row without terms. -/
def emptyDraft : Draft := ⟨[], [], [atMostOne [] none]⟩

/-- A variable whose opposite is at most one. -/
def negatedDraft : Draft := ⟨["x"], [], [atMostOne [(draftVariable 0 "x", -1)] none]⟩

/-- A row whose right-hand side grows when its constant moves over. -/
def largeDraft (constant : Float) : Draft :=
  ⟨["x"], [], [⟨[(draftVariable 0 "x", 1)], constant, 999999999999999, none⟩]⟩

/-- **Names can make a text say something else**: a name that holds a space or the end of a line, an
empty name, a number as a name and a minus in front of a name.  So can a right-hand side that has
too many digits once its constant has moved over. -/
theorem collides_of_names :
    (single "x + y").model.Collides sumDraft.model ∧
    (single "x <= 1\n c1: y").model.Collides twoRowsDraft.model ∧
    brokenDraft.model.Collides twoRowsDraft.model ∧
    (single "").model.Collides emptyDraft.model ∧
    (single "0").model.Collides emptyDraft.model ∧
    (single "-x").model.Collides negatedDraft.model ∧
    (largeDraft (-999999999999999)).model.Collides (largeDraft (-999999999999998)).model := by
  refine ⟨?_, ?_, ?_, ?_, ?_, ?_, ?_⟩
  all_goals
    apply Draft.collides <;> decide +kernel

end Model

end MixedInteger
