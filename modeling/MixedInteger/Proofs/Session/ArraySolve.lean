import MixedInteger.Proofs.Document.StandardForm
import MixedInteger.Proofs.Model.History
import MixedInteger.Proofs.Session.Records

/-!
# Solving a model by way of its arrays

The arrays of a model are to be minimized and have no constant.  The engine answers a point without
names and the cost of that point; what a caller gets back is a solution with a value for each
variable and the objective of the model.

## What is here

* `ArrayReply.Finds`, `ArrayReply.FindsNothing` — answers with a solution and answers without one.
* `Model.objectiveFromArrays_eq` — the objective of a model from the cost of a point.
* `ArrayReply.Finds.outcomeOfReply_eq_ok` — the outcome of a point that the engine has found.
* `Session.exists_answers_of_newTable` — what a solution made from an outcome answers.
* `Run.solveModel_arrays_spec` — the solution that a caller gets.
-/

set_option autoImplicit false

namespace MixedInteger

open Arithmetic Fallible

/-! ## What the engine answers -/

/-- The answers have a status that can be read, but that comes without a solution, or no point. -/
def ArrayReply.FindsNothing {K : Type} [Arithmetic K] (r : ArrayReply K) : Prop :=
  ∃ status, Ask.statusOfNumber r.status = .ok status ∧
    (r.point = .none ∨ status ∉ solutionStatuses)

variable {F : Type} [Field F] [LinearOrder F] [FloorRing F] [ToString F] [Extended.Tolerance F]

/-- The answers have a status that comes with a solution, and hold a point and its cost. -/
structure ArrayReply.Finds (r : ArrayReply (Extended F)) (cost : List (Extended F)) (x : List F) :
    Prop where
  status : ∃ status, Ask.statusOfNumber r.status = .ok status ∧ status ∈ solutionStatuses
  point : ∃ items, r.point.elements = .ok items ∧ items.mapM Value.toNumber = .ok (x.map .finite)
  objective : r.objective.toNumber = .ok (dot cost x)

/-! ## The objective -/

namespace Model

/-- The objective, which is zero if there is none. -/
def objectiveValue (m : Model (Extended F)) (a : Assignment F) : Extended F :=
  (m.objective.map fun e => e.value a.lift).getD 0

theorem cost_eq_costs {K : Type} [Arithmetic K] {m : Model K} {s : StandardForm K}
    (hs : m.standardForm = .ok s) : s.cost = m.costs := by
  rw [standardForm] at hs
  split at hs
  · cases hs
  · split at hs
    · cases hs
    · cases hs
      rfl

theorem outcomeFromArrays_eq {K : Type} [Arithmetic K] {o : Outcome K} {c : K}
    (h : o.objective = .real c) (m : Model K) (s : StandardForm K) :
    m.outcomeFromArrays s o = { o with objective := .real (m.objectiveFromArrays s c) } := by
  rw [outcomeFromArrays, h]
  rfl

/-- **The objective of a model from the cost of a point.** -/
theorem objectiveFromArrays_eq {m : Model (Extended F)} {s : StandardForm (Extended F)}
    {a : Assignment F} (h : dot s.cost (m.point a) + s.offset = m.minimized a) :
    m.objectiveFromArrays s (dot s.cost (m.point a)) = m.objectiveValue a := by
  rw [objectiveFromArrays, h, minimized, objectiveValue]
  cases m.objective with
  | none =>
    cases m.direction with
    | minimize => rfl
    | maximize => exact congrArg Extended.finite neg_zero
  | some e =>
    cases m.direction with
    | minimize => rfl
    | maximize => exact neg_neg _

omit [LinearOrder F] [FloorRing F] [ToString F] [Extended.Tolerance F] in
/-- Numbers in a row can be assigned to identities that are apart. -/
theorem exists_map_eq {ids : List VariableId} (hids : ids.Nodup) {x : List F}
    (hx : x.length = ids.length) : ∃ a : Assignment F, ids.map a = x := by
  induction ids generalizing x with
  | nil => exact ⟨fun _ => 0, (List.eq_nil_of_length_eq_zero hx).symm⟩
  | cons i ids ih =>
    cases x with
    | nil => cases hx
    | cons y x =>
      rw [List.nodup_cons] at hids
      obtain ⟨a, rfl⟩ := ih hids.2 (Nat.succ.inj hx)
      refine ⟨Function.update a i y, ?_⟩
      rw [List.map_cons, Function.update_self]
      refine congrArg (y :: ·) (List.map_congr_left fun j hj => ?_)
      exact Function.update_of_ne (ne_of_mem_of_not_mem hj hids.1) y a

omit [LinearOrder F] [FloorRing F] [ToString F] [Extended.Tolerance F] in
/-- **A number for each variable** is what the variables are assigned. -/
theorem exists_point_eq {m : Model (Extended F)} (hids : (m.vars.map fun v => v.id).Nodup)
    {x : List F} (hx : x.length = m.vars.length) : ∃ a : Assignment F, m.point a = x := by
  obtain ⟨a, ha⟩ := exists_map_eq (x := x) hids (by rw [List.length_map, hx])
  exact ⟨a, by rw [point, ← ha, List.map_map]; rfl⟩

end Model

/-! ## The outcome -/

namespace Ask

section

variable {K : Type} [Arithmetic K]

/-- The outcome of a solve without a solution. -/
def emptyOutcome (r : ArrayReply K) (status : String) : Outcome K :=
  { Outcome.plain (.text status) .none .none with gap := r.gap, nodeCount := r.nodes }

/-- The outcome of a solve from what the engine answers. -/
def outcomeOfReply (r : ArrayReply K) (names : Value K) (status : String) :
    Except Fault (Outcome K) :=
  if r.point.isPresent && solutionStatuses.contains status then do
    let objective ← r.objective.toNumber
    let solution ← valuesByName (← names.pairs r.point)
    return { emptyOutcome r status with objective := .real objective, solution := solution }
  else return emptyOutcome r status

/-- The engine gets the arrays once the settings have been read, and before its answers are looked
at. -/
theorem exec_solveArrays_eq (p : ArrayProblem K) (names : Value K)
    (given : Except Fault (Settings K)) (w : World K) : exec (solveArrays p names given) w =
      match given.bind Settings.arrayOptions with
      | .error f => (.error f, w)
      | .ok options => (do outcomeOfReply w.arrayReply names (← statusOfNumber w.arrayReply.status),
        { w with trace := w.trace ++ [.arrays p options] }) := by
  rcases given with f | s
  · rfl
  · rw [solveArrays, exec_bind_of_ok (exec_liftM _ w), Except.bind]
    rcases s.arrayOptions with f | options
    · rfl
    · have hrecord : exec (record (.arrays p options)) w =
          (.ok ⟨⟩, { w with trace := w.trace ++ [.arrays p options] }) := rfl
      rw [exec_bind_of_ok (exec_liftM _ w), exec_bind_of_ok hrecord, exec_bind_of_ok (exec_get _)]
      refine exec_liftM_bind fun status => ?_
      rw [outcomeOfReply, exec_ite]
      split
      · exact exec_liftM_bind fun c => exec_liftM_bind fun columns => exec_liftM_bind fun _ => rfl
      · rfl

theorem exec_solveArrays {p : ArrayProblem K} {names : Value K} {given : Settings K}
    {options : List (String × Value K)} {w : World K} {status : String}
    (hoptions : given.arrayOptions = .ok options)
    (hstatus : statusOfNumber w.arrayReply.status = .ok status) :
    exec (solveArrays p names (.ok given)) w = (outcomeOfReply w.arrayReply names status,
      { w with trace := w.trace ++ [.arrays p options] }) := by
  rw [exec_solveArrays_eq, Except.bind, hoptions, hstatus]
  rfl

theorem outcomeOfReply_of_nothing {r : ArrayReply K} {status : String}
    (h : r.point = .none ∨ status ∉ solutionStatuses) (names : Value K) :
    outcomeOfReply r names status = .ok (emptyOutcome r status) := by
  refine if_neg fun hcond => ?_
  rw [Bool.and_eq_true, List.contains_iff_mem] at hcond
  rcases h with h | h
  · rw [h] at hcond
    cases hcond.1
  · exact h hcond.2

/-- What the engine answers to the arrays of a model becomes an outcome of the model. -/
theorem exec_solveModel_arrays {m : Model K} {form : StandardForm K} {given : Settings K}
    {options : List (String × Value K)} {w : World K} {status : String} {o : Outcome K}
    (hform : m.standardForm = .ok form) (hoptions : given.arrayOptions = .ok options)
    (hstatus : statusOfNumber w.arrayReply.status = .ok status)
    (ho : outcomeOfReply w.arrayReply (.list m.variableNames) status = .ok o) (format : Value K) :
    exec (solveModel m format (.text "scipy") (.ok given)) w = (.ok (m.outcomeFromArrays form o),
      { w with trace := w.trace ++ [.arrays (.ofStandardForm form) options] }) := by
  have hscipy : exec (solveModel m format (.text "scipy") (.ok given)) w =
      exec (solveModelArrays m (.ok given)) w := by
    simp [solveModel, Value.isEqual, Value.compare?, Value.linear?, Value.sameKey_text, exec_bind]
  rw [hscipy, solveModelArrays, hform, exec_bind_of_ok (exec_liftM _ w)]
  dsimp only
  rw [exec_bind_of_ok ((exec_solveArrays hoptions hstatus).trans (by rw [ho]))]
  rfl

end

/-- **The values by name** of a point, given without names. -/
theorem valuesByName_eq_ok {vs : List (Variable (Extended F))}
    (hnames : Value.AreNames (vs.map Variable.name)) {a : Assignment F}
    {items : List (Value (Extended F))} (h : items.mapM Value.toNumber = .ok (vs.map a.lift)) :
    valuesByName ((vs.map Variable.name).zip items) =
      .ok (.newTable (vs.map fun v => (v.name, .real (a.lift v)))) := by
  refine Value.tableFrom_eq_ok ?_ (by rwa [List.map_map])
  have hread := List.forall₂_map_right_iff.1 (forall₂_of_mapM_eq_ok h)
  clear h hnames
  induction hread with
  | nil => exact .nil
  | @cons item v items vs hitem _ ih =>
    refine .cons ?_ ih
    rw [hitem]
    rfl

end Ask

theorem Value.pairs_eq_ok {K : Type} [Arithmetic K] {v w : Value K} {ns items : List (Value K)}
    (hv : v.elements = .ok ns) (hw : w.elements = .ok items) : v.pairs w = .ok (ns.zip items) := by
  rw [pairs, requireElements, requireElements, hv, hw]
  cases ns with
  | nil => rfl
  | cons n ns => rfl

/-- **The outcome of a point that the engine has found**, by the names of the variables. -/
theorem ArrayReply.Finds.outcomeOfReply_eq_ok {r : ArrayReply (Extended F)}
    {cost : List (Extended F)} {m : Model (Extended F)} {a : Assignment F}
    (h : r.Finds cost (m.point a)) (hnames : Value.AreNames m.variableNames) :
    ∃ status o, Ask.statusOfNumber r.status = .ok status ∧
      Ask.outcomeOfReply r (.list m.variableNames) status = .ok o ∧
      o.objective = .real (dot cost (m.point a)) ∧
      o.solution = .newTable (m.vars.map fun v => (v.name, .real (a.lift v))) := by
  obtain ⟨status, hstatus, hsolution⟩ := h.status
  obtain ⟨items, hitems, hread⟩ := h.point
  have hpresent : r.point.isPresent = true := by
    cases hp : r.point with
    | none =>
      rw [hp] at hitems
      cases hitems
    | _ => rfl
  have hvalues := Ask.valuesByName_eq_ok hnames (a := a) (hread.trans (by
    rw [Model.point, List.map_map]
    rfl))
  refine ⟨status, { Ask.emptyOutcome r status with
    objective := .real (dot cost (m.point a))
    solution := .newTable (m.vars.map fun v => (v.name, .real (a.lift v))) }, hstatus, ?_, rfl, rfl⟩
  rw [Ask.outcomeOfReply, if_pos (by simp [hpresent, hsolution]), h.objective,
    Value.pairs_eq_ok (v := .list m.variableNames) rfl hitems]
  change (Ask.valuesByName ((m.vars.map Variable.name).zip items) >>= _) = _
  rw [hvalues]
  rfl

/-! ## The solution -/

namespace Session

variable {K : Type} [Arithmetic K]

/-- The solution of a number answers a value for each of some variables, and its report answers an
objective. -/
def Answers (s : Session K) (k : Nat) (vs : List (Variable K)) (value : Variable K → Value K)
    (objective : Value K) : Prop :=
  ∃ x r, exec (Run.solution k) s = (.ok x, s) ∧ exec (Run.record x.report) s = (.ok r, s) ∧
    (∀ v ∈ vs, x.get (.var v) = .ok (value v)) ∧ r.read "objective" = .ok objective

/-- A new solution of a new outcome answers what it holds, and the objective of the outcome. -/
theorem exists_answers_withSolution (s : Session K) (o : Outcome K) {vs : List (Variable K)}
    (values : List (Value K × Value K)) (value : Variable K → Value K)
    (hget : ∀ (look : Look K), ∀ v ∈ vs,
      Solution.get ⟨.outcome s.records.length, Value.repaintEntries look [] values⟩ (.var v) =
        .ok (value v)) :
    ∃ i look, ((s.withOutcome o).withSolution ⟨.outcome s.records.length, values⟩).Answers
      s.solutions.length vs value ((o.objective.identify i).1.repaint look []) := by
  obtain ⟨r, hr, hread⟩ := exists_record?_withOutcome s o
    (t := (s.withOutcome o).withSolution ⟨.outcome s.records.length, values⟩) rfl rfl
  obtain ⟨i, -, -, hobjective⟩ := hread "objective" o.objective rfl
  have hlast : ((s.withOutcome o).withSolution ⟨.outcome s.records.length, values⟩).solutions[
      s.solutions.length]? = some ⟨.outcome s.records.length, values⟩ :=
    List.getElem?_concat_length
  exact ⟨i, _, _, r, Run.exec_solution hlast, Run.exec_record hr, hget _, hobjective⟩

/-- **An outcome with numbers by name** becomes a solution with these numbers. -/
theorem exists_answers_of_newTable [Comparable K] {s : Session K} (hs : s.IsNumbered)
    {o : Outcome K} {vs : List (Variable K)} {number : Variable K → K} {c : K}
    (hids : (vs.map fun v => v.id).Nodup) (hnames : Value.AreNames (vs.map Variable.name))
    (hnumber : ∀ v, isNaN (number v) = false) (hobjective : o.objective = .real c)
    (hsolution : o.solution = .newTable (vs.map fun v => (v.name, .real (number v)))) :
    ∃ k p t mark, exec (Run.addSolution (.outcome s.records.length) (.list (vs.map .var)))
        (s.withOutcome o) = (.ok (.handle (.solution k) p), t) ∧
      t.world = s.world ∧ t.IsNumbered ∧
      t.Answers k vs (fun v => .real (number v)) (.scalar (.real c mark)) := by
  have hname : ∀ v ∈ vs, v.name.IsName := fun v hv => hnames.isName _ (List.mem_map_of_mem hv)
  have hsettled : Value.areEntriesSettled
      (vs.map fun v => (v.name, Value.real (number v))) = true := by
    refine Value.areEntriesSettled_iff.2 (List.forall_mem_map.2 fun v hv => ?_)
    exact ⟨(hname v hv).isSettled, by simp [Value.real, Value.isSettled, hnumber v]⟩
  have hfound : ∀ look path, ∀ v ∈ vs, Value.lookup? v.name (Value.repaintEntries look path
      (vs.map fun v => (v.name, Value.real (number v)))) = some (.real (number v)) := by
    intro look path v hv
    have hentries : Value.AreNames
        ((vs.map fun v => (v.name, Value.real (number v))).map Prod.fst) := by
      rwa [List.map_map]
    have hkeys : ∀ e ∈ vs.map fun v => (v.name, Value.real (number v)), e.1.isKey = true :=
      List.forall_mem_map.2 fun v hv => (hname v hv).isKey
    rw [Value.lookup?_repaintEntries _ _ hkeys,
      Value.lookup?_of_mem hentries (List.mem_map_of_mem hv)]
    rfl
  obtain ⟨r, i, hr, hraw⟩ := exists_read_solution hs hsolution hsettled
  have hvalues := Solution.collect_table_eq_ok (i := some i) hids
    (fun v hv => (hname v hv).isKey) (hfound (s.withOutcome o).look [.inside i])
  obtain ⟨j, look, hanswers⟩ := exists_answers_withSolution s o _ _
    fun look v hv => Solution.get_repaintEntries (f := fun v => .real (number v)) hids look hv
  obtain ⟨mark, hmark⟩ := Value.exists_handedOver_real c none look j
  rw [hobjective, Value.real, hmark] at hanswers
  exact ⟨_, _, _, mark, Run.exec_addSolution_of_table hr hraw hvalues, rfl, hs.withOutcome o,
    hanswers⟩

/-- **An outcome without a solution** becomes a solution without values. -/
theorem exists_answers_of_none {s : Session K} (hs : s.IsNumbered) {o : Outcome K}
    (hobjective : o.objective = .none) (hsolution : o.solution = .none) (vs : List (Variable K)) :
    ∃ k p t, exec (Run.addSolution (.outcome s.records.length) (.list (vs.map .var)))
        (s.withOutcome o) = (.ok (.handle (.solution k) p), t) ∧
      t.IsNumbered ∧ t.Answers k vs (fun _ => .none) .none := by
  obtain ⟨r, hr, hread⟩ := exists_record?_withOutcome s o (t := s.withOutcome o) rfl rfl
  obtain ⟨i, -, -, hraw⟩ := hread "solution" o.solution rfl
  rw [hsolution] at hraw
  obtain ⟨j, look, hanswers⟩ := exists_answers_withSolution s o [] (fun _ => .none)
    fun _ v (_ : v ∈ vs) => rfl
  rw [hobjective] at hanswers
  exact ⟨_, _, _, Run.exec_addSolution_of_none hr hraw _, hs.withOutcome o, hanswers⟩

end Session

namespace Run

/-- A solve of a model makes an outcome and a solution of it. -/
theorem exec_solveModel {K : Type} [Arithmetic K] {s : Session K} {id : Nat} {m : Model K}
    {param format backend : Value K} {o : Outcome K} {w : World K} (hmodel : s.models[id]? = some m)
    (hask : exec (Ask.solveModel m format backend (s.settingsGiven param)) s.world = (.ok o, w)) :
    exec (solveModel id param format backend) s =
      exec (addSolution (.outcome s.records.length) (.list (m.vars.map .var)))
        (({ s with world := w } : Session K).withOutcome o) := by
  have hm : exec (model id) s = (.ok m, s) := by rw [exec_model, hmodel]
  have ho : exec (onWorld (Ask.solveModel m format backend (s.settingsGiven param))) s =
      (.ok o, { s with world := w }) := by rw [exec_onWorld, hask]
  rw [solveModel, exec_bind_of_ok hm, exec_bind_of_ok (exec_settingsOf param s),
    exec_bind_of_ok ho, exec_bind_of_ok (exec_addOutcome o _)]

variable [IsStrictOrderedRing F]

/-- **A model is solved by way of its arrays.**  The engine gets the costs of the model.  If it answers
a point and the cost of the point, the caller gets a solution that answers the numbers of the point as
the values of the variables, and as the objective what the objective of the model is there, however
the direction and the constant of the objective are.  If it answers no solution, the caller gets one
that answers neither values nor an objective. -/
theorem solveModel_arrays_spec {s : Session (Extended F)} (hs : s.IsNumbered) {id : Nat}
    {m : Model (Extended F)} (hmodel : s.models[id]? = some m) (hm : m.Reachable)
    (hreached : m.Reached)
    (hvars : m.vars ≠ []) (hown : m.MentionsOwn) {param : Value (Extended F)}
    {given : Settings (Extended F)} {options : List (String × Value (Extended F))}
    (hgiven : s.settingsGiven param = .ok given) (hoptions : given.arrayOptions = .ok options)
    (format : Value (Extended F)) :
    (∀ x : List F, x.length = m.vars.length → s.world.arrayReply.Finds m.costs x →
      ∃ (a : Assignment F) (k : Nat) (p : Portrait) (t : Session (Extended F)) (mark : Option Nat),
        m.point a = x ∧
        exec (solveModel id param format (.text "scipy")) s =
          (.ok (.handle (.solution k) p), t) ∧
        t.IsNumbered ∧
        (∃ arrays, arrays.cost = .ofList m.costs ∧
          t.world.trace = s.world.trace ++ [.arrays arrays options]) ∧
        t.Answers k m.vars (fun v => .real (a.lift v))
          (.scalar (.real (m.objectiveValue a) mark))) ∧
    (s.world.arrayReply.FindsNothing →
      ∃ (k : Nat) (p : Portrait) (t : Session (Extended F)),
        exec (solveModel id param format (.text "scipy")) s =
          (.ok (.handle (.solution k) p), t) ∧
        t.IsNumbered ∧
        t.Answers k m.vars (fun _ => .none) .none) := by
  obtain ⟨form, hform, -, hcost, -⟩ := (Model.standardForm_spec hm).2.2 hvars hown
  have hids := hm.wellFormed.nodup_ids
  have hnames := hreached.registry.variableNames
  have hcosts := Model.cost_eq_costs hform
  constructor
  · intro x hx hfinds
    obtain ⟨a, rfl⟩ := Model.exists_point_eq hids hx
    rw [← hcosts] at hfinds
    obtain ⟨status, o, hstatus, ho, hobjective, hsolution⟩ :=
      hfinds.outcomeOfReply_eq_ok hnames
    have hask := Ask.exec_solveModel_arrays hform hoptions hstatus ho format
    rw [← hgiven, Model.outcomeFromArrays_eq hobjective,
      Model.objectiveFromArrays_eq (hcost a)] at hask
    obtain ⟨k, p, t, mark, h, hworld, ht, hanswers⟩ := Session.exists_answers_of_newTable (s :=
      { s with world :=
        { s.world with trace := s.world.trace ++ [.arrays (.ofStandardForm form) options] } })
      (o := { o with objective := .real (m.objectiveValue a) }) hs hids hnames (fun _ => rfl) rfl
      hsolution
    refine ⟨a, k, p, t, mark, rfl, (exec_solveModel hmodel hask).trans h, ht, ?_, hanswers⟩
    exact ⟨_, congrArg Tensor.ofList hcosts, congrArg World.trace hworld⟩
  · rintro ⟨status, hstatus, hnothing⟩
    have hask := Ask.exec_solveModel_arrays hform hoptions hstatus
      (Ask.outcomeOfReply_of_nothing hnothing _) format
    rw [← hgiven] at hask
    rw [exec_solveModel hmodel hask]
    exact Session.exists_answers_of_none (s :=
      { s with world :=
        { s.world with trace := s.world.trace ++ [.arrays (.ofStandardForm form) options] } })
      hs rfl rfl m.vars

end Run

/-! ## A model with a constant in its objective -/

section Maximum

local instance : Extended.Tolerance ℚ := .standard

/-- An integer variable up to four. -/
def boundedVariable : Variable (Extended ℚ) :=
  ⟨⟨0, 0⟩, .text "x", .integer, .finite 0, .finite 4⟩

/-- Twice the variable and three. -/
def shiftedObjective : LinearExpr (Extended ℚ) := .ofTerms [(boundedVariable, .finite 2)] (.finite 3)

/-- The model of the variable that maximizes this. -/
def maximizedModel : Model (Extended ℚ) :=
  { Model.empty 0 .none with
    vars := [boundedVariable], objective := some shiftedObjective, direction := .maximize }

theorem shiftedObjective_eq : shiftedObjective = ⟨[(boundedVariable, .finite 2)], .finite 3⟩ := by
  have hkept : significant (.finite 2 : Extended ℚ) = true := by
    change decide ((1 / 10 ^ 15 : ℚ) < |2|) = true
    norm_num
  simp [shiftedObjective, LinearExpr.ofTerms, hkept]

/-- The call that creates the variable. -/
def askBounded : Model.Call (Extended ℚ) :=
  .addVariable (.domain .integer) (.real (.finite 0)) (.real (.finite 4)) (.text "x")

/-- The call that sets the objective. -/
def askMaximum : Model.Call (Extended ℚ) :=
  .setObjective (.expr shiftedObjective) (.direction .maximize)

theorem maximizedModel_eq : maximizedModel =
    (Build.exec (Build.perform askMaximum)
      (Build.exec (Build.perform askBounded) (Model.empty 0 .none)).2).2 :=
  rfl

theorem maximizedModel_reachable : maximizedModel.Reachable := by
  rw [maximizedModel_eq]
  refine ((Model.Reachable.empty 0 .none).call _
    (Model.Call.admissible_addVariable _ _ _ _ _)).call _ fun v hv p hp => ?_
  have hx : Model.Knows (Build.exec (Build.perform askBounded) (Model.empty 0 .none)).2
      boundedVariable := Model.knows_of_mem List.mem_cons_self
  rcases List.mem_pair.1 hv with rfl | rfl
  · rw [List.mem_singleton.1 hp]
    have hterms : Terms.WellFormed _ [(boundedVariable, Extended.finite 2)] :=
      ⟨List.nodup_singleton boundedVariable.id, List.forall_mem_singleton.2 hx⟩
    exact LinearExpr.wellFormed_ofTerms hterms _
  · rw [List.mem_singleton.1 hp]
    trivial

theorem maximizedModel_reached : maximizedModel.Reached := by
  rw [maximizedModel_eq]
  refine ((Model.Reached.empty 0 .none).step (.call _ ?_)).step (.call _ ?_)
  · simp only [askBounded, Model.Call.IsHandedOver, Model.Call.arguments, List.forall_mem_cons]
    exact ⟨⟨rfl, trivial⟩, ⟨rfl, trivial⟩, ⟨rfl, trivial⟩, ⟨rfl, trivial⟩,
      fun _ hv => absurd hv List.not_mem_nil⟩
  · simp only [askMaximum, Model.Call.IsHandedOver, Model.Call.arguments, List.forall_mem_cons]
    exact ⟨⟨rfl, .ofTerms _ _⟩, ⟨rfl, trivial⟩, fun _ hv => absurd hv List.not_mem_nil⟩

theorem maximizedModel_mentionsOwn : maximizedModel.MentionsOwn := by
  refine ⟨fun e he t ht => ⟨boundedVariable, List.mem_cons_self, ?_⟩,
    fun _ hc => absurd hc List.not_mem_nil⟩
  have hterms : e.terms = [(boundedVariable, .finite 2)] := by
    rw [← Option.some_inj.1 he, shiftedObjective_eq]
  rw [hterms, List.mem_singleton] at ht
  rw [ht]

/-- The session of this model, where the engine answers the number four and its cost. -/
def maximizedSession : Session (Extended ℚ) :=
  { Session.start with
    models := [maximizedModel]
    world := { (Session.start : Session (Extended ℚ)).world with arrayReply :=
      { ArrayReply.standard with
        point := .sequence .array [.real (.finite 4)], objective := .real (.finite (-8)) } } }

theorem maximizedModel_costs : maximizedModel.costs = [.finite (-2)] := by
  simp [Model.costs, maximizedModel, shiftedObjective_eq, Model.objectiveSign, Terms.get?]

/-- The model is solved, and its objective comes back as eleven. -/
theorem solveModel_arrays_spec_maximizedModel :
    ∃ (k : Nat) (p : Portrait) (t : Session (Extended ℚ)) (mark : Option Nat),
      exec (Run.solveModel 0 .none .none (.text "scipy")) maximizedSession =
        (.ok (.handle (.solution k) p), t) ∧
      t.Answers k [boundedVariable] (fun _ => .real (.finite 4))
        (.scalar (.real (.finite 11) mark)) := by
  have hfinds : maximizedSession.world.arrayReply.Finds maximizedModel.costs [4] := by
    refine ⟨⟨"optimal", rfl, by decide⟩, ⟨_, rfl, rfl⟩, ?_⟩
    rw [maximizedModel_costs]
    change Except.ok (Extended.finite (-8)) = _
    norm_num [dot]
  have hnumbered : maximizedSession.IsNumbered := Session.isNumbered_start (K := Extended ℚ)
  have hmodel : maximizedSession.models[0]? = some maximizedModel := rfl
  obtain ⟨a, k, p, t, mark, ha, h, -, -, hanswers⟩ := (Run.solveModel_arrays_spec hnumbered hmodel
    maximizedModel_reachable maximizedModel_reached (List.cons_ne_nil _ _)
    maximizedModel_mentionsOwn
    (show maximizedSession.settingsGiven .none = .ok Settings.standard from rfl) rfl .none).1 [4]
    rfl hfinds
  have hx : a boundedVariable.id = 4 := (List.cons.inj ha).1
  have hvalue : maximizedModel.objectiveValue a = .finite 11 := by
    norm_num [Model.objectiveValue, maximizedModel, shiftedObjective_eq, LinearExpr.value,
      Assignment.lift, hx]
  rw [hvalue] at hanswers
  obtain ⟨x, r, hsolution, hrecord, hget, hobjective⟩ := hanswers
  refine ⟨k, p, t, mark, h, x, r, hsolution, hrecord, fun v hv => ?_, hobjective⟩
  rw [hget v hv, List.mem_singleton.1 hv]
  exact congrArg (fun y : ℚ => Except.ok (Value.real (Extended.finite y))) hx

end Maximum

end MixedInteger
