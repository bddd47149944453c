import MixedInteger.Proofs.Engine.Coherence
import MixedInteger.Proofs.Session.ArraySolve

/-!
# What a caller is told of a solve

A caller reads the status, the objective and the solution of a solve from a report, and the values of
variables from a solution.  This file follows what the engines answer up to there, for every way to
solve something.

## What is here

* `Ask.reported_solveArrays`, `Ask.reported_solveModel` — outcomes whose parts go together.
* `Ask.solveArrays_concludes`, `Ask.solveModel_concludes` — there is an outcome once an engine has
  been asked.
* `Report.IsCoherent` — what a report says goes together.
* `Run.Solving` — the ways to solve something, and what they answer.
* `Run.Solving.coherent` — every report of a solve is coherent.
-/

set_option autoImplicit false

namespace MixedInteger

variable {K : Type} [Arithmetic K]

open Fallible

/-! ## Outcomes -/

theorem Model.reported_outcomeFromArrays {o : Outcome K} {found : Prop} (h : o.IsReported found)
    (m : Model K) (form : StandardForm K) : (m.outcomeFromArrays form o).IsReported found := by
  obtain ⟨status, objective, solution, gap, nodes, time⟩ := o
  rw [Outcome.IsReported] at h
  dsimp only at h
  cases h with
  | nothing h => exact .nothing h
  | point h hfound x mark entries id => exact .point h hfound _ _ entries id

/-- The engine that a model is solved with has found a point. -/
def World.HasPointFor (w : World K) (backend : Value K) : Prop :=
  match backend.isEqual (.text "highs") with
  | .ok true => w.reply.HasPoint
  | _ => w.arrayReply.HasPoint

namespace Ask

variable {w w' : World K} {o : Outcome K} {given : Except Fault (Settings K)}

theorem reported_outcomeOfReply {r : ArrayReply K} {names : Value K} {status : String}
    (hstatus : status ∈ statuses) (h : outcomeOfReply r names status = .ok o) :
    o.IsReported r.HasPoint := by
  rw [outcomeOfReply] at h
  split at h
  case isTrue hpoint =>
    rw [Bool.and_eq_true, List.contains_iff_mem] at hpoint
    obtain ⟨x, -, h⟩ := bind_eq_ok.1 h
    obtain ⟨columns, -, h⟩ := bind_eq_ok.1 h
    obtain ⟨solution, hvalues, h⟩ := bind_eq_ok.1 h
    cases h
    obtain ⟨entries, rfl⟩ := exists_of_valuesByName_eq_ok hvalues
    exact .point hpoint.2 hpoint.1 x _ entries _
  case isFalse =>
    cases h
    exact .nothing hstatus

/-- **The outcome of arrays** has parts that go together. -/
theorem reported_solveArrays {p : ArrayProblem K} {names : Value K}
    (h : exec (solveArrays p names given) w = (.ok o, w')) : o.IsReported w.arrayReply.HasPoint := by
  rw [exec_solveArrays_eq] at h
  split at h
  · cases h
  · obtain ⟨status, hstatus, h⟩ := bind_eq_ok.1 (congrArg Prod.fst h)
    exact reported_outcomeOfReply (statusOfNumber_mem hstatus) h

/-- **The outcome of a model** has parts that go together. -/
theorem reported_solveModel {m : Model K} {format backend : Value K}
    (h : exec (solveModel m format backend given) w = (.ok o, w')) :
    o.IsReported (w.HasPointFor backend) := by
  obtain ⟨readsText, hbackend, h⟩ := exec_liftM_bind_eq_ok.1 h
  rw [World.HasPointFor, hbackend]
  cases readsText with
  | true =>
    obtain ⟨text, -, h⟩ := exec_liftM_bind_eq_ok.1 h
    exact reported_within (fun engine => parse_moves _ format) h
  | false =>
    obtain ⟨takesArrays, -, h⟩ := exec_liftM_bind_eq_ok.1 h
    cases takesArrays with
    | false =>
      obtain ⟨name, -, h⟩ := exec_liftM_bind_eq_ok.1 h
      cases h
    | true =>
      obtain ⟨form, -, h⟩ := exec_liftM_bind_eq_ok.1 h
      obtain ⟨o, w₂, ho, h⟩ := exec_bind_eq_ok.1 h
      cases h
      exact Model.reported_outcomeFromArrays (reported_solveArrays ho) m form

/-! ### Once an engine has been asked -/

/-- Names that values can be kept under. -/
def AreKeys (names : Value K) : Prop := ∃ ns, names.elements = .ok ns ∧ ∀ n ∈ ns, n.isKey = true

theorem exists_outcomeOfReply_eq_ok {r : ArrayReply K} (h : r.IsTyped) {names : Value K}
    (hnames : AreKeys names) (status : String) : ∃ o, outcomeOfReply r names status = .ok o := by
  rcases h.point with hpoint | ⟨⟨xs, hpoint⟩, x, hobjective⟩
  · exact ⟨_, outcomeOfReply_of_nothing (.inl hpoint) names⟩
  · obtain ⟨ns, hns, hkeys⟩ := hnames
    obtain ⟨v, hv⟩ := exists_valuesByName_eq_ok hkeys xs
    have hpairs : names.pairs r.point = .ok (ns.zip (xs.map .real)) := by
      rw [hpoint]
      exact Value.pairs_eq_ok hns rfl
    rw [outcomeOfReply, hobjective, hpairs]
    split
    · change ∃ o, (valuesByName (ns.zip (xs.map .real)) >>= _) = _
      rw [hv]
      exact ⟨_, rfl⟩
    · exact ⟨_, rfl⟩

theorem solveArrays_concludes (p : ArrayProblem K) {names : Value K} (hnames : AreKeys names)
    (given : Except Fault (Settings K)) : Concludes (solveArrays p names given) := by
  intro w f w' hw h
  rw [exec_solveArrays_eq] at h
  split at h
  · cases h
    exact refl_of World.Prepared w
  · obtain ⟨n, hn⟩ := hw.arrayReply.status
    have hstatus : ∃ status, statusOfNumber w.arrayReply.status = .ok status := by
      rw [hn]
      exact ⟨_, rfl⟩
    obtain ⟨status, hstatus⟩ := hstatus
    obtain ⟨o, ho⟩ := exists_outcomeOfReply_eq_ok hw.arrayReply hnames status
    rw [hstatus] at h
    change (outcomeOfReply w.arrayReply names status, _) = _ at h
    rw [ho] at h
    cases h

theorem solveModel_concludes {m : Model K} (hm : m.Reached) (format backend : Value K)
    (given : Except Fault (Settings K)) : Concludes (solveModel m format backend given) := by
  have hnames : AreKeys (.list m.variableNames) :=
    ⟨_, rfl, fun n hn => (hm.registry.variableNames.isName n hn).isKey⟩
  have htext : Concludes (solveModelText m format given) :=
    .bind (.lift _) fun text => within_concludes
      (fun engine => .bind (parse_prepares _ _) fun _ => run_concludes) given
  have harrays : Concludes (solveModelArrays m given) :=
    .bind (.lift _) fun form => .bind_pure (solveArrays_concludes _ hnames given) _
  refine .bind (.lift _) fun readsText => ?_
  cases readsText with
  | true => exact htext
  | false =>
    refine .bind (.lift _) fun takesArrays => ?_
    cases takesArrays with
    | true => exact harrays
    | false => exact .of_moves (.bind (.lift _) fun _ => .throw _)

end Ask

/-! ## Reports -/

/-- What a report says goes together: its status is known, there is an objective exactly if there is
a solution, and both are there only under a status that allows for them and with `found`. -/
def Report.IsCoherent (r : Report K) (found : Prop) : Prop :=
  ∃ status ∈ statuses, ∃ objective solution : Value K,
    r.read "status" = .ok (.text status) ∧ r.read "objective" = .ok objective ∧
    r.read "solution" = .ok solution ∧ objective.isPresent = solution.isPresent ∧
    (solution.isPresent → status ∈ solutionStatuses ∧ found)

/-- The parts of an outcome go together also when they are handed over. -/
theorem Reported.handedOver {found : Prop} {status objective solution : Value K}
    (h : Reported found status objective solution) (look : Look K) (i j k : Nat) :
    Reported found ((status.identify i).1.repaint look [])
      ((objective.identify j).1.repaint look []) ((solution.identify k).1.repaint look []) ∧
      ((solution.identify k).1.repaint look [] = .none ↔ solution = .none) := by
  cases h with
  | nothing h => exact ⟨.nothing h, Iff.rfl⟩
  | point h hfound x mark entries id =>
    obtain ⟨mark', hmark⟩ := Value.exists_handedOver_real x mark look j
    obtain ⟨entries', id', hentries⟩ := Value.exists_handedOver_table entries id look k
    rw [hmark, hentries]
    exact ⟨.point h hfound x mark' entries' id', iff_of_false nofun nofun⟩

namespace Session

variable {s t : Session K} {o : Outcome K} {found : Prop}

/-- **The report of an outcome** whose parts go together. -/
theorem exists_report_withOutcome (ho : o.IsReported found)
    (hrecords : t.records = (s.withOutcome o).records)
    (htables : t.tables = (s.withOutcome o).tables) :
    ∃ r, t.record? (.outcome s.records.length) = some r ∧ ∃ status objective solution,
      r.read "status" = .ok status ∧ r.read "objective" = .ok objective ∧
      r.read "solution" = .ok solution ∧ Reported found status objective solution ∧
      (solution = .none ↔ o.solution = .none) := by
  obtain ⟨r, hr, hread⟩ := exists_record?_withOutcome s o hrecords htables
  obtain ⟨i, -, -, hstatus⟩ := hread "status" o.status rfl
  obtain ⟨j, -, -, hobjective⟩ := hread "objective" o.objective rfl
  obtain ⟨k, -, -, hsolution⟩ := hread "solution" o.solution rfl
  obtain ⟨hreported, hnone⟩ := ho.handedOver t.look i j k
  exact ⟨r, hr, _, _, _, hstatus, hobjective, hsolution, hreported, hnone⟩

end Session

/-! ## Ways to solve something -/

theorem Reported.isCoherent {found : Prop} {r : Report K} {status objective solution : Value K}
    (h : Reported found status objective solution) (hstatus : r.read "status" = .ok status)
    (hobjective : r.read "objective" = .ok objective)
    (hsolution : r.read "solution" = .ok solution) : r.IsCoherent found := by
  obtain ⟨s, hs, rfl⟩ := h.exists_status
  refine ⟨s, hs, objective, solution, hstatus, hobjective, hsolution, h.isPresent_eq,
    fun hpresent => ?_⟩
  obtain ⟨⟨s', hs', heq⟩, hfound⟩ := h.of_isPresent hpresent
  cases heq
  exact ⟨hs', hfound⟩

namespace Run

/-- The ways to solve something. -/
inductive Solving (K : Type) where
  /-- With a loaded engine. -/
  | engine (engine : Nat)
  /-- From a text. -/
  | text (text format param : Value K)
  /-- From a file. -/
  | file (filename param : Value K)
  /-- From arrays. -/
  | arrays (matrix rowLower rowUpper lower upper cost integrality names param : Value K)
  /-- From the model of a number. -/
  | model (id : Nat) (param format backend : Value K)

namespace Solving

/-- What a call does. -/
def perform : Solving K → Run K (Value K)
  | engine e => do addOutcome (← onWorld (Ask.run e))
  | text t format param => solveText t format param
  | file filename param => solveFile filename param
  | arrays a al au l u c kinds names param => solveArrays a al au l u c kinds names param
  | model id param format backend => solveModel id param format backend

/-- The engine that a call asks has found a point. -/
def HasPoint (w : World K) : Solving K → Prop
  | engine _ | text _ _ _ | file _ _ => w.reply.HasPoint
  | arrays _ _ _ _ _ _ _ _ _ => w.arrayReply.HasPoint
  | model _ _ _ backend => w.HasPointFor backend

/-- The names that a call brings along can be keys: those of columns, if they are given, and those of
the variables of a model that a caller has made. -/
def HasKeys (s : Session K) : Solving K → Prop
  | arrays _ _ _ _ _ _ _ names _ => names = .none ∨ Ask.AreKeys names
  | model id _ _ _ => ∀ m, s.models[id]? = some m → m.Reached
  | _ => True

/-- What a caller gets from a call: the report of the solve, and from a model a solution with this
report, which has no values if the report has none. -/
def Answers (t : Session K) (v : Value K) (r : Report K) : Solving K → Prop
  | model _ _ _ _ => ∃ k p x, v = .handle (.solution k) p ∧ exec (solution k) t = (.ok x, t) ∧
    exec (record x.report) t = (.ok r, t) ∧
    (r.read "solution" = .ok .none → ∀ v : Variable K, x.get (.var v) = .ok .none)
  | _ => ∃ k p, v = .handle (.outcome k) p ∧ exec (record (.outcome k)) t = (.ok r, t)

end Solving

section

variable {s t : Session K} {x : Ask K (Outcome K)} {v : Value K} {f : Fault}

theorem exec_addOutcome_onWorld (x : Ask K (Outcome K)) (s : Session K) :
    exec (do addOutcome (← onWorld x)) s =
      match exec x s.world with
      | (.ok o, w) => exec (addOutcome o) { s with world := w }
      | (.error f, w) => (.error f, { s with world := w }) := by
  rw [exec_bind, exec_onWorld]
  rcases exec x s.world with ⟨f | o, w⟩
  · rfl
  · rfl

/-- The report of what has been asked of an engine. -/
theorem exists_report_of_onWorld {found : Prop}
    (hx : ∀ o w, exec x s.world = (.ok o, w) → o.IsReported found)
    (h : exec (do addOutcome (← onWorld x)) s = (.ok v, t)) :
    ∃ (r : Report K) (k : Nat) (p : Portrait), v = .handle (.outcome k) p ∧
      exec (record (.outcome k)) t = (.ok r, t) ∧ r.IsCoherent found := by
  rw [exec_addOutcome_onWorld] at h
  split at h
  · rename_i o w ho
    rw [exec_addOutcome] at h
    cases h
    obtain ⟨r, hr, status, objective, solution, hstatus, hobjective, hsolution, hreported, -⟩ :=
      Session.exists_report_withOutcome (s := { s with world := w }) (hx o w ho) rfl rfl
    exact ⟨r, _, _, rfl, exec_record hr, hreported.isCoherent hstatus hobjective hsolution⟩
  · cases h

/-- Nothing has been solved if there is no report. -/
theorem prepared_of_onWorld (hx : Ask.Concludes x) (hs : s.world.IsTyped)
    (h : exec (do addOutcome (← onWorld x)) s = (.error f, t)) : s.world.Prepared t.world := by
  rw [exec_addOutcome_onWorld] at h
  split at h
  · rw [exec_addOutcome] at h
    cases h
  · rename_i e w he
    cases h
    exact hx s.world _ w hs he

/-- **A solution of a new report** holds no values if the report has none, and there is one if the
names of the variables can be keys. -/
theorem addSolution_withOutcome_spec {o : Outcome K} {found : Prop} (ho : o.IsReported found)
    (s : Session K) (vs : List (Variable K)) :
    (∀ v t, exec (addSolution (.outcome s.records.length) (.list (vs.map .var))) (s.withOutcome o) =
        (.ok v, t) → ∃ values p, v = .handle (.solution s.solutions.length) p ∧
      t = (s.withOutcome o).withSolution ⟨.outcome s.records.length, values⟩ ∧
      (o.solution = .none → values = [])) ∧
    ((∀ v ∈ vs, v.name.isKey = true) → ∃ v t,
      exec (addSolution (.outcome s.records.length) (.list (vs.map .var))) (s.withOutcome o) =
        (.ok v, t)) := by
  obtain ⟨r, hr, status, objective, solution, -, -, hsolution, hreported, hnone⟩ :=
    Session.exists_report_withOutcome (s := s) ho rfl rfl
  cases hreported with
  | nothing =>
    have hexec := exec_addSolution_of_none hr hsolution (.list (vs.map .var))
    refine ⟨fun v t h => ?_, fun _ => ⟨_, _, hexec⟩⟩
    rw [hexec] at h
    cases h
    exact ⟨[], _, rfl, rfl, fun _ => rfl⟩
  | point _ _ x mark entries i =>
    have hexec := exec_addSolution_of_isPresent hr hsolution rfl vs
    refine ⟨fun v t h => ?_, fun hkeys => ?_⟩
    · rw [hexec] at h
      split at h
      · cases h
        exact ⟨_, _, rfl, rfl, fun hno => absurd (hnone.2 hno) nofun⟩
      · cases h
    · obtain ⟨values, hvalues⟩ := Solution.exists_collect_table_eq_ok entries i hkeys
      rw [hvalues] at hexec
      exact ⟨_, _, hexec⟩

variable {id : Nat} {param format backend : Value K}

/-- Solving a model that is there. -/
theorem exec_solveModel_of_model {m : Model K} (hm : s.models[id]? = some m) :
    exec (solveModel id param format backend) s =
      match exec (Ask.solveModel m format backend (s.settingsGiven param)) s.world with
      | (.ok o, w) => exec (addSolution (.outcome s.records.length) (.list (m.vars.map .var)))
          (({ s with world := w } : Session K).withOutcome o)
      | (.error f, w) => (.error f, { s with world := w }) := by
  rcases hask : exec (Ask.solveModel m format backend (s.settingsGiven param)) s.world
    with ⟨f | o, w⟩
  · have hmodel : exec (model id) s = (.ok m, s) := by rw [exec_model, hm]
    rw [solveModel, exec_bind_of_ok hmodel, exec_bind_of_ok (exec_settingsOf param s),
      exec_onWorld_bind_of_error hask]
  · exact exec_solveModel hm hask

/-- The solution of a model, and its report. -/
theorem exists_solution_of_model (h : exec (solveModel id param format backend) s = (.ok v, t)) :
    ∃ r, (Solving.model id param format backend).Answers t v r ∧
      r.IsCoherent (s.world.HasPointFor backend) := by
  have hmodel := exec_model id s
  rcases hm : s.models[id]? with _ | m <;> rw [hm] at hmodel
  · rw [solveModel, exec_bind_of_error hmodel] at h
    cases h
  · rw [exec_solveModel_of_model hm] at h
    split at h
    · rename_i o w ho
      have hreported := Ask.reported_solveModel ho
      obtain ⟨values, p, rfl, rfl, hvalues⟩ :=
        (addSolution_withOutcome_spec hreported { s with world := w } m.vars).1 v t h
      obtain ⟨r, hr, status, objective, solution, hstatus, hobjective, hsolution, hrep, hnone⟩ :=
        Session.exists_report_withOutcome (s := { s with world := w }) hreported
          (t := (({ s with world := w } : Session K).withOutcome o).withSolution
            ⟨.outcome s.records.length, values⟩) rfl rfl
      refine ⟨r, ⟨_, p, _, rfl, exec_solution List.getElem?_concat_length, exec_record hr,
        fun hno v => ?_⟩, hrep.isCoherent hstatus hobjective hsolution⟩
      rw [hsolution] at hno
      rw [hvalues (hnone.1 (Except.ok.inj hno))]
      rfl
    · cases h

/-- Nothing has been solved if there is no solution of a model. -/
theorem prepared_of_model (hs : s.world.IsTyped) (hkeys : ∀ m, s.models[id]? = some m → m.Reached)
    (h : exec (solveModel id param format backend) s = (.error f, t)) :
    s.world.Prepared t.world := by
  have hmodel := exec_model id s
  rcases hm : s.models[id]? with _ | m <;> rw [hm] at hmodel
  · rw [solveModel, exec_bind_of_error hmodel] at h
    cases h
    exact refl_of World.Prepared s.world
  · have hreached := hkeys m hm
    rw [exec_solveModel_of_model hm] at h
    split at h
    · rename_i o w ho
      have hnames : ∀ v ∈ m.vars, v.name.isKey = true := fun v hv =>
        (hreached.registry.variableNames.isName v.name (List.mem_map_of_mem hv)).isKey
      obtain ⟨v, t', hexec⟩ := (addSolution_withOutcome_spec (Ask.reported_solveModel ho)
        { s with world := w } m.vars).2 hnames
      cases hexec.symm.trans h
    · rename_i e w he
      cases h
      exact Ask.solveModel_concludes hreached format backend _ s.world _ w hs he

end

namespace Solving

variable {s t : Session K} {v : Value K} {f : Fault}

/-- What a caller gets has a coherent report. -/
theorem exists_report (c : Solving K) (h : exec c.perform s = (.ok v, t)) :
    ∃ r, c.Answers t v r ∧ r.IsCoherent (c.HasPoint s.world) := by
  cases c with
  | engine e =>
    obtain ⟨r, k, p, hv, hr, hcoherent⟩ :=
      exists_report_of_onWorld (fun o w ho => Ask.reported_run ho) h
    exact ⟨r, ⟨k, p, hv, hr⟩, hcoherent⟩
  | text content format param =>
    rw [perform, solveText, exec_bind_of_ok (exec_settingsOf param s)] at h
    obtain ⟨r, k, p, hv, hr, hcoherent⟩ := exists_report_of_onWorld
      (fun o w ho => Ask.reported_within (fun e => Ask.parse_moves content format) ho) h
    exact ⟨r, ⟨k, p, hv, hr⟩, hcoherent⟩
  | file filename param =>
    rw [perform, solveFile, exec_bind_of_ok (exec_settingsOf param s)] at h
    obtain ⟨r, k, p, hv, hr, hcoherent⟩ := exists_report_of_onWorld
      (fun o w ho => Ask.reported_within (fun e => Ask.readProblem_moves filename) ho) h
    exact ⟨r, ⟨k, p, hv, hr⟩, hcoherent⟩
  | arrays a al au l u c kinds names param =>
    obtain ⟨problem, -, h⟩ := exec_liftM_bind_eq_ok.1 h
    rw [exec_bind_of_ok (exec_settingsOf param s)] at h
    obtain ⟨r, k, p, hv, hr, hcoherent⟩ :=
      exists_report_of_onWorld (fun o w ho => Ask.reported_solveArrays ho) h
    exact ⟨r, ⟨k, p, hv, hr⟩, hcoherent⟩
  | model id param format backend => exact exists_solution_of_model h

/-- **Nothing has been solved if a call fails.** -/
theorem prepared_of_error (c : Solving K) (hs : s.world.IsTyped) (hkeys : c.HasKeys s)
    (h : exec c.perform s = (.error f, t)) : s.world.Prepared t.world := by
  cases c with
  | engine e => exact prepared_of_onWorld Ask.run_concludes hs h
  | text content format param =>
    rw [perform, solveText, exec_bind_of_ok (exec_settingsOf param s)] at h
    exact prepared_of_onWorld (Ask.within_concludes
      (fun e => .bind (Ask.parse_prepares content format) fun _ => Ask.run_concludes) _) hs h
  | file filename param =>
    rw [perform, solveFile, exec_bind_of_ok (exec_settingsOf param s)] at h
    exact prepared_of_onWorld (Ask.within_concludes
      (fun e => .bind (Ask.readProblem_prepares filename) fun _ => Ask.run_concludes) _) hs h
  | arrays a al au l u c kinds names param =>
    rw [perform, solveArrays] at h
    rcases hp : ArrayProblem.ofValues a al au l u c kinds with e | p <;> rw [hp] at h
    · cases h
      exact refl_of World.Prepared s.world
    · rw [exec_bind_of_ok (exec_liftM _ s), exec_bind_of_ok (exec_settingsOf param s)] at h
      rcases hkeys with rfl | ⟨ns, hns, hall⟩
      · have hcolumns : Ask.AreKeys (columnNames p.cost.length : Value K) :=
          ⟨_, rfl, List.forall_mem_map.2 fun _ _ => rfl⟩
        exact prepared_of_onWorld (Ask.solveArrays_concludes p hcolumns _) hs h
      · have hnames : Ask.AreKeys names := ⟨ns, hns, hall⟩
        cases names with
        | none => cases hns
        | _ => exact prepared_of_onWorld (Ask.solveArrays_concludes p hnames _) hs h
  | model id param format backend => exact prepared_of_model hs hkeys h

/-- **What a caller is told of a solve goes together.**  Whatever the engines answer, the status that
a caller reads is a known one; there is an objective exactly if there is a solution, and both are
there only if the status allows for them and the engine has found a point, which for the engine that
reads texts is a feasible one; and without them the solution of a model has no value for any
variable.  A call cannot fail any more once it has asked an engine to solve something, whatever
status, point and numbers the engine answers. -/
theorem coherent (c : Solving K) (s : Session K) :
    (∀ v t, exec c.perform s = (.ok v, t) →
      ∃ r, c.Answers t v r ∧ r.IsCoherent (c.HasPoint s.world)) ∧
    (s.world.IsTyped → c.HasKeys s → s.world.solves < (exec c.perform s).2.world.solves →
      ∃ v, (exec c.perform s).1 = .ok v) := by
  refine ⟨fun v t h => c.exists_report h, fun hs hkeys hsolves => ?_⟩
  rcases h : exec c.perform s with ⟨f | v, t⟩
  · rw [h] at hsolves
    exact absurd (c.prepared_of_error hs hkeys h).solves_eq hsolves.ne'
  · exact ⟨v, rfl⟩

/-- A session with a loaded engine that runs out of time with a point in hand. -/
def outOfTime : Session Float :=
  let s := Session.start
  { s with world := { s.world with
      released := [false]
      reply := { s.world.reply with
        status := .text "kTimeLimit", nodes := .int 3, primal := .int 2
        names := .list [.text "x"], values := .list [.real 4] } } }

theorem isTyped_outOfTime : outOfTime.world.IsTyped := by
  refine ⟨⟨⟨_, rfl⟩, ⟨_, rfl⟩, ⟨_, rfl⟩, ⟨_, rfl⟩, ⟨_, rfl⟩, ⟨["x"], rfl⟩, ⟨[4], rfl⟩⟩, ⟨⟨_, rfl⟩, ?_⟩⟩
  exact .inl rfl

/-- The engine runs out of time, and the caller reads a coherent report. -/
theorem coherent_outOfTime : ∃ v t r, exec (engine 0).perform outOfTime = (.ok v, t) ∧
    (engine 0).Answers t v r ∧ r.IsCoherent outOfTime.world.reply.HasPoint := by
  have hsolves : outOfTime.world.solves < (exec (engine 0).perform outOfTime).2.world.solves :=
    Nat.zero_lt_one
  obtain ⟨hanswer, hconcludes⟩ := coherent (.engine 0) outOfTime
  obtain ⟨v, hv⟩ := hconcludes isTyped_outOfTime trivial hsolves
  obtain ⟨r, hr⟩ := hanswer v _ (Prod.ext hv rfl)
  exact ⟨v, _, r, Prod.ext hv rfl, hr⟩

end Solving

end Run

end MixedInteger
