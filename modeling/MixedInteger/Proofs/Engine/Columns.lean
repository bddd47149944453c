import MixedInteger.Proofs.Engine.Coherence
import MixedInteger.Proofs.Engine.Reading

/-!
# The columns of an answer

An engine answers the columns of a problem in an order of its own, as names and values side by side.
Nothing but the solution is made of them: whether a solve fails, how it fails and whether it comes
with a solution is decided by the rest of the answer.

## What is here

* `World.withColumns` — the same world with other columns in the answer.
* `Reply.AreColumns` — names and values that stand for columns.
* `Reply.Offers` — whether there is to be a solution.
* `Ask.outcomeOfRun_cases` — what an outcome has from the columns.
* `Ask.solveModel_cases` — the outcome of a model, whatever the columns are.
-/

set_option autoImplicit false

namespace MixedInteger

variable {K : Type}

open Fallible

/-- The answer with other columns. -/
def Reply.withColumns (r : Reply K) (names values : Value K) : Reply K := { r with names, values }

/-- The world with other columns in the answer. -/
def World.withColumns (names values : Value K) (w : World K) : World K :=
  { w with reply := w.reply.withColumns names values }

/-- The answer to a text of a format. -/
def Reply.parseAnswer (r : Reply K) (format : String) : Except Fault PUnit :=
  if lowerCase format ∈ problemFormats then
    r.readAnswer (Ask.temporaryPath (lowerCase format))
  else .error (.unknownProblemFormat (quoted (lowerCase format)))

variable [Arithmetic K]

/-- Names and values that stand for columns which are apart. -/
structure Reply.AreColumns (names values : Value K) (columns : List (String × K)) : Prop where
  names_eq : names.elements = .ok (columns.map fun c => .text c.1)
  values_eq : ∃ items, values.elements = .ok items ∧
    items.mapM Value.toNumber = .ok (columns.map Prod.snd)
  nodup_names : (columns.map Prod.fst).Nodup

/-- The engine has found a feasible point, and its status is one that may come with a solution. -/
def Reply.Offers (r : Reply K) : Prop :=
  r.HasPoint ∧ ∃ status ∈ solutionStatuses, Ask.statusOfName r.status = .ok status

/-- Columns as values by name. -/
def realColumns (columns : List (String × K)) : List (String × Value K) :=
  columns.map fun c => (c.1, .real c.2)

namespace Ask

/-! ## The outcome -/

/-- **Columns become values by name.** -/
theorem valuesByName_of_areColumns {names values : Value K} {columns : List (String × K)}
    (h : Reply.AreColumns names values columns) :
    ∃ ns items, names.elements = .ok ns ∧ values.elements = .ok items ∧
      valuesByName (ns.zip items) = .ok (.newTable (Value.textEntries (realColumns columns))) := by
  obtain ⟨items, hitems, hread⟩ := h.values_eq
  refine ⟨_, items, h.names_eq, hitems, Value.tableFrom_eq_ok ?_ ?_⟩
  · have hnumbers := List.forall₂_map_right_iff.1 (forall₂_of_mapM_eq_ok hread)
    clear h hitems hread
    induction hnumbers with
    | nil => exact .nil
    | @cons item c items columns hitem _ ih =>
      refine .cons ?_ ih
      rw [hitem]
      rfl
  · have hnames : (Value.textEntries (realColumns columns)).map Prod.fst =
        (columns.map Prod.fst).map .text := by
      rw [Value.textEntries, realColumns, List.map_map, List.map_map, List.map_map]
      rfl
    rw [hnames]
    refine ⟨List.forall_mem_map.2 fun n _ => Value.isName_text n, List.pairwise_map.2 ?_⟩
    refine h.nodup_names.imp fun hne => ?_
    rw [Value.sameKey_text]
    exact beq_eq_false_iff_ne.2 hne

/-- A point takes its values from the columns, and nothing else. -/
theorem withPoint_withColumns {names values : Value K} {columns : List (String × K)}
    (h : Reply.AreColumns names values columns) (r : Reply K) (status : String) (o : Outcome K) :
    withPoint (r.withColumns names values) status o =
      if solutionStatuses.contains status then do
        if ← r.primal.isEqual (.int 2) then
          let objective ← r.objective.toNumber
          return { o with
            objective := .real objective
            solution := .newTable (Value.textEntries (realColumns columns)) }
        else return o
      else return o := by
  obtain ⟨ns, items, hnames, hitems, hvalues⟩ := valuesByName_of_areColumns h
  rw [withPoint]
  refine if_congr Iff.rfl (congrArg _ (funext fun feasible => ?_)) rfl
  refine if_congr Iff.rfl ?_ rfl
  simp only [Reply.withColumns, hnames, hitems]
  change (r.objective.toNumber >>= fun objective => valuesByName (ns.zip items) >>= _) = _
  rw [hvalues]
  rfl

/-- **What an outcome has from the columns.**  Whatever they are, there is the same fault, or the
same outcome but for the values by name, which are there exactly if the engine offers a point. -/
theorem outcomeOfRun_cases (r : Reply K) :
    (∃ f, ∀ names values columns, Reply.AreColumns names values columns →
      outcomeOfRun (r.withColumns names values) = .error f) ∨
    (¬r.Offers ∧ ∃ o, o.solution = .none ∧
      ∀ names values columns, Reply.AreColumns names values columns →
        outcomeOfRun (r.withColumns names values) = .ok o) ∨
    r.Offers ∧ ∃ o : Outcome K,
      ∀ names values columns, Reply.AreColumns names values columns →
        outcomeOfRun (r.withColumns names values) =
          .ok { o with solution := .newTable (Value.textEntries (realColumns columns)) } := by
  have hrun : ∀ names values, outcomeOfRun (r.withColumns names values) = (do
      let status ← statusOfName r.status
      let o ← withSearch r { Outcome.plain (.text status) .none .none with time := r.time }
      withPoint (r.withColumns names values) status o) := fun _ _ => rfl
  rcases hstatus : statusOfName r.status with f | status
  · refine .inl ⟨f, fun names values columns _ => ?_⟩
    rw [hrun, hstatus]
    rfl
  rcases hsearch : withSearch r { Outcome.plain (.text status) .none .none with time := r.time }
    with f | o
  · refine .inl ⟨f, fun names values columns _ => ?_⟩
    rw [hrun, hstatus]
    exact congrArg (· >>= _) hsearch
  have hsolution : o.solution = .none := (withSearch_eq_ok hsearch).2.2
  have hpoint : ∀ names values, outcomeOfRun (r.withColumns names values) =
      withPoint (r.withColumns names values) status o := by
    intro names values
    rw [hrun, hstatus]
    exact congrArg (· >>= _) hsearch
  cases hallowed : solutionStatuses.contains status with
  | false =>
    have hnot : ¬r.Offers := by
      rintro ⟨-, status', hmem, hstatus'⟩
      cases hstatus.symm.trans hstatus'
      rw [List.contains_iff_mem.2 hmem] at hallowed
      cases hallowed
    refine .inr (.inl ⟨hnot, o, hsolution, fun names values columns h => ?_⟩)
    rw [hpoint, withPoint_withColumns h, hallowed]
    rfl
  | true =>
    rcases hfeasible : r.primal.isEqual (.int 2) with f | feasible
    · refine .inl ⟨f, fun names values columns h => ?_⟩
      rw [hpoint, withPoint_withColumns h, hallowed, hfeasible]
      rfl
    · cases feasible with
      | false =>
        have hnot : ¬r.Offers := fun hoffers => by cases hfeasible.symm.trans hoffers.1
        refine .inr (.inl ⟨hnot, o, hsolution, fun names values columns h => ?_⟩)
        rw [hpoint, withPoint_withColumns h, hallowed, hfeasible]
        rfl
      | true =>
        rcases hobjective : r.objective.toNumber with f | c
        · refine .inl ⟨f, fun names values columns h => ?_⟩
          rw [hpoint, withPoint_withColumns h, hallowed, hfeasible, hobjective]
          rfl
        · have hoffers : r.Offers := ⟨hfeasible, status, List.contains_iff_mem.1 hallowed, hstatus⟩
          refine .inr (.inr ⟨hoffers, { o with objective := .real c },
            fun names values columns h => ?_⟩)
          rw [hpoint, withPoint_withColumns h, hallowed, hfeasible, hobjective]
          rfl

/-! ## Solving -/

section

variable {names values : Value K} {engine : Nat}

omit [Arithmetic K] in
theorem requireLive_commutes :
    Commutes (World.withColumns names values) (requireLive engine : Ask K Unit) :=
  .bind (.get_bind (fun _ => .pure _) fun _ => rfl) fun _ => .ite (.throw _) (.pure _)

omit [Arithmetic K] in
theorem record_commutes (e : Event K) : Commutes (World.withColumns names values) (record e) :=
  .modify fun _ => rfl

theorem setOption_commutes (name value : Value K) :
    Commutes (World.withColumns names values) (setOption engine name value) := by
  refine .bind requireLive_commutes fun _ => .bind (record_commutes _) fun _ =>
    .get_bind (fun w => .ite ?_ (.pure _)) fun _ => rfl
  exact .bind (.lift _) fun _ => .bind (.lift _) fun _ => .throw _

theorem applySettings_commutes (s : Settings K) :
    Commutes (World.withColumns names values) (applySettings engine s) := by
  rw [applySettings]
  refine .bind (.lift _) fun os => .bind (.forIn (fun o _ _ => ?_) _) fun _ => .pure _
  exact .bind (setOption_commutes (.text o.1) o.2) fun _ => .pure _

/-- **An engine is loaded without a look at the columns** that it is going to answer. -/
theorem load_commutes (given : Except Fault (Settings K)) :
    Commutes (World.withColumns names values) (load given) := by
  intro w
  cases hmissing : w.reply.missing with
  | some reason =>
    have hmissing' : (w.withColumns names values).reply.missing = some reason := hmissing
    rw [exec_load_of_missing hmissing, exec_load_of_missing hmissing']
  | none =>
    have hmissing' : (w.withColumns names values).reply.missing = none := hmissing
    have hloads : Commutes (World.withColumns names values) (do
        applySettings w.released.length (← given)
        return w.released.length : Ask K Nat) :=
      .bind (.lift _) fun s => .bind (applySettings_commutes s) fun _ => .pure _
    rw [exec_load hmissing, exec_load hmissing']
    exact hloads w.withEngine

end

/-- What a step with an engine of its own answers. -/
theorem exec_within_fst {α : Type} (given : Except Fault (Settings K)) (step : Nat → Ask K α)
    (w : World K) : (exec (within given step) w).1 = match exec (load given) w with
      | (.ok engine, w₁) => (exec (step engine) w₁).1
      | (.error f, _) => .error f := by
  rw [within, exec_bind]
  rcases exec (load given) w with ⟨f | engine, w₁⟩
  · rfl
  · dsimp only
    rw [exec_tryFinally, exec_release]

/-- A text of a format is read and then solved. -/
theorem exec_parse_run {engine : Nat} {w : World K} (h : w.isReleased engine = false)
    (text format : String) :
    (exec (do
      parse engine (.text text) (.text format)
      run engine) w).1 = w.reply.parseAnswer format >>= fun _ => outcomeOfRun w.reply := by
  rw [exec_bind, exec_parse h, Reply.parseAnswer]
  split_ifs
  · rcases w.reply.readAnswer (temporaryPath (lowerCase format)) with f | _
    · rfl
    · exact congrArg Prod.fst
        (exec_run (w := w.withRequest (.reading engine text format)) h)
  · rfl

/-- **What the answer to a text has from the columns.**  Whatever they are, there is the same fault,
or what is made of the answers of the engine. -/
theorem exec_solveText_columns (text format : String) (given : Except Fault (Settings K))
    (w : World K) :
    (∃ f, ∀ names values, (exec (solveText (.text text) (.text format) given)
      (w.withColumns names values)).1 = .error f) ∨
    ∀ names values, (exec (solveText (.text text) (.text format) given)
      (w.withColumns names values)).1 = outcomeOfRun (w.reply.withColumns names values) := by
  rcases hload : exec (load given) w with ⟨f | engine, w₁⟩
  · refine .inl ⟨f, fun names values => ?_⟩
    rw [solveText, exec_within_fst, load_commutes given w, hload]
  · obtain ⟨rfl, hasked⟩ := load_eq_ok hload
    have hreply : w₁.reply = w.reply := hasked.reply_eq
    have hlive : w₁.isReleased w.released.length = false := by
      rw [hasked.isReleased_eq]
      simp [World.isReleased, World.withEngine]
    have hanswer : ∀ names values, (exec (solveText (.text text) (.text format) given)
        (w.withColumns names values)).1 = w.reply.parseAnswer format >>= fun _ =>
          outcomeOfRun (w.reply.withColumns names values) := by
      intro names values
      rw [solveText, exec_within_fst, load_commutes given w, hload, ← hreply]
      exact exec_parse_run (w := w₁.withColumns names values) hlive text format
    rcases hparse : w.reply.parseAnswer format with f | _
    · refine .inl ⟨f, fun names values => ?_⟩
      rw [hanswer, hparse]
      rfl
    · refine .inr fun names values => ?_
      rw [hanswer, hparse]
      rfl

/-- **What the answer to a model has from the columns.**  Whatever they are, there is the same
fault, or what is made of the answers of the engine. -/
theorem exec_solveModel_columns (m : Model K) (format : Value K)
    (given : Except Fault (Settings K)) (w : World K) :
    (∃ f, ∀ names values, (exec (solveModel m format (.text "highs") given)
      (w.withColumns names values)).1 = .error f) ∨
    ∀ names values, (exec (solveModel m format (.text "highs") given)
      (w.withColumns names values)).1 = outcomeOfRun (w.reply.withColumns names values) := by
  have htext : ∀ names values, exec (solveModel m format (.text "highs") given)
      (w.withColumns names values) = exec (liftM (m.textIn format) >>= fun text =>
        solveText (.text text) format given) (w.withColumns names values) := fun _ _ => rfl
  rcases hwritten : m.textIn format with f | text
  · refine .inl ⟨f, fun names values => ?_⟩
    rw [htext, hwritten]
    rfl
  · obtain ⟨fmt, hfmt, -⟩ := bind_eq_ok.1 hwritten
    cases format with
    | text format =>
      have hsolve : ∀ names values, exec (solveModel m (.text format) (.text "highs") given)
          (w.withColumns names values) = exec (solveText (.text text) (.text format) given)
            (w.withColumns names values) := by
        intro names values
        rw [htext, hwritten]
        rfl
      simp only [hsolve]
      exact exec_solveText_columns text format given w
    | _ => cases hfmt

/-- **The outcome of a model, whatever the columns are.** -/
theorem solveModel_cases (m : Model K) (format : Value K) (given : Except Fault (Settings K))
    (w : World K) :
    (∃ f, ∀ names values columns, Reply.AreColumns names values columns →
      (exec (solveModel m format (.text "highs") given) (w.withColumns names values)).1 =
        .error f) ∨
    (¬w.reply.Offers ∧ ∃ o, o.solution = .none ∧
      ∀ names values columns, Reply.AreColumns names values columns →
        (exec (solveModel m format (.text "highs") given) (w.withColumns names values)).1 = .ok o) ∨
    w.reply.Offers ∧ ∃ o : Outcome K,
      ∀ names values columns, Reply.AreColumns names values columns →
        (exec (solveModel m format (.text "highs") given) (w.withColumns names values)).1 =
          .ok { o with solution := .newTable (Value.textEntries (realColumns columns)) } := by
  rcases exec_solveModel_columns m format given w with ⟨f, hf⟩ | hrun
  · exact .inl ⟨f, fun names values _ _ => hf names values⟩
  · simp only [hrun]
    exact outcomeOfRun_cases w.reply

end Ask

end MixedInteger
