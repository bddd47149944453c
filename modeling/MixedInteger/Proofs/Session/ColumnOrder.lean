import MixedInteger.Proofs.Engine.Columns
import MixedInteger.Proofs.Model.Feasible
import MixedInteger.Proofs.Session.SolutionTable

/-!
# The order of columns

An engine may answer the columns of a model in another order than the variables have.  The values
reach a solution by name, so the order does not matter to what the solution answers.

## What is here

* `Value.SameNumber`, `Value.Alike` — numbers and tables of numbers, up to the marks by which what
  is not a number is known again.
* `Solution.alike_tableOf` — what a solution keeps of values by name that are alike.
* `Run.exec_solveModel_columns` — the solution of a model, whatever the columns are.
* `Run.solution_spec` — what a solution answers, and that the order of columns does not matter.
-/

set_option autoImplicit false

namespace MixedInteger

variable {K : Type} [Arithmetic K]

open Fallible

/-! ## Numbers up to marks -/

namespace Value

/-- Two values are the same number, with or without a mark. -/
def SameNumber (y z : Value K) : Prop :=
  ∃ c mark mark', y = .scalar (.real c mark) ∧ z = .scalar (.real c mark')

/-- Two tables have the same keys with the same numbers. -/
def Alike {α : Type} (d d' : List (α × Value K)) : Prop :=
  List.Forall₂ (fun e e' => e.1 = e'.1 ∧ SameNumber e.2 e'.2) d d'

omit [Arithmetic K] in
theorem SameNumber.left_join {x y z : Value K} (h : SameNumber x y) (h' : SameNumber x z) :
    SameNumber y z := by
  obtain ⟨c, mark, mark', rfl, rfl⟩ := h
  obtain ⟨c', _, mark'', hc, rfl⟩ := h'
  obtain ⟨rfl, -⟩ := Scalar.real.inj (Value.scalar.inj hc)
  exact ⟨c, mark', mark'', rfl, rfl⟩

theorem SameNumber.hasNumber_iff {y z : Value K} (h : SameNumber y z) (c : K) :
    y.HasNumber c ↔ z.HasNumber c := by
  obtain ⟨c', mark, mark', rfl, rfl⟩ := h
  have hreal : ∀ mark, (scalar (.real c' mark)).HasNumber c ↔ c' = c := by
    intro mark
    constructor
    · rintro ⟨s, hs, hc⟩
      rw [← Value.scalar.inj hs] at hc
      exact Except.ok.inj hc
    · rintro rfl
      exact ⟨_, rfl, rfl⟩
  rw [hreal, hreal]

omit [Arithmetic K] in
theorem eq_none_iff_of_rel {y z : Option (Value K)} (h : Option.Rel SameNumber y z) :
    y = Option.none ↔ z = Option.none := by
  cases h with
  | none => exact Iff.rfl
  | some _ => exact iff_of_false nofun nofun

/-- The numbers of values that may be there. -/
theorem number_eq_of_rel {y z : Option (Value K)} (h : Option.Rel SameNumber y z) {c c' : K}
    (hc : ∃ y', y = some y' ∧ y'.HasNumber c) (hc' : ∃ z', z = some z' ∧ z'.HasNumber c') :
    c = c' := by
  obtain ⟨y', rfl, s, rfl, hs⟩ := hc
  obtain ⟨z', rfl, hz⟩ := hc'
  cases h with
  | some hsame =>
    obtain ⟨s', hs', hc'⟩ := (hsame.hasNumber_iff c').2 hz
    rw [Value.scalar.inj hs'] at hs
    exact Except.ok.inj (hs.symm.trans hc')

namespace Alike

omit [Arithmetic K] in
/-- Two tables that are like a third one are alike. -/
theorem left_join {α : Type} {d d' d'' : List (α × Value K)} (h : Alike d d') (h' : Alike d d'') :
    Alike d' d'' := by
  induction h generalizing d'' with
  | nil =>
    cases h'
    exact .nil
  | cons he _ ih =>
    cases h' with
    | cons he' h' => exact .cons ⟨he.1.symm.trans he'.1, he.2.left_join he'.2⟩ (ih h')

omit [Arithmetic K] in
theorem textEntries {d d' : List (String × Value K)} (h : Alike d d') :
    Alike (Value.textEntries d) (Value.textEntries d') := by
  induction h with
  | nil => exact .nil
  | cons he _ ih => exact .cons ⟨congrArg text he.1, he.2⟩ ih

omit [Arithmetic K] in
theorem map_fst_eq {α : Type} {d d' : List (α × Value K)} (h : Alike d d') :
    d'.map Prod.fst = d.map Prod.fst := by
  induction h with
  | nil => rfl
  | cons he _ ih => rw [List.map_cons, List.map_cons, he.1, ih]

/-- What is found in one of two tables that are alike is found in the other. -/
theorem lookup? {d d' : List (Value K × Value K)} (h : Alike d d') (key : Value K) :
    Option.Rel SameNumber (Value.lookup? key d) (Value.lookup? key d') := by
  induction h with
  | nil => exact .none
  | cons he _ ih =>
    rw [lookup?_cons, lookup?_cons, he.1]
    split
    · exact .some he.2
    · exact ih

end Alike

/-- Numbers by name that are handed over are the same numbers by name. -/
theorem exists_handedOver_textEntries {d : List (String × Value K)}
    (h : ∀ e ∈ d, ∃ c mark, e.2 = .scalar (.real c mark)) (look : Look K) (path : List Handle)
    (next : Nat) : ∃ d', repaintEntries look path (identifyEntries next (textEntries d)).1 =
      textEntries d' ∧ Alike d d' := by
  induction d generalizing next with
  | nil => exact ⟨[], rfl, .nil⟩
  | cons e d ih =>
    rw [List.forall_mem_cons] at h
    obtain ⟨⟨c, mark, hc⟩, hd⟩ := h
    obtain ⟨mark', hmark⟩ : ∃ mark', ((scalar (.real c mark)).identify next).1.repaint look path =
        .scalar (.real c mark') := exists_handedOver_real c mark look next
    rw [← hc] at hmark
    obtain ⟨d', hd', halike⟩ := ih hd (e.2.identify next).2
    refine ⟨(e.1, .scalar (.real c mark')) :: d', ?_, .cons ⟨rfl, c, mark, mark', hc, rfl⟩ halike⟩
    rw [textEntries, List.map_cons, identifyEntries]
    change (text e.1, (e.2.identify next).1.repaint look path) ::
      repaintEntries look path (identifyEntries (e.2.identify next).2 (textEntries d)).1 = _
    rw [hmark, hd']
    rfl

end Value

namespace Solution

/-- **What is kept of values by name that are alike** is alike. -/
theorem alike_tableOf {d d' : List (String × Value K)} (h : Value.Alike d d')
    (vs : List (Variable K)) : Value.Alike (tableOf vs (Value.textEntries d))
      (tableOf vs (Value.textEntries d')) := by
  induction vs with
  | nil => exact .nil
  | cons v vs ih =>
    rw [tableOf, tableOf, List.filterMap_cons, List.filterMap_cons]
    have hv := h.textEntries.lookup? v.name
    rcases hy : Value.lookup? v.name (Value.textEntries d) with _ | y <;>
    rcases hz : Value.lookup? v.name (Value.textEntries d') with _ | z <;>
    rw [hy, hz] at hv <;> cases hv
    · exact ih
    · rename_i hyz
      exact .cons ⟨rfl, hyz⟩ ih

/-- Solutions that hold the same numbers answer the same for an expression. -/
theorem Holds.get_expr_congr {x x' : Solution K} {held held' : Variable K → Option (Value K)}
    (h : x.Holds held) (h' : x'.Holds held')
    (hsame : ∀ v, Option.Rel Value.SameNumber (held v) (held' v)) (e : LinearExpr K) :
    x.get (.expr e) = x'.get (.expr e) := by
  by_cases hlack : ∃ v ∈ e.vars, held v = none
  · have hlack' : ∃ v ∈ e.vars, held' v = none := by
      obtain ⟨v, hv, hheld⟩ := hlack
      exact ⟨v, hv, (Value.eq_none_iff_of_rel (hsame v)).1 hheld⟩
    rw [(h.get_expr_eq_none_iff e).2 hlack, (h'.get_expr_eq_none_iff e).2 hlack']
  · push Not at hlack
    obtain ⟨a, ha, hget⟩ := h.get_expr e hlack
    obtain ⟨a', ha', hget'⟩ := h'.get_expr e fun v hv hheld =>
      hlack v hv ((Value.eq_none_iff_of_rel (hsame v)).2 hheld)
    have hterm : ∀ t ∈ e.terms, a t.1 = a' t.1 := fun t ht =>
      Value.number_eq_of_rel (hsame t.1) (ha _ (List.mem_map_of_mem ht))
        (ha' _ (List.mem_map_of_mem ht))
    have hvalue : e.value a = e.value a' :=
      List.foldl_ext _ _ _ fun total t ht => congrArg (fun c => total + t.2 * c) (hterm t ht)
    rw [hget, hget', hvalue]

end Solution

namespace Session

/-- The session with other columns in the answer of the engine. -/
def withColumns (s : Session K) (names values : Value K) : Session K :=
  { s with world := s.world.withColumns names values }

theorem lookWithin_withColumns (s : Session K) (names values : Value K) (depth : Nat) :
    (s.withColumns names values).lookWithin depth = s.lookWithin depth := by
  induction depth with
  | zero => rfl
  | succ depth ih =>
    funext path
    rw [lookWithin, lookWithin, ih]
    rfl

/-- Records look the same, and so do the settings that an argument refers to. -/
theorem settingsGiven_withColumns (s : Session K) (names values param : Value K) :
    (s.withColumns names values).settingsGiven param = s.settingsGiven param := by
  have hlook : (s.withColumns names values).look = s.look := lookWithin_withColumns s names values _
  cases param with
  | handle h p =>
    rw [settingsGiven, settingsGiven, record?, record?, hlook]
    rfl
  | _ => rfl

end Session

/-- What is handed over of columns are numbers by name. -/
theorem Record.HasValues.of_alike {r : Record K} {columns : List (String × K)}
    {d : List (String × Value K)} {i : Option Nat} (hcolumns : (columns.map Prod.fst).Nodup)
    (h : Value.Alike (realColumns columns) d)
    (hr : r.read "solution" = .ok (.table (Value.textEntries d) i)) : r.HasValues d where
  nodup_names := by
    rwa [h.map_fst_eq, realColumns, List.map_map]
  hasNumber e he := by
    obtain ⟨_, -, -, c, -, mark, -, hc⟩ := exists_of_forall₂ h he
    exact ⟨c, _, hc, rfl⟩
  read_solution := .inr ⟨i, hr⟩

/-- Two solves of a model end with the same fault, or with solutions that keep the same numbers for
the same variables, which are those of a given table if a point has been found and none otherwise,
and that answer the same for expressions. -/
def Solution.Agree (found : Prop) (table₀ : List (Value K × Value K)) (k : Nat)
    (run run' : Except Fault (Value K) × Session K) : Prop :=
  (∃ f, run.1 = .error f ∧ run'.1 = .error f) ∨
  ∃ p p' x x' table table', run.1 = .ok (.handle (.solution k) p) ∧
    run'.1 = .ok (.handle (.solution k) p') ∧
    run.2.Keeps k x table ∧ run'.2.Keeps k x' table' ∧
    (found → Value.Alike table₀ table) ∧ (¬found → table = []) ∧ Value.Alike table table' ∧
    ∀ e, x.get (.expr e) = x'.get (.expr e)

namespace Run

/-- The solution of an outcome with columns. -/
theorem exec_addSolution_of_columns {s : Session K} (hs : s.IsNumbered) {o : Outcome K}
    {columns : List (String × K)} {vs : List (Variable K)}
    (hcolumns : (columns.map Prod.fst).Nodup)
    (ho : o.solution = .newTable (Value.textEntries (realColumns columns)))
    (hids : (vs.map fun v => v.id).Nodup) (hkeys : ∀ v ∈ vs, v.name.isKey = true) :
    ∃ p t x table, exec (addSolution (.outcome s.records.length) (.list (vs.map .var)))
        (s.withOutcome o) = (.ok (.handle (.solution s.solutions.length) p), t) ∧
      t.Keeps s.solutions.length x table ∧
      Value.Alike (Solution.tableOf vs (Value.textEntries (realColumns columns))) table := by
  obtain ⟨r, i, j, hr, hraw⟩ := Session.exists_read_newTable hs ho
  obtain ⟨d, hd, halike⟩ := Value.exists_handedOver_textEntries (d := realColumns columns)
    (List.forall_mem_map.2 fun c _ => ⟨c.2, none, rfl⟩) (s.withOutcome o).look [.inside j] i
  rw [hd] at hraw
  obtain ⟨p, t, x, hadded, -, hkeeps⟩ :=
    exec_addSolution_of_hasValues hr (.of_alike hcolumns halike hraw) hids hkeys
  exact ⟨p, t, x, _, hadded, hkeeps, Solution.alike_tableOf halike vs⟩

/-- The solution of an outcome without one. -/
theorem exec_addSolution_of_nothing (s : Session K) {o : Outcome K} {vs : List (Variable K)}
    (ho : o.solution = .none) (hids : (vs.map fun v => v.id).Nodup)
    (hkeys : ∀ v ∈ vs, v.name.isKey = true) :
    ∃ p t x, exec (addSolution (.outcome s.records.length) (.list (vs.map .var)))
        (s.withOutcome o) = (.ok (.handle (.solution s.solutions.length) p), t) ∧
      t.Keeps s.solutions.length x [] := by
  obtain ⟨r, hr, hread⟩ := Session.exists_record?_withOutcome s o (t := s.withOutcome o) rfl rfl
  obtain ⟨i, -, -, hraw⟩ := hread "solution" o.solution rfl
  rw [ho] at hraw
  have hvalues : r.HasValues [] :=
    ⟨.nil, fun _ he => absurd he List.not_mem_nil, .inl ⟨hraw, rfl⟩⟩
  obtain ⟨p, t, x, hadded, -, hkeeps⟩ := exec_addSolution_of_hasValues hr hvalues hids hkeys
  have hempty : Solution.tableOf vs (Value.textEntries []) = [] :=
    List.filterMap_eq_nil_iff.2 fun _ _ => rfl
  rw [hempty] at hkeeps
  exact ⟨p, t, x, hadded, hkeeps⟩

/-- A model is not solved if the step around the engines fails. -/
theorem exec_solveModel_of_error {s : Session K} {id : Nat} {m : Model K}
    (hm : s.models[id]? = some m) {param format backend : Value K} {f : Fault}
    (h : (exec (Ask.solveModel m format backend (s.settingsGiven param)) s.world).1 = .error f) :
    (exec (solveModel id param format backend) s).1 = .error f := by
  rw [exec_solveModel_of_model hm]
  rcases hask : exec (Ask.solveModel m format backend (s.settingsGiven param)) s.world
    with ⟨f' | o, w⟩ <;> rw [hask] at h <;> cases h
  rfl

/-- The solution of a model is made from the outcome of the step around the engines. -/
theorem exists_exec_solveModel_of_ok {s : Session K} {id : Nat} {m : Model K}
    (hm : s.models[id]? = some m) {param format backend : Value K} {o : Outcome K}
    (h : (exec (Ask.solveModel m format backend (s.settingsGiven param)) s.world).1 = .ok o) :
    ∃ w, exec (solveModel id param format backend) s =
      exec (addSolution (.outcome s.records.length) (.list (m.vars.map .var)))
        (({ s with world := w } : Session K).withOutcome o) :=
  ⟨_, exec_solveModel hm (Prod.ext h rfl)⟩

/-- **The solution of a model, whatever the columns are.**  There is always the same fault, or
always a solution, which takes its values from the columns by name if the engine offers a point, and
has none otherwise. -/
theorem exec_solveModel_columns {s : Session K} (hs : s.IsNumbered) {id : Nat} {m : Model K}
    (hm : s.models[id]? = some m) (hids : (m.vars.map fun v => v.id).Nodup)
    (hkeys : ∀ v ∈ m.vars, v.name.isKey = true) (param format : Value K) :
    (∃ f, ∀ names values columns, Reply.AreColumns names values columns →
      (exec (solveModel id param format (.text "highs")) (s.withColumns names values)).1 =
        .error f) ∨
    ∀ names values columns, Reply.AreColumns names values columns →
      ∃ p t x table, exec (solveModel id param format (.text "highs"))
          (s.withColumns names values) = (.ok (.handle (.solution s.solutions.length) p), t) ∧
        t.Keeps s.solutions.length x table ∧
        (s.world.reply.Offers → Value.Alike
          (Solution.tableOf m.vars (Value.textEntries (realColumns columns))) table) ∧
        (¬s.world.reply.Offers → table = []) := by
  have hgiven : ∀ names values, (exec (Ask.solveModel m format (.text "highs")
      ((s.withColumns names values).settingsGiven param)) (s.withColumns names values).world).1 =
      (exec (Ask.solveModel m format (.text "highs") (s.settingsGiven param))
        (s.world.withColumns names values)).1 := by
    intro names values
    rw [s.settingsGiven_withColumns]
    rfl
  rcases Ask.solveModel_cases m format (s.settingsGiven param) s.world with
    ⟨f, hf⟩ | ⟨hnot, o, ho, hok⟩ | ⟨hoffers, o, hok⟩
  · exact .inl ⟨f, fun names values columns h =>
      exec_solveModel_of_error (s := s.withColumns names values) hm
        ((hgiven names values).trans (hf names values columns h))⟩
  · refine .inr fun names values columns h => ?_
    obtain ⟨w, hw⟩ := exists_exec_solveModel_of_ok (s := s.withColumns names values) hm
      ((hgiven names values).trans (hok names values columns h))
    obtain ⟨p, t, x, hadded, hkeeps⟩ :=
      exec_addSolution_of_nothing { s with world := w } ho hids hkeys
    exact ⟨p, t, x, [], hw.trans hadded, hkeeps, fun hoffers => absurd hoffers hnot, fun _ => rfl⟩
  · refine .inr fun names values columns h => ?_
    obtain ⟨w, hw⟩ := exists_exec_solveModel_of_ok (s := s.withColumns names values) hm
      ((hgiven names values).trans (hok names values columns h))
    obtain ⟨p, t, x, table, hadded, hkeeps, halike⟩ := exec_addSolution_of_columns
      (s := { s with world := w }) hs h.nodup_names (o := { o with
        solution := .newTable (Value.textEntries (realColumns columns)) }) rfl hids hkeys
    exact ⟨p, t, x, table, hw.trans hadded, hkeeps, fun _ => halike,
      fun hnot => absurd hoffers hnot⟩

/-- **The order of the columns does not matter** to how a model is solved and to the numbers that
its solution keeps and answers. -/
theorem solveModel_columnOrder {s : Session K} (hs : s.IsNumbered) {id : Nat} {m : Model K}
    (hm : s.models[id]? = some m) (hids : (m.vars.map fun v => v.id).Nodup)
    (hkeys : ∀ v ∈ m.vars, v.name.isKey = true) (param format : Value K)
    {names values names' values' : Value K} {columns columns' : List (String × K)}
    (h : Reply.AreColumns names values columns) (h' : Reply.AreColumns names' values' columns')
    (hperm : columns.Perm columns') :
    Solution.Agree s.world.reply.Offers
      (Solution.tableOf m.vars (Value.textEntries (realColumns columns))) s.solutions.length
      (exec (solveModel id param format (.text "highs")) (s.withColumns names values))
      (exec (solveModel id param format (.text "highs")) (s.withColumns names' values')) := by
  rcases exec_solveModel_columns hs hm hids hkeys param format with ⟨f, hf⟩ | hok
  · exact .inl ⟨f, hf names values columns h, hf names' values' columns' h'⟩
  · right
    obtain ⟨p, t, x, table, hrun, hkeeps, hkept, hempty⟩ := hok names values columns h
    obtain ⟨p', t', x', table', hrun', hkeeps', hkept', hempty'⟩ := hok names' values' columns' h'
    have hnodup : ∀ {columns : List (String × K)}, (columns.map Prod.fst).Nodup →
        ((realColumns columns).map Prod.fst).Nodup := by
      intro columns hcolumns
      rwa [realColumns, List.map_map]
    have hsame : Solution.tableOf m.vars (Value.textEntries (realColumns columns)) =
        Solution.tableOf m.vars (Value.textEntries (realColumns columns')) :=
      Solution.tableOf_textEntries_congr (hnodup h.nodup_names) (hnodup h'.nodup_names)
        fun _ _ _ _ _ => (hperm.map _).mem_iff
    have halike : Value.Alike table table' := by
      by_cases hoffers : s.world.reply.Offers
      · rw [← hsame] at hkept'
        exact (hkept hoffers).left_join (hkept' hoffers)
      · rw [hempty hoffers, hempty' hoffers]
        exact .nil
    rw [hrun, hrun']
    exact ⟨p, p', x, x', table, table', rfl, rfl, hkeeps, hkeeps', hkept, hempty, halike,
      hkeeps.holds.get_expr_congr hkeeps'.holds fun v => halike.lookup? (.var v)⟩

/-- **What a solution answers.**  A report has values by name.  Its solution keeps, in the order of
the variables, the values under their names, whatever the order of the values by name is and
whatever else is among them.  A variable has what is kept for it; another variable has nothing, even
if it has the same name.  An expression has nothing exactly if one of its variables has nothing, and
otherwise its value under what its variables have, which in exact numbers is its constant plus the
sum of its coefficients times these.  A model that is solved gets the same numbers, or the same
fault, in whatever order the engine answers the columns. -/
theorem solution_spec (s : Session K) :
    (∀ (report : Handle) (r : Record K) (d : List (String × Value K)) (vs : List (Variable K)),
      s.record? report = some r → r.HasValues d → (vs.map fun v => v.id).Nodup →
      (∀ v ∈ vs, v.name.isKey = true) →
      (∃ p t x, exec (addSolution report (.list (vs.map .var))) s =
          (.ok (.handle (.solution s.solutions.length) p), t) ∧ x.report = report ∧
        t.Keeps s.solutions.length x (Solution.tableOf vs (Value.textEntries d))) ∧
      Solution.Tabulates vs d (Solution.tableOf vs (Value.textEntries d)) ∧
      ∀ d' : List (String × Value K), (d'.map Prod.fst).Nodup →
        (∀ v ∈ vs, ∀ n, v.name = .text n → ∀ y, (n, y) ∈ d ↔ (n, y) ∈ d') →
        Solution.tableOf vs (Value.textEntries d) = Solution.tableOf vs (Value.textEntries d')) ∧
    (∀ (F : Type) [Field F] [LinearOrder F] [FloorRing F] [ToString F] [Extended.Tolerance F]
      (e : LinearExpr (Extended F)) (a : Variable (Extended F) → Extended F),
      e.value a = e.constant + (e.terms.map fun t => t.2 * a t.1).sum) ∧
    ∀ (id : Nat) (m : Model K), s.IsNumbered → s.models[id]? = some m →
      (m.vars.map fun v => v.id).Nodup → (∀ v ∈ m.vars, v.name.isKey = true) →
      ∀ (param format names values names' values' : Value K) (columns columns' : List (String × K)),
      Reply.AreColumns names values columns → Reply.AreColumns names' values' columns' →
      columns.Perm columns' →
      Solution.Agree s.world.reply.Offers
        (Solution.tableOf m.vars (Value.textEntries (realColumns columns))) s.solutions.length
        (exec (solveModel id param format (.text "highs")) (s.withColumns names values))
        (exec (solveModel id param format (.text "highs")) (s.withColumns names' values')) := by
  refine ⟨fun report r d vs hr hd hids hkeys => ?_, fun F _ _ _ _ _ e a => ?_,
    fun id m hs hm hids hkeys param format _ _ _ _ columns columns' h h' hperm => ?_⟩
  · exact ⟨exec_addSolution_of_hasValues hr hd hids hkeys,
      Solution.tabulates_tableOf hids hd.nodup_names,
      fun d' hd' hsame => Solution.tableOf_textEntries_congr hd.nodup_names hd' hsame⟩
  · exact LinearExpr.value_eq_sum e a
  · exact solveModel_columnOrder hs hm hids hkeys param format h h' hperm

end Run

/-! ## A variable of another model -/

section Homonym

local instance : Extended.Tolerance ℚ := .standard

/-- A variable of another model, under the same name. -/
def homonym : Variable (Extended ℚ) := { boundedVariable with id := ⟨1, 0⟩ }

/-- A variable that no problem mentions. -/
def idleVariable : Variable (Extended ℚ) :=
  ⟨⟨0, 1⟩, .text "idle", .continuous, .finite 0, .finite 9⟩

/-- Values under the name of the variable and under a name of no variable. -/
def namedValues : List (String × Value (Extended ℚ)) :=
  [("z", .real (.finite 5)), ("x", .real (.finite 3))]

/-- An outcome with these values. -/
def namedOutcome : Outcome (Extended ℚ) :=
  .plain (.text "optimal") (.real (.finite 7)) (.newTable (Value.textEntries namedValues))

/-- A session with a model of the variable, where the engine finds points. -/
def namedSession : Session (Extended ℚ) :=
  let s : Session (Extended ℚ) := Session.start
  { s with
    models := [{ Model.empty 0 .none with vars := [boundedVariable] }]
    world := { s.world with reply := { s.world.reply with primal := .int 2 } } }

/-- The same columns in two orders. -/
def namedColumns : List (String × Extended ℚ) := [("z", .finite 5), ("x", .finite 3)]

namespace Run

/-- The model of this session is solved, where the engine answers columns. -/
def solveNamed (names values : List (Value (Extended ℚ))) :
    Except Fault (Value (Extended ℚ)) × Session (Extended ℚ) :=
  exec (solveModel 0 .none (.text "lp") (.text "highs"))
    (namedSession.withColumns (.list names) (.list values))

/-- The model is solved, where the engine answers the columns in one order. -/
def solveForwards : Except Fault (Value (Extended ℚ)) × Session (Extended ℚ) :=
  solveNamed [.text "z", .text "x"] [.real (.finite 5), .real (.finite 3)]

/-- The model is solved, where the engine answers them in the other order. -/
def solveBackwards : Except Fault (Value (Extended ℚ)) × Session (Extended ℚ) :=
  solveNamed [.text "x", .text "z"] [.real (.finite 3), .real (.finite 5)]

/-- The variable has its value, its homonym and the idle variable have none, and neither has an
expression of the homonym; and the model gets the value in either order of the columns. -/
theorem solution_spec_homonym :
    (∃ p t x, exec (addSolution (.outcome 0) (.list [.var boundedVariable, .var idleVariable]))
        (namedSession.withOutcome namedOutcome) = (.ok (.handle (.solution 0) p), t) ∧
      exec (solution 0) t = (.ok x, t) ∧
      x.get (.var boundedVariable) = .ok (.real (.finite 3)) ∧
      x.get (.var homonym) = .ok .none ∧
      x.require (.var idleVariable) (some idleVariable.name) = .error (.noValue "idle") ∧
      x.get (.expr ⟨[(homonym, .finite 2)], .finite 1⟩) = .ok .none) ∧
    ∃ x x' table table', solveForwards.2.Keeps 0 x table ∧ solveBackwards.2.Keeps 0 x' table' ∧
      Value.Alike [(.var boundedVariable, .real (.finite 3))] table ∧ Value.Alike table table' := by
  have hnumbered : namedSession.IsNumbered := Session.isNumbered_start (K := Extended ℚ)
  constructor
  · obtain ⟨r, i, hr, hraw⟩ := Session.exists_read_solution hnumbered (o := namedOutcome) rfl rfl
    have hvalues : r.HasValues namedValues := by
      refine ⟨by decide, ?_, .inr ⟨some i, hraw⟩⟩
      exact List.forall_mem_cons.2 ⟨⟨_, _, rfl, rfl⟩, List.forall_mem_singleton.2 ⟨_, _, rfl, rfl⟩⟩
    obtain ⟨⟨p, t, x, hadded, -, hkeeps⟩, -, -⟩ :=
      (solution_spec (namedSession.withOutcome namedOutcome)).1 (.outcome 0) r namedValues
        [boundedVariable, idleVariable] hr hvalues (by decide)
        (List.forall_mem_cons.2 ⟨rfl, List.forall_mem_singleton.2 rfl⟩)
    refine ⟨p, t, x, hadded, hkeeps.found, hkeeps.holds.get_var boundedVariable,
      hkeeps.holds.get_var homonym, hkeeps.holds.require_of_none idleVariable "idle" rfl rfl, ?_⟩
    exact (hkeeps.holds.get_expr_eq_none_iff _).2 ⟨homonym, List.mem_singleton_self _, rfl⟩
  · have hagree := (solution_spec namedSession).2.2 0 _ hnumbered rfl (by decide)
      (List.forall_mem_singleton.2 rfl) .none (.text "lp") (.list [.text "z", .text "x"])
      (.list [.real (.finite 5), .real (.finite 3)]) (.list [.text "x", .text "z"])
      (.list [.real (.finite 3), .real (.finite 5)]) namedColumns namedColumns.reverse
      ⟨rfl, ⟨_, rfl, rfl⟩, by decide⟩ ⟨rfl, ⟨_, rfl, rfl⟩, by decide⟩ (List.reverse_perm _).symm
    have hsolved : solveForwards.1.isOk = true := by decide +kernel
    have hoffers : namedSession.world.reply.Offers := ⟨rfl, "optimal", by decide, rfl⟩
    rcases hagree with ⟨f, hf, -⟩ |
      ⟨-, -, x, x', table, table', -, -, hkeeps, hkeeps', hkept, -, halike, -⟩
    · rw [solveForwards, solveNamed, hf] at hsolved
      cases hsolved
    · exact ⟨x, x', table, table', hkeeps, hkeeps', hkept hoffers, halike⟩

end Run

end Homonym

end MixedInteger
