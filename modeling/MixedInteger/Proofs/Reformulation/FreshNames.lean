import MixedInteger.Model.Call
import MixedInteger.Proofs.Model.NameSearch

/-!
# The names that calls search for

Every call searches for names in the ways of `NameSearch` and in no other, whether it succeeds or
not, and whatever its arguments are.  So nothing that a caller does makes a search find a name again.

## What is here

* `Build.Recorded` — a building step all of whose searches are known, with the rules by which such
  steps are put together.
* `Build.register_recorded` and its kin — the building steps, one by one.
* `Build.perform_recorded` — **every call** is such a step.
* `Model.searches_find_new` — **searches end soon**, at names that are not in use, and never find a
  name again.
-/

set_option autoImplicit false

namespace MixedInteger

variable {K α β : Type}

namespace Build

/-- Whatever model the step is run on, its searches are known. -/
def Recorded (x : Build K α) : Prop := ∀ m, ∃ log, Searches x m log

namespace Recorded

theorem search (s : NameSearch) : Recorded (s.run : Build K String) := fun m =>
  ⟨_, .search s (s.exec_run m rfl)⟩

theorem quiet {x : Build K α} (h : ∀ m (s : NameSearch), s.counter (exec x m).2 = s.counter m) :
    Recorded x := fun m => ⟨[], .quiet (h m)⟩

theorem pure (a : α) : Recorded (pure a : Build K α) := .quiet fun _ _ => rfl

theorem throw (e : Fault) : Recorded (throw e : Build K α) := .quiet fun _ _ => rfl

theorem lift (x : Except Fault α) : Recorded (liftM x : Build K α) := .quiet fun _ _ => rfl

theorem get : Recorded (MonadState.get : Build K (Model K)) := .quiet fun _ _ => rfl

theorem bind {x : Build K α} {f : α → Build K β} (hx : Recorded x) (hf : ∀ a, Recorded (f a)) :
    Recorded (x >>= f) := by
  intro m
  obtain ⟨log, hlog⟩ := hx m
  rcases h : exec x m with ⟨e | a, n⟩
  · exact ⟨log, .bind_error hlog h⟩
  · obtain ⟨log', hlog'⟩ := hf a n
    exact ⟨log ++ log', .bind_ok hlog h hlog'⟩

theorem map (g : α → β) {x : Build K α} (hx : Recorded x) : Recorded (g <$> x) := by
  rw [map_eq_pure_bind]
  exact .bind hx fun a => .pure (g a)

theorem ite {p : Prop} [Decidable p] {x y : Build K α} (hx : Recorded x) (hy : Recorded y) :
    Recorded (if p then x else y) := by
  split
  · exact hx
  · exact hy

theorem mapM {f : α → Build K β} {l : List α} (hf : ∀ a, Recorded (f a)) :
    Recorded (l.mapM f) := by
  induction l with
  | nil => exact .pure _
  | cons a l ih =>
    rw [List.mapM_cons]
    exact .bind (hf a) fun b => .bind ih fun bs => .pure _

theorem forIn {f : α → β → Build K (ForInStep β)} (hf : ∀ a b, Recorded (f a b)) (l : List α)
    (b : β) : Recorded (forIn l b f) := by
  induction l generalizing b with
  | nil => exact .pure _
  | cons a l ih =>
    rw [List.forIn_cons]
    refine .bind (hf a b) fun r => ?_
    cases r with
    | done => exact .pure _
    | yield c => exact ih c

end Recorded

/-! ## Variables and rows -/

theorem freshVariableName_recorded : Recorded (freshVariableName : Build K String) :=
  .search .ordinary

theorem auxiliaryName_recorded (stem : String) : Recorded (auxiliaryName stem : Build K String) :=
  .search (.auxiliary stem)

theorem freshConstraintName_recorded : Recorded (freshConstraintName : Build K String) :=
  .search .row

variable [Arithmetic K]

open Arithmetic

theorem requireNewName_recorded (name : Value K) : Recorded (requireNewName name) := by
  have hrest : Recorded (do
      if ((← MonadState.get).find? name).isSome then
        throw (.variableNameTaken (← name.display)) : Build K Unit) :=
    .bind .get fun m => .ite (.bind (.lift _) fun _ => .throw _) (.pure _)
  exact .ite (.bind (.throw _) fun _ => hrest) hrest

theorem requireNewRow_recorded (name : Value K) : Recorded (requireNewRow name) := by
  have hrest : Recorded (do
      if (← MonadState.get).hasRow name then
        throw (.constraintNameTaken (← name.display)) : Build K Unit) :=
    .bind .get fun m => .ite (.bind (.lift _) fun _ => .throw _) (.pure _)
  exact .ite (.bind (.throw _) fun _ => hrest) hrest

theorem register_recorded (c : Constraint K) (name : Value K) : Recorded (register c name) := by
  have htake : ∀ chosen : Value K, Recorded (do
      let named := c.withName chosen
      modify fun m =>
        { m with constraints := m.constraints ++ [named], rowNames := m.rowNames ++ [chosen] }
      return named : Build K (Constraint K)) := fun chosen => .quiet fun m s => by cases s <;> rfl
  rw [register]
  split
  · exact .bind freshConstraintName_recorded fun name => .bind (.pure (Value.text name)) htake
  · exact .bind (requireNewRow_recorded _) fun _ => .bind (.pure _) htake

theorem registerAll_recorded (cs : List (Constraint K)) : Recorded (registerAll cs) :=
  .mapM fun c => register_recorded c .none

/-- Rows that are taken in for their own sake. -/
theorem registerAll_then {x : Build K α} (cs : List (Constraint K)) (hx : Recorded x) :
    Recorded (do discard <| registerAll cs; x) :=
  .bind (.map _ (registerAll_recorded cs)) fun _ => hx

theorem register_then {x : Build K α} (c : Constraint K) (hx : Recorded x) :
    Recorded (do discard <| register c .none; x) :=
  .bind (.map _ (register_recorded c .none)) fun _ => hx

theorem declare_recorded (name : Value K) (d : Domain) (lower upper : K) :
    Recorded (declare name d lower upper) := .quiet fun m s => by
  cases hp : (d.bounds lower upper).isProper with
  | false =>
    obtain ⟨e, he⟩ := exec_declare_of_not_isProper name m hp
    rw [he]
  | true =>
    rw [exec_declare m hp]
    cases s <;> rfl

theorem auxiliary_recorded (stem : String) (d : Domain) (lower upper : K) :
    Recorded (auxiliary stem d lower upper) :=
  .bind (auxiliaryName_recorded stem) fun _ => declare_recorded _ d lower upper

theorem selector_recorded (stem : String) : Recorded (selector stem : Build K (Variable K)) :=
  auxiliary_recorded stem .binary zero one

/-- A variable from arguments, under a name that has been settled. -/
theorem declareRead_recorded (domain lower upper name : Value K) : Recorded (do
    match ← domain.toDomain with
    | .binary => declare name .binary zero one
    | d => do
      let l ← lower.toNumber
      let u ← upper.toNumber
      declare name d l u) := by
  refine .bind (.lift _) fun d => ?_
  cases d with
  | binary => exact declare_recorded _ _ _ _
  | continuous | integer =>
    exact .bind (.lift _) fun l => .bind (.lift _) fun u => declare_recorded _ _ _ _

theorem addVariable_recorded (domain lower upper name : Value K) :
    Recorded (addVariable domain lower upper name) := by
  have hread := declareRead_recorded domain lower upper
  refine .bind (requireNewName_recorded name) fun _ => ?_
  split
  · exact .bind freshVariableName_recorded fun name => .bind (.pure (Value.text name)) hread
  · exact .bind (.pure _) hread

theorem addVariables_recorded (count domain lower upper stem : Value K) :
    Recorded (addVariables count domain lower upper stem) :=
  .bind (.lift _) fun _ => .bind (.lift _) fun _ =>
    .bind (.forIn (fun name _ => .bind (requireNewName_recorded name) fun _ => .pure _) _ _)
      fun _ => .mapM fun _ => addVariable_recorded _ _ _ _

/-! ## Reformulations -/

theorem conjunction_recorded (vs : List (Variable K)) : Recorded (conjunction vs) :=
  .bind (selector_recorded _) fun z => registerAll_then _ (.pure z)

theorem disjunction_recorded (vs : List (Variable K)) : Recorded (disjunction vs) :=
  .bind (selector_recorded _) fun z => registerAll_then _ (.pure z)

theorem negation_recorded (x : Variable K) : Recorded (negation x) :=
  .bind (selector_recorded _) fun z => registerAll_then _ (.pure z)

theorem exclusive_recorded (encoding : ExclusiveEncoding) (x y : Variable K) :
    Recorded (exclusive encoding x y) := by
  cases encoding with
  | inequalities => exact .bind (selector_recorded _) fun z => registerAll_then _ (.pure z)
  | compact =>
    exact .bind (conjunction_recorded _) fun _ => .bind (selector_recorded _) fun z =>
      registerAll_then _ (.pure z)

theorem indicator_recorded (delta : Variable K) (active : Bool) (c : Constraint K)
    (bigM : Option K) : Recorded (indicator delta active c bigM) :=
  .bind (.lift _) fun _ => registerAll_recorded _

theorem eitherOr_recorded (c d : Constraint K) (bigM : Option K) :
    Recorded (eitherOr c d bigM) :=
  .bind (.lift _) fun _ => .bind (.lift _) fun _ => .bind (selector_recorded _) fun delta =>
    registerAll_then _ (registerAll_then _ (.pure delta))

theorem magnitude_recorded (e : LinearExpr K) (bounds : Interval K) :
    Recorded (magnitude e bounds) :=
  .bind (auxiliary_recorded _ _ _ _) fun _ => .bind (auxiliary_recorded _ _ _ _) fun _ =>
    .bind (selector_recorded _) fun _ => .bind (auxiliary_recorded _ _ _ _) fun t =>
    registerAll_then _ (.pure t)

theorem equalTo_recorded (stem : String) (operand : BoundedExpr K) :
    Recorded (equalTo stem operand) :=
  .bind (auxiliary_recorded _ _ _ _) fun t => register_then _ (.pure t)

/-- The greatest and the least of several expressions are selected in one way. -/
theorem selection_recorded (stem selectorStem : String) (bounds : Interval K)
    (operands : List (BoundedExpr K)) (constants : List K)
    (rows : Variable K → LinearExpr K → Variable K → K → List (Constraint K)) : Recorded (do
      let t ← auxiliary stem .continuous bounds.lower bounds.upper
      let selectors ← operands.mapM fun _ => selector selectorStem
      selectOne selectors
      for (o, s, m) in operands.zip (selectors.zip constants) do
        discard <| registerAll (rows t o.expr s m)
      return t : Build K (Variable K)) :=
  .bind (auxiliary_recorded _ _ _ _) fun t => .bind (.mapM fun _ => selector_recorded _) fun _ =>
    register_then _ <| .bind (.forIn (fun _ _ => registerAll_then _ (.pure _)) _ _) fun _ => .pure t

theorem maximum_recorded (first : BoundedExpr K) (rest : List (BoundedExpr K))
    (bigM : Option K) : Recorded (maximum first rest bigM) :=
  selection_recorded "max" "max_sel" _ _ _ Extremum.maximumRows

theorem minimum_recorded (first : BoundedExpr K) (rest : List (BoundedExpr K))
    (bigM : Option K) : Recorded (minimum first rest bigM) :=
  selection_recorded "min" "min_sel" _ _ _ Extremum.minimumRows

theorem gate_recorded (delta : Variable K) (factor : LinearExpr K) (bounds : Interval K) :
    Recorded (gate delta factor bounds) :=
  .bind (auxiliary_recorded _ _ _ _) fun w => registerAll_then _ (.pure w)

theorem divide_recorded (e : LinearExpr K) (d : Int) : Recorded (divide e d) :=
  .ite (.throw _) <| .bind (auxiliary_recorded _ _ _ _) fun _ =>
    .bind (auxiliary_recorded _ _ _ _) fun _ => register_then _ (.pure _)

theorem reifyAtMost_recorded (e : LinearExpr K) (rhs : K) (bigM : Option K)
    (margin : Option (Scalar K)) : Recorded (reifyAtMost e rhs bigM margin) :=
  .bind (.lift _) fun _ => .bind (selector_recorded _) fun delta =>
    register_then _ <| .bind (.lift _) fun _ => register_then _ (.pure delta)

theorem reifyEquals_recorded (e : LinearExpr K) (rhs : K) (bigM : Option K)
    (margin : Option (Scalar K)) : Recorded (reifyEquals e rhs bigM margin) :=
  .bind (.lift _) fun _ => .bind (.lift _) fun _ => .bind (selector_recorded _) fun delta =>
    .bind (selector_recorded _) fun _ => registerAll_then _ (.pure delta)

theorem reify_recorded (c : Constraint K) (bigM : Option K) (margin : Option (Scalar K)) :
    Recorded (reify c bigM margin) := by
  rw [reify]
  cases c.relation with
  | le => exact reifyAtMost_recorded _ _ _ _
  | ge => exact reifyAtMost_recorded _ _ _ _
  | eq => exact reifyEquals_recorded _ _ _ _

/-! ## Calls -/

omit [Arithmetic K] in
theorem lastRows_recorded (n : Nat) : Recorded (lastRows n : Build K _) := .quiet fun _ _ => rfl

omit [Arithmetic K] in
theorem lastRow_recorded (c : Constraint K) : Recorded (lastRow c) := .quiet fun _ _ => rfl

theorem addConstraint_recorded (constraint name : Value K) :
    Recorded (addConstraint constraint name) := by
  cases constraint with
  | constraint c id => exact register_recorded c name
  | _ => exact .throw _

theorem setObjective_recorded (expr direction : Value K) :
    Recorded (setObjective expr direction) := by
  refine .quiet fun m s => ?_
  rcases setObjective_spec expr direction m with h | ⟨e, d, -, h⟩ <;> rw [h]
  cases s <;> rfl

theorem connective_recorded (context : String) (args : List (Value K)) :
    Recorded (connective context args) :=
  .ite (.bind (.throw _) fun _ => .lift _) (.lift _)

theorem cardinality_recorded (r : Relation) (bound : Value K) (args : List (Value K)) :
    Recorded (cardinality r bound args) := by
  cases bound with
  | scalar s => exact .bind (.lift _) fun _ => .bind (.lift _) fun _ => register_recorded _ _
  | _ => exact .throw _

theorem magnitudeOf_recorded (expr bigM : Value K) : Recorded (magnitudeOf expr bigM) :=
  .bind (.lift _) fun e => .bind (.lift _) fun _ => .bind (.lift _) fun bounds =>
    magnitude_recorded e bounds

theorem extremum_recorded (context : String)
    {step : BoundedExpr K → List (BoundedExpr K) → Option K → Build K (Variable K)}
    (hstep : ∀ first rest m, Recorded (step first rest m)) (args bigM : Value K) :
    Recorded (extremum context step args bigM) := by
  refine .bind (.lift _) fun vs => ?_
  split
  · exact .throw _
  · exact .pure _
  · exact .bind (.lift _) fun _ => equalTo_recorded _ _
  · refine .bind (.mapM fun _ => .lift _) fun _ => .bind (.mapM fun _ => .lift _)
      fun operands => .bind (.lift _) fun m => ?_
    cases operands with
    | nil => exact .throw _
    | cons first rest => exact hstep first rest m

theorem productOf_recorded (x y bigM : Value K) : Recorded (productOf x y bigM) := by
  have hgated : ∀ (delta : Variable K) (factor : Value K), Recorded (do
      let e ← factor.toExpr
      let bounds ← e.finiteInterval "product" (← bigM.toNumber?)
      gate delta e bounds : Build K (Variable K)) := fun delta factor =>
    .bind (.lift _) fun e => .bind (.lift _) fun _ => .bind (.lift _) fun bounds =>
      gate_recorded delta e bounds
  rw [productOf]
  rcases x.toBinary "and_" with e | v <;> rcases y.toBinary "and_" with f | w
  · exact .throw _
  · exact hgated w x
  · exact hgated v y
  · exact conjunction_recorded [v, w]

theorem semiContinuous_recorded (lower upper name : Value K) :
    Recorded (semiContinuous lower upper name) := by
  have hrange : Recorded (do
      requireNewName name
      let x ← addVariable (.domain .continuous) (.int 0) upper name
      let delta ← selector "semi_on"
      let l ← lower.toNumber
      let u ← upper.toNumber
      discard <| registerAll (Gate.rangeRows x delta l u)
      return x : Build K (Variable K)) :=
    .bind (requireNewName_recorded name) fun _ => .bind (addVariable_recorded _ _ _ _) fun x =>
      .bind (selector_recorded _) fun _ => .bind (.lift _) fun _ => .bind (.lift _) fun _ =>
      registerAll_then _ (.pure x)
  exact .bind (.lift _) fun _ => .ite
    (.bind (.lift _) fun _ => .bind (.lift _) fun _ => .bind (.throw _) fun _ => hrange) hrange

/-- **All searches of a call are known**, whether it succeeds or not. -/
theorem perform_recorded (c : Model.Call K) : Recorded (perform c) := by
  cases c with
  | addVariable domain lower upper name => exact .map _ (addVariable_recorded _ _ _ _)
  | addVariables count domain lower upper stem =>
    exact .bind (addVariables_recorded _ _ _ _ _) fun _ => .pure _
  | addConstraint constraint name =>
    exact .bind (addConstraint_recorded _ _) lastRow_recorded
  | setObjective expr direction => exact .bind (setObjective_recorded _ _) fun _ => .pure _
  | conjunction args =>
    refine .bind (connective_recorded _ _) fun vs => ?_
    split
    · exact .pure _
    · exact .map _ (conjunction_recorded _)
  | disjunction args =>
    refine .bind (connective_recorded _ _) fun vs => ?_
    split
    · exact .pure _
    · exact .map _ (disjunction_recorded _)
  | negation x => exact .bind (.lift _) fun v => .map _ (negation_recorded v)
  | exclusive x y encoding =>
    exact .bind (.lift _) fun encoding => .bind (.lift _) fun v => .bind (.lift _) fun w =>
      .map _ (exclusive_recorded encoding v w)
  | implication x y =>
    exact .bind (.lift _) fun _ => .bind (.lift _) fun _ => .bind (register_recorded _ _)
      lastRow_recorded
  | cardinality r bound args => exact .bind (cardinality_recorded r bound args) lastRow_recorded
  | indicator delta constraint active bigM =>
    exact .bind (.lift _) fun v => .bind (.lift _) fun on => .bind (.lift _) fun c =>
      .bind (.lift _) fun m => .bind (indicator_recorded v on c m) fun _ =>
      .bind (lastRows_recorded _) fun _ => .pure _
  | eitherOr first second bigM =>
    exact .bind (.lift _) fun c => .bind (.lift _) fun m => .bind (.map _ (.lift _)) fun _ =>
      .bind (.lift _) fun d => .map _ (eitherOr_recorded c d m)
  | magnitude expr bigM => exact .map _ (magnitudeOf_recorded expr bigM)
  | maximum exprs bigM => exact .map _ (extremum_recorded _ maximum_recorded exprs bigM)
  | minimum exprs bigM => exact .map _ (extremum_recorded _ minimum_recorded exprs bigM)
  | product x y bigM => exact .map _ (productOf_recorded x y bigM)
  | semiContinuous lower upper name => exact .map _ (semiContinuous_recorded _ _ _)
  | divide expr divisor =>
    refine .bind (.bind (.lift _) fun d => .bind (.lift _) fun e => ?_) fun _ => .pure _
    exact divide_recorded e d
  | reify constraint bigM margin =>
    refine .map _ (.bind (.lift _) fun c => .bind (.lift _) fun eps => .bind (.lift _) fun m => ?_)
    exact reify_recorded c m eps

end Build

namespace Model

/-- **Searches end, and never find a name again.**  Each search of a model ends after at most one
more try than there are registered names, at a name that is not in use, and leaves its counter behind
the number that it has found.  In a run of any building steps, in which a caller may register any
names, and steps may fail, no search finds under one stem the same name twice.  All searches of a
call are known, so that any calls make such a run. -/
theorem searches_find_new [Arithmetic K] (m : Model K) :
    (∀ s : NameSearch, ∃ tries i, Tries (s.isTaken m) s.label (s.counter m) tries i ∧
      tries ≤ (s.names m).length + 1 ∧
      Build.exec s.run m = (.ok (s.label i), s.moveTo m (i + 1)) ∧
      s.isTaken m (s.label i) = false ∧
      ∀ t : NameSearch, t.counter m ≤ t.counter (s.moveTo m (i + 1))) ∧
    (∀ log n, NameSearch.Run m log n → log.Nodup ∧ ∀ s : NameSearch, s.counter m ≤ s.counter n) ∧
    ∀ c : Call K, ∃ log, Searches (Build.perform c) m log := by
  refine ⟨fun s => ?_, fun log n h => ⟨h.findsNew.nodup, h.findsNew.counter_le⟩,
    fun c => Build.perform_recorded c m⟩
  obtain ⟨tries, i, hsearch, hbound, hx, hfree, hle⟩ := s.tries m
  exact ⟨tries, i, hsearch, hbound, hx, hfree, fun t => s.counter_moveTo t m (by omega)⟩

/-- The second of two searches passes over a name that a caller has registered ahead of the
counter. -/
theorem searches_find_new_ahead :
    let ahead : Variable Float := ⟨⟨0, 0⟩, .text "x1", .continuous, 0, 10⟩
    let m : Model Float := { empty 0 .none with vars := [ahead] }
    let log : List (NameSearch × String) := [(.ordinary, "x0"), (.ordinary, "x2")]
    ∃ n, NameSearch.Run m log n ∧ log.Nodup ∧ NameSearch.ordinary.counter n = 3 := by
  intro ahead m log
  have hfirst : Build.exec NameSearch.ordinary.run m =
      (.ok "x0", { m with variableCounter := 1 }) :=
    NameSearch.exec_run .ordinary m
      (by decide : firstFree ["x1"] NameSearch.ordinary.label 0 = 0)
  have hsecond : Build.exec NameSearch.ordinary.run { m with variableCounter := 1 } =
      (.ok "x2", { m with variableCounter := 3 }) :=
    NameSearch.exec_run .ordinary { m with variableCounter := 1 }
      (by decide : firstFree ["x1"] NameSearch.ordinary.label 1 = 2)
  have hrun : NameSearch.Run m log { m with variableCounter := 3 } := by
    refine .step (.search .ordinary hfirst) ?_
    rw [hfirst]
    refine .step (.search .ordinary hsecond) ?_
    rw [hsecond]
    exact .nil _
  exact ⟨_, hrun, ((searches_find_new m).2.1 _ _ hrun).1, rfl⟩

end Model

end MixedInteger
