import MixedInteger.Proofs.Model.Registry

/-!
# Calls and the registry

The rows of a reformulation are put together from terms and have no names, so a model takes them in
under fresh ones.  This file says so for each reformulation, and concludes that every call makes a
model evolve.

## What is here

* `Constraint.IsBuilt` — a nameless row that is put together from terms.
* `Build.registerAll_moves` — a model evolves with such rows.
* `Build.conjunction_moves` and its kin — the reformulations, one by one.
* `Model.Call.IsHandedOver` — a call with arguments that a caller can have.
* `Build.perform_moves` — every call makes a model evolve, whether it succeeds or not.
* `Build.perform_answers` — what it answers can be handed over to the next call.
-/

set_option autoImplicit false

namespace MixedInteger

variable {K : Type} [Arithmetic K]

open Arithmetic Fallible

/-! ## Rows -/

/-- A nameless row that is put together from terms. -/
structure Constraint.IsBuilt (c : Constraint K) : Prop where
  name_eq : c.name = .none
  isMade : c.expr.IsMade

namespace Constraint

theorem IsBuilt.isSettled {c : Constraint K} (h : c.IsBuilt) : c.name.isSettled = true := by
  rw [h.name_eq]
  rfl

/-- Rows all of which are built. -/
def AreBuilt (cs : List (Constraint K)) : Prop := ∀ c ∈ cs, c.IsBuilt

theorem isBuilt_ofTerms (ts : Terms K) (k : K) (r : Relation) (b : K) :
    IsBuilt ⟨.ofTerms ts k, r, b, .none⟩ :=
  ⟨rfl, .ofTerms ts k⟩

namespace AreBuilt

theorem nil : AreBuilt ([] : List (Constraint K)) := fun _ h => absurd h List.not_mem_nil

theorem cons {c : Constraint K} {cs : List (Constraint K)} (hc : c.IsBuilt) (hcs : AreBuilt cs) :
    AreBuilt (c :: cs) :=
  List.forall_mem_cons.2 ⟨hc, hcs⟩

theorem append {cs ds : List (Constraint K)} (hcs : AreBuilt cs) (hds : AreBuilt ds) :
    AreBuilt (cs ++ ds) :=
  List.forall_mem_append.2 ⟨hcs, hds⟩

theorem map {α : Type} {l : List α} {f : α → Constraint K} (h : ∀ a, (f a).IsBuilt) :
    AreBuilt (l.map f) :=
  List.forall_mem_map.2 fun a _ => h a

theorem conjunctionRows (z : Variable K) (vs : List (Variable K)) :
    AreBuilt (Logic.conjunctionRows z vs) :=
  append (map fun _ => isBuilt_ofTerms _ _ _ _) (cons (isBuilt_ofTerms _ _ _ _) nil)

theorem disjunctionRows (z : Variable K) (vs : List (Variable K)) :
    AreBuilt (Logic.disjunctionRows z vs) :=
  append (map fun _ => isBuilt_ofTerms _ _ _ _) (cons (isBuilt_ofTerms _ _ _ _) nil)

theorem negationRows (z x : Variable K) : AreBuilt (Logic.negationRows z x) :=
  cons (isBuilt_ofTerms _ _ _ _) nil

theorem exclusiveRows (z x y : Variable K) : AreBuilt (Logic.exclusiveRows z x y) :=
  cons (isBuilt_ofTerms _ _ _ _) (cons (isBuilt_ofTerms _ _ _ _)
    (cons (isBuilt_ofTerms _ _ _ _) (cons (isBuilt_ofTerms _ _ _ _) nil)))

theorem compactRows (z x y w : Variable K) : AreBuilt (Logic.compactRows z x y w) :=
  cons (isBuilt_ofTerms _ _ _ _) nil

theorem switchedRows (delta : Variable K) (active : Bool) (c : Constraint K)
    (halves : List (Relation × K)) : AreBuilt (c.switchedRows delta active halves) := by
  refine map fun half => ?_
  obtain ⟨r, k⟩ := half
  cases r <;> cases active <;> exact isBuilt_ofTerms _ _ _ _

theorem magnitudeRows (e : LinearExpr K) (a b : K) (p : MagnitudeParts K) :
    AreBuilt (Extremum.magnitudeRows e a b p) :=
  cons (isBuilt_ofTerms _ _ _ _) (cons (isBuilt_ofTerms _ _ _ _)
    (cons (isBuilt_ofTerms _ _ _ _) (cons (isBuilt_ofTerms _ _ _ _) nil)))

theorem maximumRows (t : Variable K) (e : LinearExpr K) (s : Variable K) (k : K) :
    AreBuilt (Extremum.maximumRows t e s k) :=
  cons (isBuilt_ofTerms _ _ _ _) (cons (isBuilt_ofTerms _ _ _ _) nil)

theorem minimumRows (t : Variable K) (e : LinearExpr K) (s : Variable K) (k : K) :
    AreBuilt (Extremum.minimumRows t e s k) :=
  cons (isBuilt_ofTerms _ _ _ _) (cons (isBuilt_ofTerms _ _ _ _) nil)

theorem productRows (w delta : Variable K) (e : LinearExpr K) (i : Interval K) :
    AreBuilt (Gate.productRows w delta e i) :=
  cons (isBuilt_ofTerms _ _ _ _) (cons (isBuilt_ofTerms _ _ _ _)
    (cons (isBuilt_ofTerms _ _ _ _) (cons (isBuilt_ofTerms _ _ _ _) nil)))

theorem rangeRows (x delta : Variable K) (l u : K) : AreBuilt (Gate.rangeRows x delta l u) :=
  cons (isBuilt_ofTerms _ _ _ _) (cons (isBuilt_ofTerms _ _ _ _) nil)

theorem equalityRows (e : LinearExpr K) (rhs eps big : K) (delta side : Variable K) :
    AreBuilt (Reify.equalityRows e rhs eps big delta side) :=
  cons (isBuilt_ofTerms _ _ _ _) (cons (isBuilt_ofTerms _ _ _ _)
    (cons (isBuilt_ofTerms _ _ _ _) (cons (isBuilt_ofTerms _ _ _ _) nil)))

end AreBuilt

end Constraint

open Constraint (AreBuilt isBuilt_ofTerms)

namespace Build

/-! ## Reformulations -/

theorem register_built_moves {c : Constraint K} (hc : c.IsBuilt) :
    Moves Model.Evolves (register c .none) :=
  register_moves hc.isMade hc.isSettled rfl

/-- **A model evolves with rows that are built.** -/
theorem registerAll_moves {cs : List (Constraint K)} (hcs : AreBuilt cs) :
    Moves Model.Evolves (registerAll cs) :=
  .mapM fun c hc => register_built_moves (hcs c hc)

theorem conjunction_moves (vs : List (Variable K)) : Moves Model.Evolves (conjunction vs) :=
  .bind (selector_moves _) fun z => .bind (.map _ (registerAll_moves (.conjunctionRows z vs)))
    fun _ => .pure z

theorem disjunction_moves (vs : List (Variable K)) : Moves Model.Evolves (disjunction vs) :=
  .bind (selector_moves _) fun z => .bind (.map _ (registerAll_moves (.disjunctionRows z vs)))
    fun _ => .pure z

theorem negation_moves (x : Variable K) : Moves Model.Evolves (negation x) :=
  .bind (selector_moves _) fun z => .bind (.map _ (registerAll_moves (.negationRows z x)))
    fun _ => .pure z

theorem exclusive_moves (encoding : ExclusiveEncoding) (x y : Variable K) :
    Moves Model.Evolves (exclusive encoding x y) := by
  cases encoding with
  | inequalities =>
    exact .bind (selector_moves _) fun z =>
      .bind (.map _ (registerAll_moves (.exclusiveRows z x y))) fun _ => .pure z
  | compact =>
    exact .bind (conjunction_moves [x, y]) fun w => .bind (selector_moves _) fun z =>
      .bind (.map _ (registerAll_moves (.compactRows z x y w))) fun _ => .pure z

theorem implication_moves (x y : Variable K) : Moves Model.Evolves (implication x y) :=
  register_built_moves (isBuilt_ofTerms _ _ _ _)

theorem indicator_moves (delta : Variable K) (active : Bool) (c : Constraint K)
    (bigM : Option K) : Moves Model.Evolves (indicator delta active c bigM) :=
  .bind (.lift _) fun halves => registerAll_moves (.switchedRows delta active c halves)

theorem eitherOr_moves (c d : Constraint K) (bigM : Option K) :
    Moves Model.Evolves (eitherOr c d bigM) :=
  .bind (.lift _) fun first => .bind (.lift _) fun second => .bind (selector_moves _) fun delta =>
    .bind (.map _ (registerAll_moves (.switchedRows delta false c first))) fun _ =>
    .bind (.map _ (registerAll_moves (.switchedRows delta true d second))) fun _ => .pure delta

theorem magnitude_moves (e : LinearExpr K) (bounds : Interval K) :
    Moves Model.Evolves (magnitude e bounds) :=
  .bind (auxiliary_moves _ _ _ _) fun _ => .bind (auxiliary_moves _ _ _ _) fun _ =>
    .bind (selector_moves _) fun _ => .bind (auxiliary_moves _ _ _ _) fun t =>
    .bind (.map _ (registerAll_moves (.magnitudeRows e _ _ _))) fun _ => .pure t

theorem equalTo_moves (stem : String) (operand : BoundedExpr K) :
    Moves Model.Evolves (equalTo stem operand) :=
  .bind (auxiliary_moves _ _ _ _) fun t =>
    .bind (.map _ (register_built_moves (isBuilt_ofTerms _ _ _ _))) fun _ => .pure t

theorem selectOne_moves (selectors : List (Variable K)) :
    Moves Model.Evolves (selectOne selectors) :=
  .map _ (register_built_moves (isBuilt_ofTerms _ _ _ _))

theorem maximum_moves (first : BoundedExpr K) (rest : List (BoundedExpr K)) (bigM : Option K) :
    Moves Model.Evolves (maximum first rest bigM) := by
  refine .bind (auxiliary_moves _ _ _ _) fun t => .bind (.mapM fun _ _ => selector_moves _)
    fun selectors => .bind (selectOne_moves selectors) fun _ =>
    .bind (.forIn (fun p _ _ => ?_) _) fun _ => .pure t
  exact .bind (.map _ (registerAll_moves (.maximumRows t _ _ _))) fun _ => .pure _

theorem minimum_moves (first : BoundedExpr K) (rest : List (BoundedExpr K)) (bigM : Option K) :
    Moves Model.Evolves (minimum first rest bigM) := by
  refine .bind (auxiliary_moves _ _ _ _) fun t => .bind (.mapM fun _ _ => selector_moves _)
    fun selectors => .bind (selectOne_moves selectors) fun _ =>
    .bind (.forIn (fun p _ _ => ?_) _) fun _ => .pure t
  exact .bind (.map _ (registerAll_moves (.minimumRows t _ _ _))) fun _ => .pure _

theorem gate_moves (delta : Variable K) (factor : LinearExpr K) (bounds : Interval K) :
    Moves Model.Evolves (gate delta factor bounds) :=
  .bind (auxiliary_moves _ _ _ _) fun w =>
    .bind (.map _ (registerAll_moves (.productRows w delta factor bounds))) fun _ => .pure w

theorem divide_moves (e : LinearExpr K) (d : Int) : Moves Model.Evolves (divide e d) :=
  .ite (.throw _) <| .bind (auxiliary_moves _ _ _ _) fun _ => .bind (auxiliary_moves _ _ _ _)
    fun _ => .bind (.map _ (register_built_moves (isBuilt_ofTerms _ _ _ _))) fun _ => .pure _

theorem reifyAtMost_moves (e : LinearExpr K) (rhs : K) (bigM : Option K)
    (margin : Option (Scalar K)) : Moves Model.Evolves (reifyAtMost e rhs bigM margin) :=
  .bind (.lift _) fun _ => .bind (selector_moves _) fun delta =>
    .bind (.map _ (register_built_moves (isBuilt_ofTerms _ _ _ _))) fun _ => .bind (.lift _)
    fun _ => .bind (.map _ (register_built_moves (isBuilt_ofTerms _ _ _ _))) fun _ => .pure delta

theorem reifyEquals_moves (e : LinearExpr K) (rhs : K) (bigM : Option K)
    (margin : Option (Scalar K)) : Moves Model.Evolves (reifyEquals e rhs bigM margin) :=
  .bind (.lift _) fun _ => .bind (.lift _) fun eps => .bind (selector_moves _) fun delta =>
    .bind (selector_moves _) fun side =>
    .bind (.map _ (registerAll_moves (.equalityRows e rhs eps _ delta side))) fun _ => .pure delta

theorem reify_moves (c : Constraint K) (bigM : Option K) (margin : Option (Scalar K)) :
    Moves Model.Evolves (reify c bigM margin) := by
  rw [reify]
  cases c.relation with
  | le => exact reifyAtMost_moves _ _ _ _
  | ge => exact reifyAtMost_moves _ _ _ _
  | eq => exact reifyEquals_moves _ _ _ _

/-! ## Calls -/

theorem setObjective_moves {expr : Value K} (direction : Value K) (hexpr : expr.IsMade) :
    Moves Model.Evolves (setObjective expr direction) := by
  intro m
  change m.Evolves (exec (setObjective expr direction) m).2
  rcases setObjective_spec expr direction m with h | ⟨e, d, he, h⟩
  · rw [h]
    exact refl_of Model.Evolves m
  · rw [h]
    exact .of_eq rfl rfl rfl (.inr ⟨e, rfl, Value.isMade_of_toExpr hexpr he⟩)

theorem addConstraint_moves {constraint name : Value K}
    (hc : constraint.IsMade) (hname : name.isSettled = true) :
    Moves Model.Evolves (addConstraint constraint name) := by
  cases constraint with
  | constraint c id => exact register_moves hc.1 hc.2 hname
  | _ => exact .throw _

theorem connective_moves (context : String) (args : List (Value K)) :
    Moves Model.Evolves (connective context args) :=
  .ite (.bind (.throw _) fun _ => .lift _) (.lift _)

theorem cardinality_moves (r : Relation) (bound : Value K) (args : List (Value K)) :
    Moves Model.Evolves (cardinality r bound args) := by
  cases bound with
  | scalar s =>
    exact .bind (.lift _) fun vs => .bind (.lift _) fun _ =>
      register_built_moves (isBuilt_ofTerms _ _ _ _)
  | _ => exact .throw _

theorem magnitudeOf_moves (expr bigM : Value K) : Moves Model.Evolves (magnitudeOf expr bigM) :=
  .bind (.lift _) fun e => .bind (.lift _) fun _ => .bind (.lift _) fun bounds =>
    magnitude_moves e bounds

theorem extremum_moves (context : String)
    {step : BoundedExpr K → List (BoundedExpr K) → Option K → Build K (Variable K)}
    (hstep : ∀ first rest m, Moves Model.Evolves (step first rest m)) (args bigM : Value K) :
    Moves Model.Evolves (extremum context step args bigM) := by
  refine .bind (.lift _) fun vs => ?_
  split
  · exact .throw _
  · exact .pure _
  · exact .bind (.lift _) fun e => equalTo_moves _ _
  · refine .bind (.mapM fun _ _ => .lift _) fun exprs => .bind (.mapM fun _ _ => .lift _)
      fun operands => .bind (.lift _) fun m => ?_
    cases operands with
    | nil => exact .throw _
    | cons first rest => exact hstep first rest m

theorem productOf_moves (x y bigM : Value K) : Moves Model.Evolves (productOf x y bigM) := by
  have hgated : ∀ (delta : Variable K) (factor : Value K), Moves Model.Evolves (do
      let e ← factor.toExpr
      let bounds ← e.finiteInterval "product" (← bigM.toNumber?)
      gate delta e bounds : Build K (Variable K)) := fun delta factor =>
    .bind (.lift _) fun e => .bind (.lift _) fun _ => .bind (.lift _) fun bounds =>
      gate_moves delta e bounds
  rw [productOf]
  rcases x.toBinary "and_" with e | v <;> rcases y.toBinary "and_" with f | w
  · exact .throw _
  · exact hgated w x
  · exact hgated v y
  · exact conjunction_moves [v, w]

theorem semiContinuous_moves (lower upper : Value K) {name : Value K}
    (hname : name.isSettled = true) : Moves Model.Evolves (semiContinuous lower upper name) := by
  have hrange : Moves Model.Evolves (do
      requireNewName name
      let x ← addVariable (.domain .continuous) (.int 0) upper name
      let delta ← selector "semi_on"
      let l ← lower.toNumber
      let u ← upper.toNumber
      discard <| registerAll (Gate.rangeRows x delta l u)
      return x : Build K (Variable K)) :=
    .bind (requireNewName_moves name) fun _ => .bind (addVariable_moves _ _ _ hname) fun x =>
      .bind (selector_moves _) fun delta => .bind (.lift _) fun l => .bind (.lift _) fun u =>
      .bind (.map _ (registerAll_moves (.rangeRows x delta l u))) fun _ => .pure x
  exact .bind (.lift _) fun _ => .ite
    (.bind (.lift _) fun _ => .bind (.lift _) fun _ => .bind (.throw _) fun _ => hrange) hrange

theorem divideOf_moves (expr divisor : Value K) : Moves Model.Evolves (divideOf expr divisor) :=
  .bind (.lift _) fun d => .bind (.lift _) fun e => divide_moves e d

theorem reifyOf_moves (constraint bigM margin : Value K) :
    Moves Model.Evolves (reifyOf constraint bigM margin) :=
  .bind (.lift _) fun c => .bind (.lift _) fun eps => .bind (.lift _) fun m => reify_moves c m eps

end Build

/-- A call with arguments that a caller can have: what needs a number to be known again has one, and
expressions have been put together from terms or read from tables. -/
def Model.Call.IsHandedOver (c : Call K) : Prop :=
  ∀ v ∈ c.arguments, v.isSettled = true ∧ v.IsMade

/-- **Every call makes a model evolve**, whether it succeeds or not. -/
theorem Build.perform_moves {c : Model.Call K} (hc : c.IsHandedOver) :
    Moves Model.Evolves (perform c) := by
  cases c with
  | addVariable domain lower upper name =>
    exact .map _ (addVariable_moves _ _ _ (hc name (by simp [Model.Call.arguments])).1)
  | addVariables count domain lower upper stem =>
    exact .bind (addVariables_moves _ _ _ _ _) fun _ => .pure _
  | addConstraint constraint name =>
    refine .bind (addConstraint_moves ?_ ?_) lastRow_moves
    · exact (hc constraint (by simp [Model.Call.arguments])).2
    · exact (hc name (by simp [Model.Call.arguments])).1
  | setObjective expr direction =>
    refine .bind (setObjective_moves direction ?_) fun _ => .pure _
    exact (hc expr (by simp [Model.Call.arguments])).2
  | conjunction args =>
    refine .bind (connective_moves _ _) fun vs => ?_
    split
    · exact .pure _
    · exact .map _ (conjunction_moves _)
  | disjunction args =>
    refine .bind (connective_moves _ _) fun vs => ?_
    split
    · exact .pure _
    · exact .map _ (disjunction_moves _)
  | negation x => exact .bind (.lift _) fun v => .map _ (negation_moves v)
  | exclusive x y encoding =>
    exact .bind (.lift _) fun encoding => .bind (.lift _) fun v => .bind (.lift _) fun w =>
      .map _ (exclusive_moves encoding v w)
  | implication x y =>
    exact .bind (.lift _) fun v => .bind (.lift _) fun w => .bind (implication_moves v w)
      lastRow_moves
  | cardinality r bound args => exact .bind (cardinality_moves r bound args) lastRow_moves
  | indicator delta constraint active bigM =>
    exact .bind (.lift _) fun v => .bind (.lift _) fun on => .bind (.lift _) fun c =>
      .bind (.lift _) fun m => .bind (indicator_moves v on c m) fun rows =>
      .bind (lastRows_moves _) fun _ => .pure _
  | eitherOr first second bigM =>
    exact .bind (.lift _) fun c => .bind (.lift _) fun m => .bind (.map _ (.lift _)) fun _ =>
      .bind (.lift _) fun d => .map _ (eitherOr_moves c d m)
  | magnitude expr bigM => exact .map _ (magnitudeOf_moves expr bigM)
  | maximum exprs bigM => exact .map _ (extremum_moves _ maximum_moves exprs bigM)
  | minimum exprs bigM => exact .map _ (extremum_moves _ minimum_moves exprs bigM)
  | product x y bigM => exact .map _ (productOf_moves x y bigM)
  | semiContinuous lower upper name =>
    exact .map _ (semiContinuous_moves _ _ (hc name (by simp [Model.Call.arguments])).1)
  | divide expr divisor => exact .bind (divideOf_moves expr divisor) fun _ => .pure _
  | reify constraint bigM margin => exact .map _ (reifyOf_moves constraint bigM margin)

/-- **What a call answers is a value that a caller can have.** -/
theorem Build.perform_answers {c : Model.Call K} (hc : c.IsHandedOver) :
    Answers Value.IsMade (perform c) := by
  have hbuilt : ∀ {c : Constraint K}, c.IsBuilt → Answers
      (fun d : Constraint K => d.expr.IsMade ∧ d.name.isSettled = true) (register c .none) :=
    fun h => register_answers h.isMade h.isSettled rfl
  cases c with
  | addConstraint constraint name =>
    refine .bind_of ?_ fun _ => lastRow_answers
    obtain ⟨-, hmade⟩ := hc constraint (by simp [Model.Call.arguments])
    obtain ⟨hname, -⟩ := hc name (by simp [Model.Call.arguments])
    cases constraint with
    | constraint c id => exact register_answers hmade.1 hmade.2 hname
    | _ => exact .throw _
  | implication x y =>
    exact .bind fun v => .bind fun w => .bind_of (hbuilt (isBuilt_ofTerms _ _ _ _)) fun _ =>
      lastRow_answers
  | cardinality r bound args =>
    refine .bind_of ?_ fun _ => lastRow_answers
    cases bound with
    | scalar s => exact .bind fun vs => .bind fun _ => hbuilt (isBuilt_ofTerms _ _ _ _)
    | _ => exact .throw _
  | conjunction args | disjunction args =>
    refine .bind fun vs => ?_
    split
    · exact .pure trivial
    · exact .map (fun _ => trivial) _
  | addVariables count domain lower upper stem => exact .bind fun _ => .pure trivial
  | setObjective expr direction => exact .bind fun _ => .pure trivial
  | divide expr divisor => exact .bind fun _ => .pure trivial
  | indicator delta constraint active bigM =>
    exact .bind fun v => .bind fun on => .bind fun c => .bind fun m => .bind fun rows =>
      .bind fun _ => .pure trivial
  | negation x => exact .bind fun v => .map (fun _ => trivial) _
  | exclusive x y encoding =>
    exact .bind fun encoding => .bind fun v => .bind fun w => .map (fun _ => trivial) _
  | eitherOr first second bigM =>
    exact .bind fun c => .bind fun m => .bind fun _ => .bind fun d => .map (fun _ => trivial) _
  | _ => exact .map (fun _ => trivial) _

end MixedInteger
