import MixedInteger.Proofs.Model.Creation
import MixedInteger.Model.Call

/-!
# What a reformulation adds to a model

Each reformulation creates a few variables and takes in a few rows.  This file says which, for each
of the building steps.  A step that can fail does so at its first variable, before it has changed
anything; the one that does not is the truth of an inequality, whose margin is read late.

## What is here

* `Build.conjunction_spec`, `Build.disjunction_spec`, `Build.negation_spec`, `Build.exclusive_spec`,
  `Build.implication_spec` — logic.
* `Build.indicator_spec`, `Build.eitherOr_spec` — switched constraints.
* `Build.magnitude_spec`, `Build.equalTo_spec`, `Build.maximum_spec`, `Build.minimum_spec` — piecewise
  linear functions.
* `Build.gate_spec`, `Build.divide_spec` — products and divisions.
* `Build.reifyAtMost_spec`, `Build.reifyEquals_spec` — the truth of a constraint.
-/

set_option autoImplicit false

namespace MixedInteger

variable {K : Type} [Arithmetic K]

namespace Build

open Arithmetic

/-- Takes in nameless rows after some variables have been created. -/
theorem discard_registerAll_spec {cs : List (Constraint K)} (hcs : ∀ c ∈ cs, c.name = .none)
    {m n : Model K} {vs : List (Variable K)} {ds : List (Constraint K)} (hg : m.Grown vs ds n) :
    Succeeds (discard (registerAll cs)) n fun _ m' => m.Grown vs (ds ++ cs) m' := by
  refine .discard ((registerAll_spec hcs n).mono fun _ m' h => ?_)
  have := hg.trans h
  rwa [List.append_nil] at this

theorem discard_register_spec {c : Constraint K} (hc : c.name = .none) {m n : Model K}
    {vs : List (Variable K)} {ds : List (Constraint K)} (hg : m.Grown vs ds n) :
    Succeeds (discard (register c .none)) n fun _ m' => m.Grown vs (ds ++ [c]) m' := by
  refine .discard ((register_spec hc n).mono fun _ m' h => ?_)
  have := hg.trans h
  rwa [List.append_nil] at this

/-! ## Logic -/

theorem nameless_conjunctionRows (z : Variable K) (vs : List (Variable K)) :
    ∀ c ∈ Logic.conjunctionRows z vs, c.name = .none := by
  intro c hc
  simp only [Logic.conjunctionRows, List.mem_append, List.mem_map, List.mem_singleton] at hc
  rcases hc with ⟨v, -, rfl⟩ | rfl <;> rfl

theorem nameless_disjunctionRows (z : Variable K) (vs : List (Variable K)) :
    ∀ c ∈ Logic.disjunctionRows z vs, c.name = .none := by
  intro c hc
  simp only [Logic.disjunctionRows, List.mem_append, List.mem_map, List.mem_singleton] at hc
  rcases hc with ⟨v, -, rfl⟩ | rfl <;> rfl

theorem implication_spec (x y : Variable K) (m : Model K) :
    Succeeds (implication x y) m fun _ m' => m.Grown [] [Logic.implicationRow x y] m' :=
  register_spec rfl m

variable [Sensible K]

theorem conjunction_spec (vs : List (Variable K)) (m : Model K) :
    Succeeds (conjunction vs) m fun z m' =>
      z.IsOf .binary ⟨zero, one⟩ ∧ m.Grown [z] (Logic.conjunctionRows z vs) m' := by
  refine .bind (selector_spec "and" m) ?_
  rintro z n ⟨-, hz, hg⟩
  refine .bind (discard_registerAll_spec (nameless_conjunctionRows z vs) hg) fun _ m' hg' => ?_
  exact .pure ⟨hz, hg'⟩

theorem disjunction_spec (vs : List (Variable K)) (m : Model K) :
    Succeeds (disjunction vs) m fun z m' =>
      z.IsOf .binary ⟨zero, one⟩ ∧ m.Grown [z] (Logic.disjunctionRows z vs) m' := by
  refine .bind (selector_spec "or" m) ?_
  rintro z n ⟨-, hz, hg⟩
  refine .bind (discard_registerAll_spec (nameless_disjunctionRows z vs) hg) fun _ m' hg' => ?_
  exact .pure ⟨hz, hg'⟩

theorem negation_spec (x : Variable K) (m : Model K) :
    Succeeds (negation x) m fun z m' =>
      z.IsOf .binary ⟨zero, one⟩ ∧ m.Grown [z] (Logic.negationRows z x) m' := by
  refine .bind (selector_spec "not" m) ?_
  rintro z n ⟨-, hz, hg⟩
  refine .bind (discard_registerAll_spec ?_ hg) fun _ m' hg' => .pure ⟨hz, hg'⟩
  simp [Logic.negationRows, exactly]

/-- The variables and rows of an exclusive or, which in its compact encoding has a conjunction of
its own. -/
def ExclusiveParts (m : Model K) (x y : Variable K) :
    ExclusiveEncoding → Variable K → Model K → Prop
  | .inequalities, z, m' => m.Grown [z] (Logic.exclusiveRows z x y) m'
  | .compact, z, m' => ∃ w : Variable K, w.IsOf .binary ⟨zero, one⟩ ∧
      m.Grown [w, z] (Logic.conjunctionRows w [x, y] ++ Logic.compactRows z x y w) m'

theorem exclusive_spec (encoding : ExclusiveEncoding) (x y : Variable K) (m : Model K) :
    Succeeds (exclusive encoding x y) m fun z m' =>
      z.IsOf .binary ⟨zero, one⟩ ∧ ExclusiveParts m x y encoding z m' := by
  cases encoding with
  | inequalities =>
    refine .bind (selector_spec "xor" m) ?_
    rintro z n ⟨-, hz, hg⟩
    refine .bind (discard_registerAll_spec ?_ hg) fun _ m' hg' => .pure ⟨hz, hg'⟩
    simp [Logic.exclusiveRows, atMost, atLeast]
  | compact =>
    refine .bind (conjunction_spec [x, y] m) ?_
    rintro w n ⟨hw, hg⟩
    refine .bind (selector_spec "xor" n) ?_
    rintro z k ⟨-, hz, hg'⟩
    refine .bind (discard_registerAll_spec ?_ (hg.trans hg')) fun _ m' hg'' => ?_
    · simp [Logic.compactRows, exactly]
    · rw [List.append_nil] at hg''
      exact .pure ⟨hz, w, hw, hg''⟩

/-! ## Switched constraints -/

omit [Sensible K] in
theorem nameless_switchedRows (delta : Variable K) (active : Bool) (c : Constraint K)
    (halves : List (Relation × K)) : ∀ d ∈ c.switchedRows delta active halves, d.name = .none := by
  intro d hd
  obtain ⟨⟨r, m⟩, -, rfl⟩ := List.mem_map.1 hd
  cases r <;> cases active <;> rfl

omit [Sensible K] in
/-- With constants for the constraint, its switched rows are added. -/
theorem indicator_succeeds (delta : Variable K) (active : Bool) {c : Constraint K} {bigM : Option K}
    {halves : List (Relation × K)} (hh : c.halves "add_indicator" bigM = .ok halves) (m : Model K) :
    Succeeds (indicator delta active c bigM) m fun _ m' =>
      m.Grown [] (c.switchedRows delta active halves) m' := by
  rw [indicator, hh]
  exact .lift_bind (registerAll_spec (nameless_switchedRows delta active c halves) m)

omit [Sensible K] in
theorem indicator_spec (delta : Variable K) (active : Bool) (c : Constraint K) (bigM : Option K)
    (m : Model K) :
    AllOrNothing (indicator delta active c bigM) m fun _ m' =>
      ∃ halves, c.halves "add_indicator" bigM = .ok halves ∧
        m.Grown [] (c.switchedRows delta active halves) m' := by
  rcases hh : c.halves "add_indicator" bigM with f | halves
  · exact .inr ⟨f, m, exec_bind_of_error (by rw [hh]; rfl) _, .refl m⟩
  · refine ((indicator_succeeds delta active hh m).mono ?_).allOrNothing
    exact fun _ _ hg => ⟨halves, rfl, hg⟩

/-- With constants for both constraints, the choice between them is added. -/
theorem eitherOr_succeeds {c d : Constraint K} {bigM : Option K} {first second : List (Relation × K)}
    (hfirst : c.halves "add_either_or" bigM = .ok first)
    (hsecond : d.halves "add_either_or" bigM = .ok second) (m : Model K) :
    Succeeds (eitherOr c d bigM) m fun delta m' => delta.IsOf .binary ⟨zero, one⟩ ∧
      m.Grown [delta] (c.switchedRows delta false first ++ d.switchedRows delta true second) m' := by
  rw [eitherOr, hfirst, hsecond]
  refine .lift_bind (.lift_bind (.bind (selector_spec "either" m) ?_))
  rintro delta n ⟨-, hd, hg⟩
  refine .bind (discard_registerAll_spec (nameless_switchedRows delta false c first) hg) ?_
  intro _ k hg
  refine .bind (discard_registerAll_spec (nameless_switchedRows delta true d second) hg) ?_
  intro _ m' hg
  exact .pure ⟨hd, hg⟩

theorem eitherOr_spec (c d : Constraint K) (bigM : Option K) (m : Model K) :
    AllOrNothing (eitherOr c d bigM) m fun delta m' =>
      delta.IsOf .binary ⟨zero, one⟩ ∧
        ∃ first second, c.halves "add_either_or" bigM = .ok first ∧
          d.halves "add_either_or" bigM = .ok second ∧
          m.Grown [delta]
            (c.switchedRows delta false first ++ d.switchedRows delta true second) m' := by
  rcases hfirst : c.halves "add_either_or" bigM with f | first
  · exact .inr ⟨f, m, exec_bind_of_error (by rw [hfirst]; rfl) _, .refl m⟩
  rcases hsecond : d.halves "add_either_or" bigM with f | second
  · refine .inr ⟨f, m, ?_, .refl m⟩
    rw [eitherOr, hfirst, hsecond, exec_bind_of_ok (exec_liftM _ m)]
    exact exec_bind_of_error (exec_liftM _ m) _
  · refine ((eitherOr_succeeds hfirst hsecond m).mono ?_).allOrNothing
    exact fun _ _ h => ⟨h.1, first, second, rfl, rfl, h.2⟩

/-! ## Piecewise linear functions -/

/-- The larger of a number and zero bounds a variable from above, if it is a number. -/
theorem isProper_zero_larger {x : K} (h : isNaN x = false) :
    (⟨zero, larger x zero⟩ : Interval K).isProper = true := by
  cases hx : lt x zero with
  | true => simp [Interval.isProper, larger, hx, Sensible.isNaN_zero, Sensible.lt_zero_zero]
  | false => simp [Interval.isProper, larger, hx, h, Sensible.isNaN_zero]

theorem isNaN_of_isProper {x : K} (h : (⟨zero, larger x zero⟩ : Interval K).isProper = true) :
    isNaN x = false := by
  cases hx : isNaN x with
  | false => rfl
  | true => simp [Interval.isProper, larger, Sensible.lt_of_isNaN zero hx, hx] at h

omit [Sensible K] in
/-- The larger of two upper bounds goes with the same lower bound. -/
theorem isProper_larger {x y z : K} (hx : (⟨z, x⟩ : Interval K).isProper = true)
    (hy : (⟨z, y⟩ : Interval K).isProper = true) :
    (⟨z, larger x y⟩ : Interval K).isProper = true := by
  rw [larger]
  split
  · exact hy
  · exact hx

/-- The variables that carry a magnitude, with their bounds. -/
structure MagnitudeBounds (positiveMax negativeMax : K) (p : MagnitudeParts K) : Prop where
  positive : p.positive.IsOf .continuous ⟨zero, positiveMax⟩
  negative : p.negative.IsOf .continuous ⟨zero, negativeMax⟩
  sign : p.sign.IsOf .binary ⟨zero, one⟩
  result : p.result.IsOf .continuous ⟨zero, larger positiveMax negativeMax⟩

/-- Once the positive part has been created, the rest of a magnitude is added. -/
theorem magnitude_rest (e : LinearExpr K) {positiveMax negativeMax : K} {m n : Model K}
    {positive : Variable K}
    (hp : IsCreated m .continuous ⟨zero, positiveMax⟩ positive n)
    (hn : (⟨zero, negativeMax⟩ : Interval K).isProper = true) :
    Succeeds (do
      let negative ← auxiliary "abs_neg" .continuous zero negativeMax
      let sign ← selector "abs_sign"
      let result ← auxiliary "abs" .continuous zero (larger positiveMax negativeMax)
      discard <| registerAll
        (Extremum.magnitudeRows e positiveMax negativeMax ⟨positive, negative, sign, result⟩)
      return result) n fun t m' => ∃ p : MagnitudeParts K, p.result = t ∧
        MagnitudeBounds positiveMax negativeMax p ∧
        m.Grown [p.positive, p.negative, p.sign, p.result]
          (Extremum.magnitudeRows e positiveMax negativeMax p) m' := by
  obtain ⟨hp, hpos, hg₁⟩ := hp
  refine .bind (auxiliary_succeeds "abs_neg" (d := .continuous) n hn) ?_
  rintro negative n₂ ⟨-, hneg, hg₂⟩
  refine .bind (selector_spec "abs_sign" n₂) ?_
  rintro sign n₃ ⟨-, hsign, hg₃⟩
  refine .bind (auxiliary_succeeds "abs" (d := .continuous) n₃ (isProper_larger hp hn)) ?_
  rintro t n₄ ⟨-, ht, hg₄⟩
  have hg := ((hg₁.trans hg₂).trans hg₃).trans hg₄
  refine .bind (discard_registerAll_spec ?_ hg) fun _ m' hg' => ?_
  · simp [Extremum.magnitudeRows, exactly, atMost]
  · exact .pure ⟨⟨positive, negative, sign, t⟩, rfl, ⟨hpos, hneg, hsign, ht⟩, hg'⟩

theorem magnitude_spec (e : LinearExpr K) {bounds : Interval K}
    (hb : isNaN bounds.upper = false → isNaN (-bounds.lower) = false) (m : Model K) :
    AllOrNothing (magnitude e bounds) m fun t m' => ∃ p : MagnitudeParts K, p.result = t ∧
      MagnitudeBounds (larger bounds.upper zero) (larger (-bounds.lower) zero) p ∧
      m.Grown [p.positive, p.negative, p.sign, p.result]
        (Extremum.magnitudeRows e (larger bounds.upper zero) (larger (-bounds.lower) zero) p)
        m' :=
  .bind_succeeds (auxiliary_spec "abs_pos" .continuous zero _ m) fun _ _ hp =>
    magnitude_rest e hp (isProper_zero_larger (hb (isNaN_of_isProper hp.1)))

/-- With bounds that are numbers, a magnitude is added. -/
theorem magnitude_succeeds (e : LinearExpr K) {bounds : Interval K}
    (hu : isNaN bounds.upper = false) (hl : isNaN (-bounds.lower) = false) (m : Model K) :
    Succeeds (magnitude e bounds) m fun t m' => ∃ p : MagnitudeParts K, p.result = t ∧
      MagnitudeBounds (larger bounds.upper zero) (larger (-bounds.lower) zero) p ∧
      m.Grown [p.positive, p.negative, p.sign, p.result]
        (Extremum.magnitudeRows e (larger bounds.upper zero) (larger (-bounds.lower) zero) p)
        m' :=
  .bind (auxiliary_succeeds "abs_pos" (d := .continuous) m (isProper_zero_larger hu)) fun _ _ hp =>
    magnitude_rest e hp (isProper_zero_larger hl)

omit [Sensible K] in
theorem equalTo_spec (stem : String) (o : BoundedExpr K) (m : Model K) :
    AllOrNothing (equalTo stem o) m fun t m' => t.IsOf .continuous o.bounds ∧
      m.Grown [t] [exactly ((LinearExpr.ofVariable t).minus o.expr) zero] m' := by
  refine .bind_succeeds (auxiliary_spec stem .continuous _ _ m) ?_
  rintro t n ⟨-, ht, hg⟩
  refine .bind (discard_register_spec rfl hg) fun _ m' hg' => ?_
  exact .pure ⟨ht, hg'⟩

/-- One selector for each operand. -/
theorem selectors_spec {α : Type} (stem : String) (l : List α) (m : Model K) :
    Succeeds (l.mapM fun _ => selector stem) m fun ss m' =>
      ss.length = l.length ∧ (∀ s ∈ ss, s.IsOf .binary ⟨zero, one⟩) ∧ m.Grown ss [] m' := by
  induction l generalizing m with
  | nil => exact .pure ⟨rfl, fun s hs => absurd hs List.not_mem_nil, .refl m⟩
  | cons x l ih =>
    rw [List.mapM_cons]
    refine .bind (selector_spec stem m) ?_
    rintro s n ⟨-, hs, hg⟩
    refine .bind (ih n) ?_
    rintro ss m' ⟨hl, hss, hg'⟩
    refine .pure ⟨congrArg (· + 1) hl, ?_, hg.trans hg'⟩
    intro t ht
    rcases List.mem_cons.1 ht with rfl | ht
    · exact hs
    · exact hss t ht

omit [Sensible K] in
/-- Nameless rows for each element of a list are always taken in. -/
theorem forIn_spec {α : Type} {l : List α} {f : α → PUnit → Build K (ForInStep PUnit)}
    (rows : α → List (Constraint K))
    (hf : ∀ x ∈ l, ∀ n, Succeeds (f x ⟨⟩) n fun r n' => r = .yield ⟨⟩ ∧ n.Grown [] (rows x) n')
    (m : Model K) : Succeeds (forIn l PUnit.unit f) m fun _ m' => m.Grown [] (l.flatMap rows) m' := by
  induction l generalizing m with
  | nil => exact .pure (.refl m)
  | cons x l ih =>
    rw [List.forIn_cons]
    refine .bind (hf x List.mem_cons_self m) ?_
    rintro r n ⟨rfl, hg⟩
    refine (ih (fun y hy => hf y (List.mem_cons_of_mem _ hy)) n).mono fun _ m' hg' => ?_
    exact hg.trans hg'

/-- The variables and rows of a maximum or minimum: one selector for each operand, of which exactly
one is one, and the rows of each operand with its selector and its constant. -/
def PiecewiseParts (m : Model K) (i : Interval K) (operands : List (BoundedExpr K))
    (constants : List K)
    (rows : Variable K → LinearExpr K → Variable K → K → List (Constraint K)) (t : Variable K)
    (m' : Model K) : Prop :=
  t.IsOf .continuous i ∧ ∃ selectors : List (Variable K), selectors.length = operands.length ∧
    (∀ s ∈ selectors, s.IsOf .binary ⟨zero, one⟩) ∧
    m.Grown (t :: selectors) (exactly (LinearExpr.total selectors) one ::
      (operands.zip (selectors.zip constants)).flatMap fun p => rows t p.1.expr p.2.1 p.2.2) m'

section Piecewise

variable {stem selectorStem : String} {i : Interval K} {operands : List (BoundedExpr K)}
  {constants : List K} {rows : Variable K → LinearExpr K → Variable K → K → List (Constraint K)}
  (hrows : ∀ t e s k, ∀ c ∈ rows t e s k, c.name = .none)
include hrows

/-- Once the result has been created, all its selectors and rows are added. -/
theorem piecewise_rest {m n : Model K} {t : Variable K} (ht : IsCreated m .continuous i t n) :
    Succeeds (do
      let selectors ← operands.mapM fun _ => selector selectorStem
      selectOne selectors
      for (o, s, k) in operands.zip (selectors.zip constants) do
        discard <| registerAll (rows t o.expr s k)
      return t) n (PiecewiseParts m i operands constants rows) := by
  obtain ⟨-, ht, hg₁⟩ := ht
  refine .bind (selectors_spec selectorStem operands n) ?_
  rintro ss n₂ ⟨hl, hss, hg₂⟩
  refine .bind (discard_register_spec rfl (hg₁.trans hg₂)) ?_
  intro _ n₃ hg₃
  have hloop := forIn_spec (l := operands.zip (ss.zip constants))
    (f := fun p _ => do
      discard <| registerAll (rows t p.1.expr p.2.1 p.2.2)
      pure (ForInStep.yield PUnit.unit))
    (fun p => rows t p.1.expr p.2.1 p.2.2) ?_ n₃
  · refine .bind hloop fun _ m' hg₄ => .pure ⟨ht, ss, hl, hss, ?_⟩
    have hg := hg₃.trans hg₄
    rw [List.append_nil] at hg
    exact hg
  · intro p _ n
    refine .bind (discard_registerAll_spec (hrows t _ _ _) (.refl n)) fun _ n' hg => ?_
    exact .pure ⟨rfl, hg⟩

theorem piecewise_spec (m : Model K) :
    AllOrNothing (do
      let t ← auxiliary stem .continuous i.lower i.upper
      let selectors ← operands.mapM fun _ => selector selectorStem
      selectOne selectors
      for (o, s, k) in operands.zip (selectors.zip constants) do
        discard <| registerAll (rows t o.expr s k)
      return t) m (PiecewiseParts m i operands constants rows) :=
  .bind_succeeds (auxiliary_spec stem .continuous _ _ m) fun _ _ ht => piecewise_rest hrows ht

/-- With proper bounds for the result, a maximum or minimum is added. -/
theorem piecewise_succeeds (hi : i.isProper = true) (m : Model K) :
    Succeeds (do
      let t ← auxiliary stem .continuous i.lower i.upper
      let selectors ← operands.mapM fun _ => selector selectorStem
      selectOne selectors
      for (o, s, k) in operands.zip (selectors.zip constants) do
        discard <| registerAll (rows t o.expr s k)
      return t) m (PiecewiseParts m i operands constants rows) :=
  .bind (auxiliary_succeeds stem (d := .continuous) m hi) fun _ _ ht => piecewise_rest hrows ht

end Piecewise

omit [Sensible K] in
theorem nameless_maximumRows (t : Variable K) (e : LinearExpr K) (s : Variable K) (k : K) :
    ∀ c ∈ Extremum.maximumRows t e s k, c.name = .none := by
  simp [Extremum.maximumRows, atMost, atLeast]

omit [Sensible K] in
theorem nameless_minimumRows (t : Variable K) (e : LinearExpr K) (s : Variable K) (k : K) :
    ∀ c ∈ Extremum.minimumRows t e s k, c.name = .none := by
  simp [Extremum.minimumRows, atMost, atLeast]

theorem maximum_spec (first : BoundedExpr K) (rest : List (BoundedExpr K)) (bigM : Option K)
    (m : Model K) : AllOrNothing (maximum first rest bigM) m
      (PiecewiseParts m (Extremum.hull first.bounds (rest.map BoundedExpr.bounds)) (first :: rest)
        ((first :: rest).map fun o => bigM.getD
          ((Extremum.hull first.bounds (rest.map BoundedExpr.bounds)).upper - o.bounds.lower))
        Extremum.maximumRows) :=
  piecewise_spec nameless_maximumRows m

theorem minimum_spec (first : BoundedExpr K) (rest : List (BoundedExpr K)) (bigM : Option K)
    (m : Model K) : AllOrNothing (minimum first rest bigM) m
      (PiecewiseParts m (Extremum.hull first.bounds (rest.map BoundedExpr.bounds)) (first :: rest)
        ((first :: rest).map fun o => bigM.getD
          (o.bounds.upper - (Extremum.hull first.bounds (rest.map BoundedExpr.bounds)).lower))
        Extremum.minimumRows) :=
  piecewise_spec nameless_minimumRows m

/-! ## Products and divisions -/

omit [Sensible K] in
/-- Once the product has been created, its rows are added. -/
theorem gate_rest {delta : Variable K} {factor : LinearExpr K} {bounds : Interval K}
    {m n : Model K} {w : Variable K}
    (hw : IsCreated m .continuous ⟨smaller bounds.lower zero, larger bounds.upper zero⟩ w n) :
    Succeeds (do
      discard <| registerAll (Gate.productRows w delta factor bounds)
      return w) n fun w m' =>
        w.IsOf .continuous ⟨smaller bounds.lower zero, larger bounds.upper zero⟩ ∧
          m.Grown [w] (Gate.productRows w delta factor bounds) m' := by
  obtain ⟨-, hw, hg⟩ := hw
  refine .bind (discard_registerAll_spec ?_ hg) fun _ m' hg' => .pure ⟨hw, hg'⟩
  simp [Gate.productRows, atMost, atLeast]

omit [Sensible K] in
theorem gate_spec (delta : Variable K) (factor : LinearExpr K) (bounds : Interval K) (m : Model K) :
    AllOrNothing (gate delta factor bounds) m fun w m' =>
      w.IsOf .continuous ⟨smaller bounds.lower zero, larger bounds.upper zero⟩ ∧
        m.Grown [w] (Gate.productRows w delta factor bounds) m' :=
  .bind_succeeds (auxiliary_spec "prod" .continuous _ _ m) fun _ _ hw => gate_rest hw

omit [Sensible K] in
/-- With proper bounds for the product, it is added. -/
theorem gate_succeeds (delta : Variable K) (factor : LinearExpr K) {bounds : Interval K}
    (hp : (⟨smaller bounds.lower zero, larger bounds.upper zero⟩ : Interval K).isProper = true)
    (m : Model K) :
    Succeeds (gate delta factor bounds) m fun w m' =>
      w.IsOf .continuous ⟨smaller bounds.lower zero, larger bounds.upper zero⟩ ∧
        m.Grown [w] (Gate.productRows w delta factor bounds) m' :=
  .bind (auxiliary_succeeds "prod" (d := .continuous) m hp) fun _ _ hw => gate_rest hw

/-- The quotient and the remainder of a division with their bounds. -/
structure DivisionBounds (e : LinearExpr K) (d : Int) (r : Division K) : Prop where
  quotient : r.quotient.IsOf .integer ⟨zero, floor (e.interval.upper / ofInt d)⟩
  remainder : r.remainder.IsOf .integer ⟨zero, ofInt (d - 1)⟩

theorem isProper_ofInt {n : Int} (h : 0 ≤ n) :
    (⟨zero, ofInt n⟩ : Interval K).isProper = true := by
  simp [Interval.isProper, Sensible.isNaN_zero, Sensible.isNaN_ofInt h, Sensible.not_lt_ofInt h]

/-- Once the quotient has been created, the rest of a division is added. -/
theorem divide_rest (e : LinearExpr K) {d : Int} (hd : 0 < d) {m n : Model K} {q : Variable K}
    (hq : IsCreated m .integer ⟨zero, floor (e.interval.upper / ofInt d)⟩ q n) :
    Succeeds (do
      let remainder ← auxiliary "mod" .integer zero (ofInt (d - 1))
      let r : Division K := ⟨q, remainder⟩
      discard <| register (r.row e d) .none
      return r) n fun r m' => DivisionBounds e d r ∧
        m.Grown [r.quotient, r.remainder] [r.row e d] m' := by
  obtain ⟨-, hq, hg⟩ := hq
  refine .bind (auxiliary_succeeds "mod" (d := .integer) n (isProper_ofInt (by omega))) ?_
  rintro r k ⟨-, hr, hg'⟩
  refine .bind (discard_register_spec rfl (hg.trans hg')) fun _ m' hg'' => ?_
  exact .pure ⟨⟨hq, hr⟩, hg''⟩

theorem divide_spec (e : LinearExpr K) {d : Int} (hd : 0 < d) (m : Model K) :
    AllOrNothing (divide e d) m fun r m' => lt e.interval.lower zero = false ∧
      isFinite e.interval.upper = true ∧ DivisionBounds e d r ∧
      m.Grown [r.quotient, r.remainder] [r.row e d] m' := by
  rw [divide]
  cases hc : lt e.interval.lower zero || !isFinite e.interval.upper with
  | true =>
    simp only [if_true]
    exact .throw _
  | false =>
    simp only [Bool.false_eq_true, if_false]
    rw [Bool.or_eq_false_iff, Bool.not_eq_false'] at hc
    refine .bind_succeeds (auxiliary_spec "div" .integer _ _ m) fun _ _ hq => ?_
    exact (divide_rest e hd hq).mono fun _ _ h => ⟨hc.1, hc.2, h⟩

/-- With a dividend in range and proper bounds for the quotient, a division is added. -/
theorem divide_succeeds {e : LinearExpr K} {d : Int} (hd : 0 < d)
    (hl : lt e.interval.lower zero = false) (hu : isFinite e.interval.upper = true)
    (hq : (⟨zero, floor (e.interval.upper / ofInt d)⟩ : Interval K).isProper = true)
    (m : Model K) :
    Succeeds (divide e d) m fun r m' => DivisionBounds e d r ∧
      m.Grown [r.quotient, r.remainder] [r.row e d] m' := by
  have hc : (lt e.interval.lower zero || !isFinite e.interval.upper) = false := by rw [hl, hu]; rfl
  rw [divide, hc]
  simp only [Bool.false_eq_true, if_false]
  exact .bind (auxiliary_succeeds "div" (d := .integer) m hq) fun _ _ hq => divide_rest e hd hq

/-! ## The truth of a constraint -/

/-- The rows of the truth of an inequality. -/
def AtMostParts (e : LinearExpr K) (rhs : K) (bigM : Option K) (given : Option (Scalar K))
    (m : Model K) (delta : Variable K) (m' : Model K) : Prop :=
  ∃ bounds eps, e.finiteInterval "reify" bigM = .ok bounds ∧ chooseMargin e rhs given = .ok eps ∧
    m.Grown [delta] [Reify.holdsRow e rhs bounds delta, Reify.failsRow e rhs eps bounds delta] m'

/-- The rows of the truth of an equality, and the variable that says on which side it fails. -/
def EqualsParts (e : LinearExpr K) (rhs : K) (bigM : Option K) (given : Option (Scalar K))
    (m : Model K) (delta : Variable K) (m' : Model K) : Prop :=
  ∃ bounds eps side, e.finiteInterval "reify" bigM = .ok bounds ∧
    chooseMargin e rhs given = .ok eps ∧ side.IsOf .binary ⟨zero, one⟩ ∧
    m.Grown [delta, side] (Reify.equalityRows e rhs eps (Reify.reach rhs bounds) delta side) m'

/-- The rows of the truth of a constraint. -/
def TruthParts (c : Constraint K) (bigM : Option K) (given : Option (Scalar K)) (m : Model K)
    (delta : Variable K) (m' : Model K) : Prop :=
  match c.relation with
  | .le => AtMostParts c.expr c.rhs bigM given m delta m'
  | .ge => AtMostParts c.expr.negate (-c.rhs) bigM given m delta m'
  | .eq => EqualsParts c.expr c.rhs bigM given m delta m'

/-- With bounds and a margin that can be read, the truth of an inequality is added. -/
theorem reifyAtMost_succeeds {e : LinearExpr K} {rhs : K} {bigM : Option K}
    {given : Option (Scalar K)} {bounds : Interval K} {eps : K}
    (hb : e.finiteInterval "reify" bigM = .ok bounds) (heps : chooseMargin e rhs given = .ok eps)
    (m : Model K) :
    Succeeds (reifyAtMost e rhs bigM given) m fun delta m' =>
      delta.IsOf .binary ⟨zero, one⟩ ∧ AtMostParts e rhs bigM given m delta m' := by
  rw [reifyAtMost, hb]
  refine .lift_bind (.bind (selector_spec "reif" m) ?_)
  rintro delta n ⟨-, hd, hg⟩
  refine .bind (discard_register_spec rfl hg) fun _ k hg => ?_
  rw [heps]
  refine .lift_bind ?_
  refine .bind (discard_register_spec rfl hg) fun _ m' hg => ?_
  exact .pure ⟨hd, bounds, eps, hb, heps, hg⟩

/-- With a margin that can be read, the truth of an inequality is all or nothing. -/
theorem reifyAtMost_spec (e : LinearExpr K) (rhs : K) (bigM : Option K)
    {given : Option (Scalar K)} {eps : K} (heps : chooseMargin e rhs given = .ok eps)
    (m : Model K) :
    AllOrNothing (reifyAtMost e rhs bigM given) m fun delta m' =>
      delta.IsOf .binary ⟨zero, one⟩ ∧ AtMostParts e rhs bigM given m delta m' := by
  rcases hb : e.finiteInterval "reify" bigM with f | bounds
  · exact .inr ⟨f, m, exec_bind_of_error (by rw [hb]; rfl) _, .refl m⟩
  · exact (reifyAtMost_succeeds hb heps m).allOrNothing

/-- **With a margin that cannot be read, the truth of an inequality fails after its first row.** -/
theorem reifyAtMost_late {e : LinearExpr K} (rhs : K) {bigM : Option K}
    {given : Option (Scalar K)} {bounds : Interval K} {f : Fault}
    (hb : e.finiteInterval "reify" bigM = .ok bounds) (hf : chooseMargin e rhs given = .error f)
    (m : Model K) : ∃ delta m', exec (reifyAtMost e rhs bigM given) m = (.error f, m') ∧
      m.Grown [delta] [Reify.holdsRow e rhs bounds delta] m' := by
  obtain ⟨delta, n, hn, -, -, hg⟩ := selector_spec "reif" m
  obtain ⟨u, m', hm, hg'⟩ :=
    discard_register_spec (c := Reify.holdsRow e rhs bounds delta) rfl hg
  refine ⟨delta, m', ?_, hg'⟩
  rw [reifyAtMost, exec_bind_of_ok (by rw [exec_liftM, hb]), exec_bind_of_ok hn,
    exec_bind_of_ok hm, exec_bind_of_error (by rw [exec_liftM, hf])]

/-- With bounds and a margin that can be read, the truth of an equality is added. -/
theorem reifyEquals_succeeds {e : LinearExpr K} {rhs : K} {bigM : Option K}
    {given : Option (Scalar K)} {bounds : Interval K} {eps : K}
    (hb : e.finiteInterval "reify" bigM = .ok bounds) (heps : chooseMargin e rhs given = .ok eps)
    (m : Model K) :
    Succeeds (reifyEquals e rhs bigM given) m fun delta m' =>
      delta.IsOf .binary ⟨zero, one⟩ ∧ EqualsParts e rhs bigM given m delta m' := by
  rw [reifyEquals, hb, heps]
  refine .lift_bind (.lift_bind (.bind (selector_spec "reif" m) ?_))
  rintro delta n ⟨-, hd, hg⟩
  refine .bind (selector_spec "reif_side" n) ?_
  rintro side k ⟨-, hs, hg'⟩
  refine .bind (discard_registerAll_spec ?_ (hg.trans hg')) fun _ m' hg => ?_
  · simp [Reify.equalityRows, atMost, atLeast]
  · exact .pure ⟨hd, bounds, eps, side, hb, heps, hs, hg⟩

theorem reifyEquals_spec (e : LinearExpr K) (rhs : K) (bigM : Option K)
    (given : Option (Scalar K)) (m : Model K) :
    AllOrNothing (reifyEquals e rhs bigM given) m fun delta m' =>
      delta.IsOf .binary ⟨zero, one⟩ ∧ EqualsParts e rhs bigM given m delta m' := by
  rcases hb : e.finiteInterval "reify" bigM with f | bounds
  · exact .inr ⟨f, m, exec_bind_of_error (by rw [hb]; rfl) _, .refl m⟩
  rcases heps : chooseMargin e rhs given with f | eps
  · refine .inr ⟨f, m, ?_, .refl m⟩
    rw [reifyEquals, hb, heps, exec_bind_of_ok (exec_liftM _ m)]
    exact exec_bind_of_error (exec_liftM _ m) _
  · exact (reifyEquals_succeeds hb heps m).allOrNothing

end Build

end MixedInteger
