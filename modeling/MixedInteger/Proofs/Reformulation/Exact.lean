import MixedInteger.Proofs.Model.Reachable
import MixedInteger.Proofs.Reformulation.PiecewiseExact
import MixedInteger.Proofs.Reformulation.ProductExact
import MixedInteger.Proofs.Reformulation.SwitchExact
import MixedInteger.Proofs.Reformulation.TruthExact

/-!
# Sequences of reformulations are exact

The calls of a sequence work on what the earlier ones hand over.  What the model says in the end about
the variables that a caller has seen is what it said at the start, together with what each call means.

## What is here

* `Model.Call.isExpressed` — one call.
* `Model.Run` — a sequence of calls, each over variables that have been seen before.
* `Model.Run.sound`, `Model.Run.complete` — what the last model of a sequence allows.
* `Model.Run.allowsShown_iff` — that this is what the calls mean, together.
-/

set_option autoImplicit false

namespace MixedInteger

open Arithmetic

namespace Model

/-! ## One call -/

section HandsOver

variable {K : Type} [Arithmetic K] {m n : Model K} {c : Call K} {v : Variable K}

/-- A call adds variables and rows, and hands over only new variables and ones that it was given. -/
def Call.HandsOver (c : Call K) (m n : Model K) (answer : Value K) : Prop :=
  ∃ vs cs, m.Grown vs cs n ∧ ∀ v ∈ answer.handedOver, v ∈ vs ∨ v ∈ c.vars

namespace Call.HandsOver

theorem new {vs : List (Variable K)} {cs : List (Constraint K)} (hg : m.Grown vs cs n)
    (hv : v ∈ vs) : c.HandsOver m n (.var v) :=
  ⟨vs, cs, hg, List.forall_mem_singleton.2 (.inl hv)⟩

theorem given (hn : n = m) (hv : v ∈ c.vars) : c.HandsOver m n (.var v) :=
  ⟨[], [], hn ▸ .refl m, List.forall_mem_singleton.2 (.inr hv)⟩

theorem nothing {answer : Value K} {vs : List (Variable K)} {cs : List (Constraint K)}
    (hg : m.Grown vs cs n) (ha : answer.handedOver = []) : c.HandsOver m n answer :=
  ⟨vs, cs, hg, fun _ hw => absurd (ha ▸ hw) List.not_mem_nil⟩

theorem atMost {e : LinearExpr K} {rhs : K} {k : Option K} {given : Option (Scalar K)}
    (hp : Build.AtMostParts e rhs k given m v n) : c.HandsOver m n (.var v) := by
  obtain ⟨i, eps, -, -, hg⟩ := hp
  exact new hg List.mem_cons_self

theorem truth {d : Constraint K} {k : Option K} {given : Option (Scalar K)}
    (hp : Build.TruthParts d k given m v n) : c.HandsOver m n (.var v) := by
  unfold Build.TruthParts at hp
  split at hp
  · exact atMost hp
  · exact atMost hp
  · obtain ⟨i, eps, side, -, -, -, hg⟩ := hp
    exact new hg List.mem_cons_self

theorem extremum {context : String} {x bigM : Value K}
    {parts : Model K → BoundedExpr K → List (BoundedExpr K) → Option K → Variable K → Model K →
      Prop}
    (hx : x ∈ c.arguments)
    (hparts : ∀ first rest k, parts m first rest k v n → c.HandsOver m n (.var v))
    (he : Build.ExtremumEffect context parts x bigM m v n) : c.HandsOver m n (.var v) := by
  cases he with
  | single h hn =>
    refine given hn (Variable.mem_vars_of_part hx (p := .var v) ?_ List.mem_cons_self)
    rw [Value.parts_of_elements h List.mem_cons_self nofun]
    exact List.mem_cons_self
  | expression _ _ _ _ _ hg => exact new hg List.mem_cons_self
  | several _ _ first rest k _ _ _ _ hp => exact hparts first rest k hp

theorem piecewise {i : Interval K} {operands : List (BoundedExpr K)} {ks : List K}
    {rows : Variable K → LinearExpr K → Variable K → K → List (Constraint K)}
    (hp : Build.PiecewiseParts m i operands ks rows v n) : c.HandsOver m n (.var v) := by
  obtain ⟨-, selectors, -, -, hg⟩ := hp
  exact new hg List.mem_cons_self

end Call.HandsOver

/-- **What a call hands over is new or was given.** -/
theorem Call.Effect.handsOver {answer : Value K} (hc : c.isReformulation = true)
    (he : c.Effect m n answer) : c.HandsOver m n answer := by
  have operand : ∀ {args : List (Value K)} {v : Variable K} {context : String},
      (∀ x ∈ args, x ∈ c.arguments) →
      Value.toBinaries context (Value.operands args) = .ok [v] → v ∈ c.vars := by
    intro args v context hargs hvs
    refine Call.mem_vars_of_operand hargs ?_
    rw [(Value.operands_of_toBinaries hvs).1]
    exact List.mem_cons_self
  cases c with
  | addVariable | addVariables | addConstraint | setObjective => cases hc
  | conjunction args =>
    obtain ⟨vs, hvs, ⟨v, rfl, rfl, hn⟩ | ⟨z, rfl, -, hg⟩⟩ := he
    · exact .given hn (operand (fun x hx => hx) hvs)
    · exact .new hg List.mem_cons_self
  | disjunction args =>
    obtain ⟨vs, hvs, ⟨v, rfl, rfl, hn⟩ | ⟨z, rfl, -, hg⟩⟩ := he
    · exact .given hn (operand (fun x hx => hx) hvs)
    · exact .new hg List.mem_cons_self
  | negation x =>
    obtain ⟨v, z, -, rfl, -, hg⟩ := he
    exact .new hg List.mem_cons_self
  | exclusive x y encoding =>
    obtain ⟨c, v, w, z, -, -, -, rfl, -, hp⟩ := he
    cases c with
    | inequalities =>
      have hg : m.Grown [z] (Logic.exclusiveRows z v w) n := hp
      exact .new hg List.mem_cons_self
    | compact =>
      obtain ⟨u, -, hg⟩ := hp
      exact .new hg (List.mem_cons_of_mem u List.mem_cons_self)
  | implication x y =>
    obtain ⟨v, w, -, -, ha, hg⟩ := he
    exact .nothing hg ha
  | cardinality r bound args =>
    obtain ⟨s, vs, k, -, -, -, ha, hg⟩ := he
    exact .nothing hg ha
  | indicator delta constraint active bigM =>
    obtain ⟨v, on, d, k, halves, -, -, -, -, -, ha, hg⟩ := he
    exact .nothing hg ha
  | eitherOr first second bigM =>
    obtain ⟨c, d, k, hs, ht, delta, -, -, -, -, -, rfl, -, hg⟩ := he
    exact .new hg List.mem_cons_self
  | magnitude expr bigM =>
    obtain ⟨e, k, i, p, -, -, -, rfl, -, hg⟩ := he
    exact .new hg (by simp)
  | maximum exprs bigM =>
    obtain ⟨t, rfl, he⟩ := he
    exact .extremum (by simp [Call.arguments]) (fun first rest k hp => .piecewise hp) he
  | minimum exprs bigM =>
    obtain ⟨t, rfl, he⟩ := he
    exact .extremum (by simp [Call.arguments]) (fun first rest k hp => .piecewise hp) he
  | product x y bigM =>
    obtain ⟨w, rfl, he⟩ := he
    cases he with
    | binary v₁ v₂ _ _ _ hg => exact .new hg List.mem_cons_self
    | gated delta factor e k i _ _ _ _ _ hg => exact .new hg List.mem_cons_self
  | semiContinuous lower upper name =>
    obtain ⟨l, u, x, delta, -, -, -, rfl, -, -, hg⟩ := he
    exact .new hg List.mem_cons_self
  | divide expr divisor =>
    obtain ⟨e, d, r, -, -, rfl, -, -, -, hg⟩ := he
    exact ⟨_, _, hg, fun v hv => .inl hv⟩
  | reify constraint bigM margin =>
    obtain ⟨d, given, k, delta, -, -, -, rfl, -, hp⟩ := he
    exact .truth hp

end HandsOver

section Call

variable {F : Type} [Field F] [LinearOrder F] [FloorRing F] [ToString F] [Extended.Tolerance F]
  [IsStrictOrderedRing F] [Extended.Tolerance.IsZero F] {m n : Model (Extended F)}

/-- **A reformulation expresses what it means.** -/
theorem Call.isExpressed {c : Call (Extended F)} {answer : Value (Extended F)} (hm : m.WellFormed)
    (hc : c.IsOver m.vars) (he : c.Effect m n answer) : c.IsExpressed m n answer := by
  cases c with
  | addVariable | addVariables | addConstraint | setObjective => cases hc.reformulation
  | conjunction args => exact conjunction_isExpressed hm hc he
  | disjunction args => exact disjunction_isExpressed hm hc he
  | negation x => exact negation_isExpressed hm hc he
  | exclusive x y encoding => exact exclusive_isExpressed hm hc he
  | implication x y => exact implication_isExpressed hm hc he
  | cardinality r bound args => exact cardinality_isExpressed hm hc he
  | indicator delta constraint active bigM => exact indicator_isExpressed hm hc he
  | eitherOr first second bigM => exact eitherOr_isExpressed hm hc he
  | magnitude expr bigM => exact magnitude_isExpressed hm hc he
  | maximum exprs bigM => exact maximum_isExpressed hm hc he
  | minimum exprs bigM => exact minimum_isExpressed hm hc he
  | product x y bigM => exact product_isExpressed hm hc he
  | semiContinuous lower upper name => exact semiContinuous_isExpressed hm hc he
  | divide expr divisor => exact divide_isExpressed hm hc he
  | reify constraint bigM margin => exact reify_isExpressed hm hc he

end Call

/-! ## Sequences of calls -/

section Run

variable {F : Type} [Field F]

/-- A sequence of calls with their answers, from one model to another.  Each call is over variables
that have been seen: those of a list, and those that the earlier calls have handed over. -/
inductive Run (step : Call (Extended F) → Model (Extended F) → Value (Extended F) →
    Model (Extended F) → Prop) : Model (Extended F) → List (Variable (Extended F)) →
    List (Call (Extended F) × Value (Extended F)) → Model (Extended F) → Prop where
  /-- No call. -/
  | nil (m : Model (Extended F)) (vs : List (Variable (Extended F))) : Run step m vs [] m
  /-- A call, and the ones after it. -/
  | cons {m n m' : Model (Extended F)} {vs : List (Variable (Extended F))}
      {c : Call (Extended F)} {answer : Value (Extended F)}
      {steps : List (Call (Extended F) × Value (Extended F))} (hc : c.IsOver vs)
      (ha : c.Admissible m) (hs : step c m answer n)
      (h : Run step n (vs ++ answer.handedOver) steps m') : Run step m vs ((c, answer) :: steps) m'

/-- The variables that the calls of a sequence hand over. -/
def handedOver (steps : List (Call (Extended F) × Value (Extended F))) :
    List (Variable (Extended F)) :=
  steps.flatMap fun p => p.2.handedOver

variable {step step' : Call (Extended F) → Model (Extended F) → Value (Extended F) →
  Model (Extended F) → Prop} {m m' : Model (Extended F)} {vs : List (Variable (Extended F))}
  {steps : List (Call (Extended F) × Value (Extended F))}

theorem Run.mono (h : Run step m vs steps m')
    (hstep : ∀ c m answer n, c.isReformulation = true → step c m answer n → step' c m answer n) :
    Run step' m vs steps m' := by
  induction h with
  | nil m vs => exact .nil m vs
  | cons hc ha hs _ ih => exact .cons hc ha (hstep _ _ _ _ hc.reformulation hs) ih

/-- Calls mention what has been seen. -/
theorem Run.exists_of_mem_vars (h : Run step m vs steps m') : ∀ p ∈ steps, ∀ v ∈ p.1.vars,
    ∃ w ∈ vs ++ handedOver steps, v.id = w.id := by
  induction h with
  | nil => exact fun p hp => absurd hp List.not_mem_nil
  | @cons m n m' vs c answer steps hc ha hs h ih =>
    refine List.forall_mem_cons.2 ⟨fun v hv => ?_, fun p hp v hv => ?_⟩
    · obtain ⟨w, hw, hvw⟩ := hc.vars v hv
      exact ⟨w, List.mem_append_left _ hw, hvw.id_eq⟩
    · obtain ⟨w, hw, hvw⟩ := ih p hp v hv
      rw [List.append_assoc] at hw
      exact ⟨w, hw, hvw⟩

end Run

section Exact

variable {F : Type} [Field F] [LinearOrder F] [FloorRing F] [ToString F] [Extended.Tolerance F]
  {m n m' : Model (Extended F)} {vs : List (Variable (Extended F))}
  {steps : List (Call (Extended F) × Value (Extended F))} {a : Assignment F}

/-- The later model allows these numbers of all variables but the hidden ones: with some numbers for
those, and no others changed. -/
def AllowsShown (m n : Model (Extended F)) (shown : List (Variable (Extended F)))
    (a : Assignment F) : Prop :=
  ∃ b, n.Feasible b ∧ ∀ i, ¬m.IsHidden n shown i → b i = a i

/-- A sequence in which each call has had its effect. -/
abbrev Effects : Model (Extended F) → List (Variable (Extended F)) →
    List (Call (Extended F) × Value (Extended F)) → Model (Extended F) → Prop :=
  Run fun c m answer n => c.Effect m n answer

/-- The later model has what has been seen, and what has been handed over. -/
theorem Call.HandsOver.has {c : Call (Extended F)} {answer : Value (Extended F)}
    (h : c.HandsOver m n answer) (hc : c.IsOver vs) (hvs : ∀ v ∈ vs, m.Has v) :
    ∀ v ∈ vs ++ answer.handedOver, n.Has v := by
  obtain ⟨ws, cs, hg, hover⟩ := h
  have hold : ∀ v ∈ vs, n.Has v := fun v hv => (hvs v hv).mono hg.keeps
  refine List.forall_mem_append.2 ⟨hold, fun v hv => ?_⟩
  rcases hover v hv with hnew | hgiven
  · exact ⟨v, hg.vars_eq ▸ List.mem_append_right m.vars hnew, .refl v⟩
  · obtain ⟨w, hw, hvw⟩ := hc.vars v hgiven
    obtain ⟨u, hu, hwu⟩ := hold w hw
    exact ⟨u, hu, hvw.trans hwu⟩

/-- What is handed over has been seen before, or is new. -/
theorem Run.seen_or_new (hm : m.WellFormed) (h : Effects m vs steps m') :
    ∀ v ∈ handedOver steps, (∃ w ∈ vs, v.id = w.id) ∨ ∀ w ∈ m.vars, w.id ≠ v.id := by
  induction h with
  | nil => exact fun v hv => absurd hv List.not_mem_nil
  | @cons m n m' vs c answer steps hc ha he h ih =>
    have hfirst : ∀ v ∈ answer.handedOver,
        (∃ w ∈ vs, v.id = w.id) ∨ ∀ w ∈ m.vars, w.id ≠ v.id := by
      intro v hv
      obtain ⟨ws, cs, hg, hover⟩ := he.handsOver hc.reformulation
      rcases hover v hv with hnew | hgiven
      · exact .inr fun w hw => hg.id_ne_of_mem hm hw hnew
      · obtain ⟨w, hw, hvw⟩ := hc.vars v hgiven
        exact .inl ⟨w, hw, hvw.id_eq⟩
    have hrest := ih (hm.effect hc.reformulation ha he)
    rw [handedOver, List.flatMap_cons]
    refine List.forall_mem_append.2 ⟨hfirst, fun v hv => ?_⟩
    rcases hrest v hv with ⟨w, hw, hvw⟩ | hnew
    · rcases List.mem_append.1 hw with hw | hw
      · exact .inl ⟨w, hw, hvw⟩
      · rw [hvw]
        exact hfirst w hw
    · obtain ⟨ws, cs, hg, -⟩ := he.handsOver hc.reformulation
      exact .inr fun w hw => hnew w (hg.vars_eq ▸ List.mem_append_left ws hw)

/-- What the calls of a sequence mean depends on what has been seen. -/
theorem Run.meaning_iff {step : Call (Extended F) → Model (Extended F) → Value (Extended F) →
    Model (Extended F) → Prop} {b : Assignment F} (h : Run step m vs steps m')
    (hagree : ∀ v ∈ vs ++ handedOver steps, b v.id = a v.id) : ∀ p ∈ steps,
    (p.1.Meaning b (p.2.handedOver.map fun v => b v.id) ↔
      p.1.Meaning a (p.2.handedOver.map fun v => a v.id)) := by
  intro p hp
  have hvars : ∀ v ∈ p.1.vars, b v.id = a v.id := by
    intro v hv
    obtain ⟨w, hw, hvw⟩ := h.exists_of_mem_vars p hp v hv
    rw [hvw]
    exact hagree w hw
  have hresults : p.2.handedOver.map (fun v => b v.id) = p.2.handedOver.map fun v => a v.id :=
    List.map_congr_left fun v hv => hagree v
      (List.mem_append_right _ (List.mem_flatMap_of_mem hp hv))
  rw [hresults, Call.meaning_congr hvars]

theorem Run.keeps (hm : m.WellFormed) (h : Effects m vs steps m') :
    m'.WellFormed ∧ m.Keeps m' := by
  induction h with
  | nil m vs => exact ⟨hm, .refl m⟩
  | cons hc ha he _ ih =>
    obtain ⟨ws, cs, hg, -⟩ := he.handsOver hc.reformulation
    obtain ⟨hm', hk⟩ := ih (hm.effect hc.reformulation ha he)
    exact ⟨hm', hg.keeps.trans hk⟩

variable [IsStrictOrderedRing F] [Extended.Tolerance.IsZero F]

/-- **The last model of a sequence allows only what the first one allows and the calls mean.** -/
theorem Run.sound (hm : m.WellFormed) (hvs : ∀ v ∈ vs, m.Has v) (h : Effects m vs steps m')
    (ha : m'.Feasible a) : m.Feasible a ∧
      ∀ p ∈ steps, p.1.Meaning a (p.2.handedOver.map fun v => a v.id) := by
  induction h with
  | nil => exact ⟨ha, fun p hp => absurd hp List.not_mem_nil⟩
  | @cons m n m' vs c answer steps hc hadm he h ih =>
    have hn := hm.effect hc.reformulation hadm he
    obtain ⟨hna, hrest⟩ := ih hn ((he.handsOver hc.reformulation).has hc hvs) ha
    obtain ⟨hma, hmean⟩ := (Call.isExpressed hm (hc.of_has hvs) he).sound a hna
    exact ⟨hma, List.forall_mem_cons.2 ⟨hmean, hrest⟩⟩

omit [LinearOrder F] [FloorRing F] [ToString F] [Extended.Tolerance F] [IsStrictOrderedRing F]
  [Extended.Tolerance.IsZero F] [Field F] in
/-- What two stages hide, they hide together. -/
theorem IsHidden.append {k : Model (Extended F)} {shown later : List (Variable (Extended F))}
    (hmn : m.Keeps n) (hnk : n.Keeps k) (hshown : ∀ v ∈ shown, n.Has v)
    (hlater : ∀ v ∈ later, ¬m.IsHidden n shown v.id) {i : VariableId}
    (h : m.IsHidden n shown i ∨ n.IsHidden k later i) : m.IsHidden k (shown ++ later) i := by
  rcases h with h | ⟨hk, hn, hl⟩
  · obtain ⟨⟨v, hv, hvi⟩, hm, hs⟩ := h
    obtain ⟨w, hw, hvw⟩ := hnk.vars v hv
    refine ⟨⟨w, hw, hvw.id_eq.symm.trans hvi⟩, hm, List.forall_mem_append.2 ⟨hs, ?_⟩⟩
    exact fun u hu hui => hlater u hu ⟨⟨v, hv, hvi.trans hui.symm⟩,
      fun x hx => hui ▸ hm x hx, fun x hx => hui ▸ hs x hx⟩
  · refine ⟨hk, fun v hv hvi => ?_, List.forall_mem_append.2 ⟨fun v hv hvi => ?_, hl⟩⟩
    · obtain ⟨w, hw, hvw⟩ := hmn.vars v hv
      exact hn w hw (hvw.id_eq.symm.trans hvi)
    · obtain ⟨w, hw, hvw⟩ := hshown v hv
      exact hn w hw (hvw.id_eq.symm.trans hvi)

/-- **It allows all of that**, with the hidden variables chosen well. -/
theorem Run.complete (hm : m.WellFormed) (hvs : ∀ v ∈ vs, m.Has v) (h : Effects m vs steps m')
    (ha : m.Feasible a)
    (hmean : ∀ p ∈ steps, p.1.Meaning a (p.2.handedOver.map fun v => a v.id)) :
    m.AllowsShown m' (handedOver steps) a := by
  induction h generalizing a with
  | nil => exact ⟨a, ha, fun _ _ => rfl⟩
  | @cons m n m' vs c answer steps hc hadm he h ih =>
    have hn := hm.effect hc.reformulation hadm he
    have hover := he.handsOver hc.reformulation
    have hkeeps : m.Keeps n := by
      obtain ⟨ws, cs, hg, -⟩ := hover
      exact hg.keeps
    have hhas := hover.has hc hvs
    have hid : ∀ v ∈ n.vars, v.id.owner = m.id := fun v hv =>
      (hn.owner_eq hv).trans hkeeps.id_eq
    obtain ⟨hfirst, hrest⟩ := List.forall_mem_cons.1 hmean
    obtain ⟨b, hnb, hb⟩ := (Call.isExpressed hm (hc.of_has hvs) he).complete a ha hfirst
    have hseen : ∀ v ∈ vs ++ answer.handedOver, ¬m.IsHidden n answer.handedOver v.id := by
      refine List.forall_mem_append.2 ⟨fun v hv => ?_, fun v hv hidden => hidden.2.2 v hv rfl⟩
      exact not_isHidden_of_knows hid (hvs v hv).knows _
    -- what later calls hand over is not hidden by this one
    have hlater : ∀ v ∈ handedOver steps, ¬m.IsHidden n answer.handedOver v.id := by
      intro v hv
      rcases h.seen_or_new hn v hv with ⟨w, hw, hvw⟩ | hnew
      · rw [hvw]
        exact hseen w hw
      · rintro ⟨⟨w, hw, hwv⟩, -⟩
        exact hnew w hw hwv
    have hall : ∀ v ∈ (vs ++ answer.handedOver) ++ handedOver steps, b v.id = a v.id :=
      List.forall_mem_append.2 ⟨fun v hv => hb _ (hseen v hv), fun v hv => hb _ (hlater v hv)⟩
    have hrest : ∀ p ∈ steps, p.1.Meaning b (p.2.handedOver.map fun v => b v.id) := fun p hp =>
      (h.meaning_iff hall p hp).2 (hrest p hp)
    obtain ⟨d, hd, hdb⟩ := ih hn hhas hnb hrest
    have hhidden := fun i => IsHidden.append (i := i) hkeeps (h.keeps hn).2
      (fun v hv => hhas v (List.mem_append_right vs hv)) hlater
    refine ⟨d, hd, fun i hi => ?_⟩
    rw [hdb i fun hidden => hi (hhidden i (.inr hidden)),
      hb i fun hidden => hi (hhidden i (.inl hidden))]

/-- A sequence expresses what its calls mean. -/
theorem Run.allowsShown_iff (hm : m.WellFormed) (h : Effects m m.vars steps m') :
    m.AllowsShown m' (handedOver steps) a ↔
      m.Feasible a ∧ ∀ p ∈ steps, p.1.Meaning a (p.2.handedOver.map fun v => a v.id) := by
  have hvs : ∀ v ∈ m.vars, m.Has v := fun v hv => ⟨v, hv, .refl v⟩
  constructor
  · rintro ⟨b, hb, hba⟩
    obtain ⟨hm', hk⟩ := h.keeps hm
    have hid : ∀ v ∈ m'.vars, v.id.owner = m.id := fun v hv => (hm'.owner_eq hv).trans hk.id_eq
    obtain ⟨hmb, hmean⟩ := h.sound hm hvs hb
    refine ⟨hmb.agree hm hid fun i hi => (hba i hi).symm, fun p hp => ?_⟩
    refine (h.meaning_iff (List.forall_mem_append.2 ⟨fun v hv => hba _ ?_, fun v hv => hba _ ?_⟩)
      p hp).1 (hmean p hp)
    · exact not_isHidden_of_knows hid (knows_of_mem hv) _
    · exact fun hidden => hidden.2.2 v hv rfl
  · rintro ⟨ha, hmean⟩
    exact h.complete hm hvs ha hmean

end Exact

end Model

end MixedInteger
