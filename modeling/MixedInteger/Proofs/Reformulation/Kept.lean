import MixedInteger.Proofs.Reformulation.CallEffect

/-!
# Rows of reformulations are well-formed

The rows that a reformulation takes in mention its operands and the variables that it has created,
each of them once.  This file says so for the rows of each reformulation, and concludes that a
reformulation that succeeds keeps the model well-formed.

## What is here

* `Model.RowsWellFormed.conjunctionRows` and its kin — the rows of each reformulation.
* `Model.WellFormed.effect` — a reformulation keeps a model well-formed.
-/

set_option autoImplicit false

namespace MixedInteger

variable {K : Type}

namespace Model.RowsWellFormed

open LinearExpr

variable {m : Model K}

theorem nil : m.RowsWellFormed [] := fun _ h => absurd h List.not_mem_nil

theorem cons {c : Constraint K} {cs : List (Constraint K)} (hc : c.expr.WellFormed m)
    (hcs : m.RowsWellFormed cs) : m.RowsWellFormed (c :: cs) :=
  List.forall_mem_cons.2 ⟨hc, hcs⟩

theorem append {cs ds : List (Constraint K)} (hcs : m.RowsWellFormed cs)
    (hds : m.RowsWellFormed ds) : m.RowsWellFormed (cs ++ ds) :=
  List.forall_mem_append.2 ⟨hcs, hds⟩

theorem map {α : Type} {l : List α} {f : α → Constraint K}
    (h : ∀ a ∈ l, (f a).expr.WellFormed m) : m.RowsWellFormed (l.map f) :=
  List.forall_mem_map.2 h

theorem flatMap {α : Type} {l : List α} {f : α → List (Constraint K)}
    (h : ∀ a ∈ l, m.RowsWellFormed (f a)) : m.RowsWellFormed (l.flatMap f) := by
  intro c hc
  obtain ⟨a, ha, hca⟩ := List.mem_flatMap.1 hc
  exact h a ha c hca

variable [Arithmetic K]

/-! ## Logic -/

theorem conjunctionRows {z : Variable K} {vs : List (Variable K)} (hz : m.Knows z)
    (hvs : ∀ v ∈ vs, m.Knows v) : m.RowsWellFormed (Logic.conjunctionRows z vs) := by
  have hz := wellFormed_ofVariable hz
  refine append (map fun v hv => hz.minus (wellFormed_ofVariable (hvs v hv))) (cons ?_ nil)
  exact hz.minus (wellFormed_total hvs)

theorem disjunctionRows {z : Variable K} {vs : List (Variable K)} (hz : m.Knows z)
    (hvs : ∀ v ∈ vs, m.Knows v) : m.RowsWellFormed (Logic.disjunctionRows z vs) := by
  have hz := wellFormed_ofVariable hz
  refine append (map fun v hv => hz.minus (wellFormed_ofVariable (hvs v hv))) (cons ?_ nil)
  exact (wellFormed_total hvs).minus hz

theorem negationRows {z x : Variable K} (hz : m.Knows z) (hx : m.Knows x) :
    m.RowsWellFormed (Logic.negationRows z x) :=
  cons ((wellFormed_ofVariable hz).plus (wellFormed_ofVariable hx)) nil

theorem exclusiveRows {z x y : Variable K} (hz : m.Knows z) (hx : m.Knows x) (hy : m.Knows y) :
    m.RowsWellFormed (Logic.exclusiveRows z x y) := by
  have hz := wellFormed_ofVariable hz
  have hx := wellFormed_ofVariable hx
  have hy := wellFormed_ofVariable hy
  refine cons ((hz.minus hx).minus hy) (cons ((hz.minus hx).plus hy) ?_)
  exact cons ((hz.plus hx).minus hy) (cons ((hz.plus hx).plus hy) nil)

theorem compactRows {z x y w : Variable K} (hz : m.Knows z) (hx : m.Knows x) (hy : m.Knows y)
    (hw : m.Knows w) : m.RowsWellFormed (Logic.compactRows z x y w) := by
  have hz := wellFormed_ofVariable hz
  have hx := wellFormed_ofVariable hx
  have hy := wellFormed_ofVariable hy
  exact cons (((hz.minus hx).minus hy).plus (wellFormed_monomial hw _)) nil

theorem implicationRow {x y : Variable K} (hx : m.Knows x) (hy : m.Knows y) :
    m.RowsWellFormed [Logic.implicationRow x y] :=
  cons ((wellFormed_ofVariable hx).minus (wellFormed_ofVariable hy)) nil

/-! ## Switched constraints -/

theorem switchedRows {delta : Variable K} {c : Constraint K} (hd : m.Knows delta)
    (hc : c.expr.WellFormed m) (active : Bool) (halves : List (Relation × K)) :
    m.RowsWellFormed (c.switchedRows delta active halves) := by
  refine map fun half _ => ?_
  obtain ⟨r, k⟩ := half
  cases r <;> cases active
  · exact hc.minus (wellFormed_monomial hd k)
  · exact hc.plus (wellFormed_monomial hd k)
  · exact hc.plus (wellFormed_monomial hd k)
  · exact hc.minus (wellFormed_monomial hd k)
  · exact hc.plus (wellFormed_monomial hd k)
  · exact hc.minus (wellFormed_monomial hd k)

/-! ## Piecewise linear functions -/

theorem magnitudeRows {e : LinearExpr K} {p : MagnitudeParts K} (he : e.WellFormed m)
    (hpos : m.Knows p.positive) (hneg : m.Knows p.negative) (hsign : m.Knows p.sign)
    (ht : m.Knows p.result) (a b : K) : m.RowsWellFormed (Extremum.magnitudeRows e a b p) := by
  have hpos := wellFormed_ofVariable hpos
  have hneg := wellFormed_ofVariable hneg
  refine cons ((he.minus hpos).plus hneg) (cons ((hpos.plus hneg).minus ?_) ?_)
  · exact wellFormed_ofVariable ht
  · exact cons (hpos.minus (wellFormed_monomial hsign a))
      (cons (hneg.plus (wellFormed_monomial hsign b)) nil)

theorem maximumRows {t s : Variable K} {e : LinearExpr K} (ht : m.Knows t) (he : e.WellFormed m)
    (hs : m.Knows s) (k : K) : m.RowsWellFormed (Extremum.maximumRows t e s k) := by
  have hgap := (wellFormed_ofVariable ht).minus he
  exact cons hgap (cons (hgap.plus (wellFormed_monomial hs k)) nil)

theorem minimumRows {t s : Variable K} {e : LinearExpr K} (ht : m.Knows t) (he : e.WellFormed m)
    (hs : m.Knows s) (k : K) : m.RowsWellFormed (Extremum.minimumRows t e s k) := by
  have hgap := (wellFormed_ofVariable ht).minus he
  exact cons hgap (cons (hgap.minus (wellFormed_monomial hs k)) nil)

/-! ## Products, divisions and truth -/

theorem productRows {w delta : Variable K} {e : LinearExpr K} (hw : m.Knows w)
    (hd : m.Knows delta) (he : e.WellFormed m) (i : Interval K) :
    m.RowsWellFormed (Gate.productRows w delta e i) := by
  have hw := wellFormed_ofVariable hw
  refine cons (hw.minus (wellFormed_monomial hd _)) (cons (hw.minus (wellFormed_monomial hd _)) ?_)
  exact cons ((hw.minus he).minus (wellFormed_monomial hd _))
    (cons ((hw.minus he).minus (wellFormed_monomial hd _)) nil)

theorem rangeRows {x delta : Variable K} (hx : m.Knows x) (hd : m.Knows delta) (l u : K) :
    m.RowsWellFormed (Gate.rangeRows x delta l u) := by
  have hx := wellFormed_ofVariable hx
  exact cons (hx.minus (wellFormed_monomial hd l)) (cons (hx.minus (wellFormed_monomial hd u)) nil)

theorem divisionRow {e : LinearExpr K} {d : Int} {r : Division K} (he : e.WellFormed m)
    (hq : m.Knows r.quotient) (hr : m.Knows r.remainder) : m.RowsWellFormed [r.row e d] :=
  cons ((he.minus (wellFormed_monomial hq _)).minus (wellFormed_ofVariable hr)) nil

theorem truthRows {e : LinearExpr K} {delta : Variable K} (he : e.WellFormed m)
    (hd : m.Knows delta) (rhs eps : K) (i : Interval K) :
    m.RowsWellFormed [Reify.holdsRow e rhs i delta, Reify.failsRow e rhs eps i delta] :=
  cons (he.plus (wellFormed_monomial hd _)) (cons (he.minus (wellFormed_monomial hd _)) nil)

theorem equalityRows {e : LinearExpr K} {delta side : Variable K} (he : e.WellFormed m)
    (hd : m.Knows delta) (hs : m.Knows side) (rhs eps big : K) :
    m.RowsWellFormed (Reify.equalityRows e rhs eps big delta side) := by
  refine cons (he.plus (wellFormed_monomial hd _)) (cons (he.minus (wellFormed_monomial hd _)) ?_)
  have hside := fun k => he.minus (wellFormed_monomial hs k)
  exact cons ((hside _).plus (wellFormed_monomial hd _))
    (cons ((hside _).minus (wellFormed_monomial hd _)) nil)

end Model.RowsWellFormed

/-! ## Whole calls -/

namespace Model

variable [Arithmetic K] {m m' : Model K}

theorem WellFormed.piecewise {i : Interval K} {operands : List (BoundedExpr K)} {constants : List K}
    {rows : Variable K → LinearExpr K → Variable K → K → List (Constraint K)} {t : Variable K}
    (h : m.WellFormed) (hp : Build.PiecewiseParts m i operands constants rows t m')
    (hos : ∀ o ∈ operands, o.expr.WellFormed m)
    (hrows : ∀ e s k, m'.Knows t → e.WellFormed m' → m'.Knows s → m'.RowsWellFormed (rows t e s k)) :
    m'.WellFormed := by
  obtain ⟨-, ss, -, -, hg⟩ := hp
  have hss : ∀ s ∈ ss, m'.Knows s := fun s hs => hg.knows_new (List.mem_cons_of_mem t hs)
  refine h.grown hg (.cons (LinearExpr.wellFormed_total hss) (.flatMap fun p hp => ?_))
  obtain ⟨o, s, k⟩ := p
  obtain ⟨ho, hsk⟩ := List.of_mem_zip hp
  have hs := hss s (List.of_mem_zip hsk).1
  exact hrows o.expr s k (hg.knows_new List.mem_cons_self) ((hos o ho).mono hg.keeps) hs

/-- The operands of a maximum or minimum are well-formed. -/
theorem wellFormed_of_operands {context : String} {given : Bool} {vs : List (Value K)}
    {es : List (LinearExpr K)} {os : List (BoundedExpr K)} (hvs : ∀ v ∈ vs, v.WellFormed m)
    (hes : vs.mapM (fun v => v.toExpr) = .ok es)
    (hos : es.mapM (Build.boundOperand context given) = .ok os) :
    ∀ o ∈ os, o.expr.WellFormed m := by
  intro o ho
  obtain ⟨e, he, heo⟩ := exists_of_forall₂ (forall₂_of_mapM_eq_ok hos) ho
  obtain ⟨v, hv, hve⟩ := exists_of_forall₂ (forall₂_of_mapM_eq_ok hes) he
  have hoe : o.expr = e := by
    cases given with
    | true =>
      cases heo
      rfl
    | false =>
      obtain ⟨i, -, ⟨⟩⟩ := bind_eq_ok.1 heo
      rfl
  rw [hoe]
  exact Value.wellFormed_of_toExpr (hvs v hv) hve

theorem WellFormed.extremum {context : String}
    {parts : Model K → BoundedExpr K → List (BoundedExpr K) → Option K → Variable K → Model K →
      Prop} {args bigM : Value K} {t : Variable K} (h : m.WellFormed) (ha : args.Admissible m)
    (hx : Build.ExtremumEffect context parts args bigM m t m')
    (hparts : ∀ first rest k, (∀ o ∈ first :: rest, o.expr.WellFormed m) →
      parts m first rest k t m' → m'.WellFormed) : m'.WellFormed := by
  cases hx with
  | single _ hm =>
    rw [hm]
    exact h
  | expression v e hv he _ hg =>
    have hv := ha.elements hv v List.mem_cons_self
    have ht := LinearExpr.wellFormed_ofVariable (hg.knows_new List.mem_cons_self)
    exact h.grown hg (.cons (ht.minus ((Value.wellFormed_of_toExpr hv he).mono hg.keeps)) .nil)
  | several vs es first rest k hvs hes hos _ hp =>
    exact hparts first rest k (wellFormed_of_operands (ha.elements hvs) hes hos) hp

theorem WellFormed.atMostParts {e : LinearExpr K} {rhs : K} {bigM : Option K}
    {given : Option (Scalar K)} {delta : Variable K} (h : m.WellFormed) (he : e.WellFormed m)
    (hp : Build.AtMostParts e rhs bigM given m delta m') : m'.WellFormed := by
  obtain ⟨i, eps, -, -, hg⟩ := hp
  have hd := hg.knows_new List.mem_cons_self
  exact h.grown hg (.truthRows (he.mono hg.keeps) hd rhs eps i)

theorem WellFormed.truthParts {c : Constraint K} {bigM : Option K} {given : Option (Scalar K)}
    {delta : Variable K} (h : m.WellFormed) (hc : c.expr.WellFormed m)
    (hp : Build.TruthParts c bigM given m delta m') : m'.WellFormed := by
  rw [Build.TruthParts] at hp
  cases hr : c.relation with
  | le =>
    rw [hr] at hp
    exact h.atMostParts hc hp
  | ge =>
    rw [hr] at hp
    exact h.atMostParts hc.negate hp
  | eq =>
    rw [hr] at hp
    obtain ⟨i, eps, side, -, -, -, hg⟩ := hp
    have hd := hg.knows_new List.mem_cons_self
    have hs := hg.knows_new (List.mem_cons_of_mem delta List.mem_cons_self)
    exact h.grown hg (.equalityRows (hc.mono hg.keeps) hd hs _ _ _)

theorem knows_of_toBinaries {context : String} {args : List (Value K)} {vs : List (Variable K)}
    (ha : ∀ v ∈ args, v.Admissible m)
    (h : Value.toBinaries context (Value.operands args) = .ok vs) : ∀ v ∈ vs, m.Knows v := by
  intro v hv
  obtain ⟨x, hx, hxv⟩ := exists_of_forall₂ (forall₂_of_mapM_eq_ok h) hv
  exact Value.knows_of_toBinary (Value.wellFormed_of_mem_operands ha hx) hxv

theorem WellFormed.product {x y bigM : Value K} {w : Variable K} (h : m.WellFormed)
    (hx : x.WellFormed m) (hy : y.WellFormed m)
    (hp : Call.ProductEffect x y bigM m w m') : m'.WellFormed := by
  cases hp with
  | binary v₁ v₂ hv₁ hv₂ _ hg =>
    have h₁ := hg.keeps.knows (Value.knows_of_toBinary hx hv₁)
    have h₂ := hg.keeps.knows (Value.knows_of_toBinary hy hv₂)
    refine h.grown hg (.conjunctionRows (hg.knows_new List.mem_cons_self) ?_)
    exact List.forall_mem_cons.2 ⟨h₁, List.forall_mem_singleton.2 h₂⟩
  | gated delta factor e k i hd he _ _ _ hg =>
    have hw := hg.knows_new List.mem_cons_self
    have hdelta : m.Knows delta ∧ factor.WellFormed m := by
      rcases hd with ⟨hd, rfl⟩ | ⟨hd, rfl⟩
      · exact ⟨Value.knows_of_toBinary hx hd, hy⟩
      · exact ⟨Value.knows_of_toBinary hy hd, hx⟩
    have hf := (Value.wellFormed_of_toExpr hdelta.2 he).mono hg.keeps
    exact h.grown hg (.productRows hw (hg.keeps.knows hdelta.1) hf i)

/-- **A reformulation keeps a model well-formed.** -/
theorem WellFormed.effect {c : Call K} {answer : Value K} (h : m.WellFormed)
    (hc : c.isReformulation = true) (ha : c.Admissible m) (he : c.Effect m m' answer) :
    m'.WellFormed := by
  have arg : ∀ x ∈ c.arguments, x.WellFormed m := fun x hx => (ha x hx).wellFormed
  cases c with
  | addVariable | addVariables | addConstraint | setObjective => cases hc
  | conjunction args =>
    obtain ⟨vs, hvs, ⟨v, -, -, rfl⟩ | ⟨z, -, -, hg⟩⟩ := he
    · exact h
    · have hvs := fun v hv => hg.keeps.knows (knows_of_toBinaries ha hvs v hv)
      exact h.grown hg (.conjunctionRows (hg.knows_new List.mem_cons_self) hvs)
  | disjunction args =>
    obtain ⟨vs, hvs, ⟨v, -, -, rfl⟩ | ⟨z, -, -, hg⟩⟩ := he
    · exact h
    · have hvs := fun v hv => hg.keeps.knows (knows_of_toBinaries ha hvs v hv)
      exact h.grown hg (.disjunctionRows (hg.knows_new List.mem_cons_self) hvs)
  | negation x =>
    obtain ⟨v, z, hv, -, -, hg⟩ := he
    have hv := Value.knows_of_toBinary (arg x (by simp [Call.arguments])) hv
    exact h.grown hg (.negationRows (hg.knows_new List.mem_cons_self) (hg.keeps.knows hv))
  | exclusive x y encoding =>
    obtain ⟨c, v, w, z, -, hv, hw, -, -, hp⟩ := he
    have hv := Value.knows_of_toBinary (arg x (by simp [Call.arguments])) hv
    have hw := Value.knows_of_toBinary (arg y (by simp [Call.arguments])) hw
    cases c with
    | inequalities =>
      have hp : m.Grown [z] (Logic.exclusiveRows z v w) m' := hp
      exact h.grown hp (.exclusiveRows (hp.knows_new List.mem_cons_self) (hp.keeps.knows hv)
        (hp.keeps.knows hw))
    | compact =>
      obtain ⟨u, -, hg⟩ := hp
      have hv := hg.keeps.knows hv
      have hw := hg.keeps.knows hw
      have hu := hg.knows_new List.mem_cons_self
      have hz := hg.knows_new (List.mem_cons_of_mem u List.mem_cons_self)
      refine h.grown hg (.append (.conjunctionRows hu ?_) (.compactRows hz hv hw hu))
      exact List.forall_mem_cons.2 ⟨hv, List.forall_mem_singleton.2 hw⟩
  | implication x y =>
    obtain ⟨v, w, hv, hw, -, hg⟩ := he
    have hv := Value.knows_of_toBinary (arg x (by simp [Call.arguments])) hv
    have hw := Value.knows_of_toBinary (arg y (by simp [Call.arguments])) hw
    exact h.grown hg (.implicationRow (hg.keeps.knows hv) (hg.keeps.knows hw))
  | cardinality r bound args =>
    obtain ⟨s, vs, k, -, hvs, -, -, hg⟩ := he
    have ha' : ∀ v ∈ args, v.Admissible m := fun v hv => ha v (List.mem_cons_of_mem bound hv)
    have hvs := fun v hv => hg.keeps.knows (knows_of_toBinaries ha' hvs v hv)
    exact h.grown hg (.cons (LinearExpr.wellFormed_total hvs) .nil)
  | indicator delta constraint active bigM =>
    obtain ⟨v, on, c, k, halves, hv, -, hc, -, -, -, hg⟩ := he
    have hv := Value.knows_of_toBinary (arg delta (by simp [Call.arguments])) hv
    have hc := Value.wellFormed_of_toConstraint (arg constraint (by simp [Call.arguments])) hc
    exact h.grown hg (.switchedRows (hg.keeps.knows hv) (hc.mono hg.keeps) on halves)
  | eitherOr first second bigM =>
    obtain ⟨c, d, k, hc, hd, delta, h₁, h₂, -, -, -, -, -, hg⟩ := he
    have h₁ := Value.wellFormed_of_toConstraint (arg first (by simp [Call.arguments])) h₁
    have h₂ := Value.wellFormed_of_toConstraint (arg second (by simp [Call.arguments])) h₂
    have hdelta := hg.knows_new List.mem_cons_self
    exact h.grown hg (.append (.switchedRows hdelta (h₁.mono hg.keeps) false hc)
      (.switchedRows hdelta (h₂.mono hg.keeps) true hd))
  | magnitude expr bigM =>
    obtain ⟨e, k, i, p, he, -, -, -, -, hg⟩ := he
    have he := Value.wellFormed_of_toExpr (arg expr (by simp [Call.arguments])) he
    refine h.grown hg (.magnitudeRows (he.mono hg.keeps) ?_ ?_ ?_ ?_ _ _)
    all_goals exact hg.knows_new (by simp)
  | maximum exprs bigM =>
    obtain ⟨t, -, hx⟩ := he
    refine h.extremum (ha exprs (by simp [Call.arguments])) hx fun first rest k hos hp => ?_
    exact h.piecewise hp hos fun e s k ht he hs => .maximumRows ht he hs k
  | minimum exprs bigM =>
    obtain ⟨t, -, hx⟩ := he
    refine h.extremum (ha exprs (by simp [Call.arguments])) hx fun first rest k hos hp => ?_
    exact h.piecewise hp hos fun e s k ht he hs => .minimumRows ht he hs k
  | product x y bigM =>
    obtain ⟨w, -, hp⟩ := he
    exact h.product (arg x (by simp [Call.arguments])) (arg y (by simp [Call.arguments])) hp
  | semiContinuous lower upper name =>
    obtain ⟨l, u, x, delta, -, -, -, -, -, -, hg⟩ := he
    have hx := hg.knows_new List.mem_cons_self
    have hd := hg.knows_new (List.mem_cons_of_mem x List.mem_cons_self)
    exact h.grown hg (.rangeRows hx hd l u)
  | divide expr divisor =>
    obtain ⟨e, d, r, he, -, -, -, -, -, hg⟩ := he
    have he := Value.wellFormed_of_toExpr (arg expr (by simp [Call.arguments])) he
    have hq := hg.knows_new List.mem_cons_self
    have hr := hg.knows_new (List.mem_cons_of_mem r.quotient List.mem_cons_self)
    exact h.grown hg (.divisionRow (he.mono hg.keeps) hq hr)
  | reify constraint bigM margin =>
    obtain ⟨c, eps, k, delta, hc, -, -, -, -, hp⟩ := he
    have hc := Value.wellFormed_of_toConstraint (arg constraint (by simp [Call.arguments])) hc
    exact h.truthParts hc hp

end Model

end MixedInteger
