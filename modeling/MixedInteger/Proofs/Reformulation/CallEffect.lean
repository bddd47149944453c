import MixedInteger.Proofs.Model.Arguments
import MixedInteger.Proofs.Reformulation.Effect

/-!
# What a call of a reformulation does

A call reads its arguments and then takes its building steps.  This file says, for each call, what a
successful one has read and added, and that every call except one is all or nothing.

## What is here

* `Model.Call.isReformulation` — the calls this is about.
* `Model.Call.Effect` — what a call that succeeds has read from its arguments, and what it has added.
* `Model.Call.IsLate` — the truth of an inequality with a margin out of range.
* `Build.perform_spec` — all or nothing.
-/

set_option autoImplicit false

namespace MixedInteger

variable {K : Type} [Arithmetic K]

open Arithmetic

/-! ## Descriptions -/

/-- Whether a call reformulates something, rather than adding what the caller wrote. -/
def Model.Call.isReformulation : Model.Call K → Bool
  | .addVariable .. | .addVariables .. | .addConstraint .. | .setObjective .. => false
  | _ => true

/-- The variables that an answer hands over. -/
def Value.handedOver : Value K → List (Variable K)
  | .var v => [v]
  | .sequence _ items => items.filterMap fun v =>
    match v with
    | .var v => some v
    | _ => Option.none
  | _ => []

/-- What a maximum or minimum of arguments has read and added. -/
inductive Build.ExtremumEffect (context : String)
    (parts : Model K → BoundedExpr K → List (BoundedExpr K) → Option K → Variable K → Model K → Prop)
    (args bigM : Value K) (m : Model K) (t : Variable K) (m' : Model K) : Prop where
  /-- A single variable is its own extremum. -/
  | single (h : args.elements = .ok [.var t]) (hm : m' = m)
  /-- A single expression gets a variable that equals it. -/
  | expression (v : Value K) (e : LinearExpr K) (h : args.elements = .ok [v])
      (he : v.toExpr = .ok e) (ht : t.IsOf .continuous e.interval)
      (hg : m.Grown [t] [exactly ((LinearExpr.ofVariable t).minus e) zero] m')
  /-- Several expressions with their bounds. -/
  | several (vs : List (Value K)) (es : List (LinearExpr K)) (first : BoundedExpr K)
      (rest : List (BoundedExpr K)) (k : Option K) (h : args.elements = .ok vs)
      (hes : vs.mapM (fun v => v.toExpr) = .ok es)
      (hos : es.mapM (boundOperand context bigM.isPresent) = .ok (first :: rest))
      (hk : bigM.toNumber? = .ok k) (hp : parts m first rest k t m')

namespace Model.Call

/-- What the product of two arguments has read and added. -/
inductive ProductEffect (x y bigM : Value K) (m : Model K) (w : Variable K) (m' : Model K) :
    Prop where
  /-- Two binary variables. -/
  | binary (v₁ v₂ : Variable K) (hx : x.toBinary "and_" = .ok v₁) (hy : y.toBinary "and_" = .ok v₂)
      (hw : w.IsOf .binary ⟨zero, one⟩) (hg : m.Grown [w] (Logic.conjunctionRows w [v₁, v₂]) m')
  /-- A binary variable on one side. -/
  | gated (delta : Variable K) (factor : Value K) (e : LinearExpr K) (k : Option K) (i : Interval K)
      (hx : (x.toBinary "and_" = .ok delta ∧ factor = y) ∨
        (y.toBinary "and_" = .ok delta ∧ factor = x))
      (he : factor.toExpr = .ok e) (hk : bigM.toNumber? = .ok k)
      (hi : e.finiteInterval "product" k = .ok i)
      (hw : w.IsOf .continuous ⟨smaller i.lower zero, larger i.upper zero⟩)
      (hg : m.Grown [w] (Gate.productRows w delta e i) m')

/-- What a call that succeeds has read from its arguments, and what it has added. -/
def Effect (m : Model K) (m' : Model K) (answer : Value K) : Model.Call K → Prop
  | .conjunction args => ∃ vs, Value.toBinaries "and_" (Value.operands args) = .ok vs ∧
      ((∃ v, vs = [v] ∧ answer = .var v ∧ m' = m) ∨
        ∃ z, answer = .var z ∧ z.IsOf .binary ⟨zero, one⟩ ∧
          m.Grown [z] (Logic.conjunctionRows z vs) m')
  | .disjunction args => ∃ vs, Value.toBinaries "or_" (Value.operands args) = .ok vs ∧
      ((∃ v, vs = [v] ∧ answer = .var v ∧ m' = m) ∨
        ∃ z, answer = .var z ∧ z.IsOf .binary ⟨zero, one⟩ ∧
          m.Grown [z] (Logic.disjunctionRows z vs) m')
  | .negation x => ∃ v z, x.toBinary "not_" = .ok v ∧ answer = .var z ∧
      z.IsOf .binary ⟨zero, one⟩ ∧ m.Grown [z] (Logic.negationRows z v) m'
  | .exclusive x y encoding => ∃ c v w z, Build.toEncoding encoding = .ok c ∧
      x.toBinary "xor" = .ok v ∧ y.toBinary "xor" = .ok w ∧ answer = .var z ∧
      z.IsOf .binary ⟨zero, one⟩ ∧ Build.ExclusiveParts m v w c z m'
  | .implication x y => ∃ v w, x.toBinary "add_implication" = .ok v ∧
      y.toBinary "add_implication" = .ok w ∧ answer.handedOver = [] ∧
      m.Grown [] [Logic.implicationRow v w] m'
  | .cardinality r bound args => ∃ s vs k, bound = .scalar s ∧
      Value.toBinaries (Build.cardinalityContext r) (Value.operands args) = .ok vs ∧
      s.toNumber = .ok k ∧ answer.handedOver = [] ∧
      m.Grown [] [⟨LinearExpr.total vs, r, k, .none⟩] m'
  | .indicator delta constraint active bigM => ∃ v on c k halves,
      delta.toBinary "add_indicator" = .ok v ∧ Build.toActive active = .ok on ∧
      constraint.toConstraint "add_indicator" = .ok c ∧ bigM.toNumber? = .ok k ∧
      c.halves "add_indicator" k = .ok halves ∧ answer.handedOver = [] ∧
      m.Grown [] (c.switchedRows v on halves) m'
  | .eitherOr first second bigM => ∃ c d k hc hd delta,
      first.toConstraint "add_either_or" = .ok c ∧ second.toConstraint "add_either_or" = .ok d ∧
      bigM.toNumber? = .ok k ∧ c.halves "add_either_or" k = .ok hc ∧
      d.halves "add_either_or" k = .ok hd ∧ answer = .var delta ∧
      delta.IsOf .binary ⟨zero, one⟩ ∧
      m.Grown [delta] (c.switchedRows delta false hc ++ d.switchedRows delta true hd) m'
  | .magnitude expr bigM => ∃ e k i p, expr.toExpr = .ok e ∧ bigM.toNumber? = .ok k ∧
      e.finiteInterval "abs" k = .ok i ∧ answer = .var p.result ∧
      Build.MagnitudeBounds (larger i.upper zero) (larger (-i.lower) zero) p ∧
      m.Grown [p.positive, p.negative, p.sign, p.result]
        (Extremum.magnitudeRows e (larger i.upper zero) (larger (-i.lower) zero) p) m'
  | .maximum exprs bigM => ∃ t, answer = .var t ∧
      Build.ExtremumEffect "max" (fun m first rest k t m' =>
        Build.PiecewiseParts m (Extremum.hull first.bounds (rest.map BoundedExpr.bounds))
          (first :: rest) ((first :: rest).map fun o => k.getD
            ((Extremum.hull first.bounds (rest.map BoundedExpr.bounds)).upper - o.bounds.lower))
          Extremum.maximumRows t m') exprs bigM m t m'
  | .minimum exprs bigM => ∃ t, answer = .var t ∧
      Build.ExtremumEffect "min" (fun m first rest k t m' =>
        Build.PiecewiseParts m (Extremum.hull first.bounds (rest.map BoundedExpr.bounds))
          (first :: rest) ((first :: rest).map fun o => k.getD
            (o.bounds.upper - (Extremum.hull first.bounds (rest.map BoundedExpr.bounds)).lower))
          Extremum.minimumRows t m') exprs bigM m t m'
  | .product x y bigM => ∃ w, answer = .var w ∧ ProductEffect x y bigM m w m'
  | .semiContinuous lower upper _ => ∃ l u x delta, lower.toNumber = .ok l ∧
      upper.toNumber = .ok u ∧ Build.isGatedRange lower upper = .ok true ∧ answer = .var x ∧
      x.IsOf .continuous ⟨ofInt 0, u⟩ ∧ delta.IsOf .binary ⟨zero, one⟩ ∧
      m.Grown [x, delta] (Gate.rangeRows x delta l u) m'
  | .divide expr divisor => ∃ e d r, expr.toExpr = .ok e ∧ Build.toDivisor divisor = .ok d ∧
      answer = .sequence .division [.var r.quotient, .var r.remainder] ∧
      lt e.interval.lower zero = false ∧ isFinite e.interval.upper = true ∧
      Build.DivisionBounds e d r ∧ m.Grown [r.quotient, r.remainder] [r.row e d] m'
  | .reify constraint bigM margin => ∃ c eps k delta, constraint.toConstraint "reify" = .ok c ∧
      Build.toMargin margin = .ok eps ∧ bigM.toNumber? = .ok k ∧ answer = .var delta ∧
      delta.IsOf .binary ⟨zero, one⟩ ∧ Build.TruthParts c k eps m delta m'
  | _ => True

/-- The truth of an inequality with an integer as its margin that turns out to be out of range. -/
def IsLate : Model.Call K → Prop
  | .reify (.constraint c _) bigM (.scalar (.integer n)) => c.relation ≠ .eq ∧ 0 < n ∧
      isFinite (ofInt n : K) = false ∧ ∃ k i, bigM.toNumber? = .ok k ∧
        (if c.relation = .le then c.expr else c.expr.negate).finiteInterval "reify" k = .ok i
  | _ => False

end Model.Call

namespace Build

/-! ## Reading arguments -/

/-- What is known of a variable that a caller has created from arguments. -/
def IsRead (domain lower upper : Value K) (v : Variable K) : Prop :=
  ∃ d, domain.toDomain = .ok d ∧ ((d = .binary ∧ v.IsOf .binary ⟨zero, one⟩) ∨
    (d ≠ .binary ∧ ∃ l u, lower.toNumber = .ok l ∧ upper.toNumber = .ok u ∧ v.IsOf d ⟨l, u⟩))

/-- A variable under a name that has been settled. -/
theorem declareRead_spec (domain lower upper : Value K) {name : Value K} {m : Model K}
    (hfree : ∀ s, name = .text s → s ∉ textNames m.variableNames) :
    AllOrNothing (do
      match ← domain.toDomain with
      | .binary => declare name .binary zero one
      | d => do
        let l ← lower.toNumber
        let u ← upper.toNumber
        declare name d l u) m fun v m' => m.Grown [v] [] m' ∧ IsRead domain lower upper v := by
  refine .lift_bind fun d hd => ?_
  cases d with
  | binary =>
    refine (declare_spec .binary _ _ hfree).mono ?_
    rintro v m' ⟨-, hv, hg⟩
    exact ⟨hg, .binary, hd, .inl ⟨rfl, hv⟩⟩
  | continuous =>
    refine .lift_bind fun l hl => .lift_bind fun u hu => ?_
    refine (declare_spec .continuous l u hfree).mono ?_
    rintro v m' ⟨-, hv, hg⟩
    exact ⟨hg, .continuous, hd, .inr ⟨by decide, l, u, hl, hu, hv⟩⟩
  | integer =>
    refine .lift_bind fun l hl => .lift_bind fun u hu => ?_
    refine (declare_spec .integer l u hfree).mono ?_
    rintro v m' ⟨-, hv, hg⟩
    exact ⟨hg, .integer, hd, .inr ⟨by decide, l, u, hl, hu, hv⟩⟩

/-- A variable that a caller creates. -/
theorem addVariable_spec (domain lower upper name : Value K) (m : Model K) :
    AllOrNothing (addVariable domain lower upper name) m fun v m' =>
      m.Grown [v] [] m' ∧ IsRead domain lower upper v := by
  refine .bind (requireNewName_spec name m) (fun _ n h => h.1 ▸ .refl m) ?_
  rintro _ k ⟨rfl, -, hnew⟩
  cases name with
  | none =>
    refine .bind (freshVariableName_spec k).allOrNothing (fun s n h => h.1) ?_
    rintro s n ⟨hs, hfree⟩
    refine (declareRead_spec domain lower upper ?_).mono fun v m' h => ⟨hs.grown.trans h.1, h.2⟩
    rintro t ⟨⟩
    exact hfree
  | _ =>
    refine declareRead_spec domain lower upper fun s hs => ?_
    exact Model.not_mem_variableNames (hs ▸ hnew)

omit [Arithmetic K] in
theorem lastRow_spec (c : Constraint K) (m : Model K) :
    Succeeds (lastRow c) m fun answer m' => answer.handedOver = [] ∧ m' = m :=
  ⟨_, _, rfl, rfl, rfl⟩

omit [Arithmetic K] in
/-- No variable is handed over with the rows of a model. -/
theorem handedOver_rows (m : Model K) (k : Nat) : (Value.list (m.rows.drop k)).handedOver = [] := by
  refine List.filterMap_eq_nil_iff.2 fun v hv => ?_
  obtain ⟨i, hi, rfl⟩ := List.mem_mapIdx.1 (List.mem_of_mem_drop hv)
  rfl

/-- The bounds that a reformulation works with are numbers on both sides or on none. -/
theorem isNaN_neg_finiteInterval [Sensible K] {e : LinearExpr K} {context : String} {k : Option K}
    {i : Interval K} (h : e.finiteInterval context k = .ok i) (hu : isNaN i.upper = false) :
    isNaN (-i.lower) = false := by
  cases k with
  | some x =>
    cases h
    exact (Sensible.isNaN_neg _).trans ((Sensible.isNaN_neg _).trans hu)
  | none =>
    rw [LinearExpr.finiteInterval, Interval.requireFinite] at h
    split at h
    next hf =>
      cases h
      rw [Interval.isFinite, Bool.and_eq_true] at hf
      rw [Sensible.isNaN_neg]
      exact Sensible.isNaN_of_isFinite hf.1
    next => cases h

theorem inOrder_true_eq_ok {a b : Value K} (h : inOrder true a b = .ok true) :
    ∃ s t, a = .scalar s ∧ b = .scalar t ∧ s.lt t = true := by
  unfold inOrder at h
  split at h
  next s t => exact ⟨s, t, rfl, rfl, Except.ok.inj h⟩
  next => cases h

theorem inOrder_false_eq_ok {a b : Value K} (h : inOrder false a b = .ok true) :
    ∃ s t, a = .scalar s ∧ b = .scalar t ∧ s.le t = true := by
  unfold inOrder at h
  split at h
  next s t => exact ⟨s, t, rfl, rfl, Except.ok.inj h⟩
  next =>
    simp only [Bool.false_eq_true, if_false] at h
    split at h
    next c _ => cases c <;> cases h
    next => cases h

/-- An integer that is not above a number in range is in range. -/
theorem toNumber_of_le [Sensible K] {n : Int} {t : Scalar K} {u : K} (hn : 0 < n)
    (hle : (Scalar.integer n).le t = true) (ht : t.lt (.real infinity none) = true)
    (hu : t.toNumber = .ok u) : ∃ l : K, (Scalar.integer n).toNumber = .ok l := by
  suffices h : isFinite (ofInt n : K) = true from ⟨ofInt n, by simp [Scalar.toNumber, Scalar.ofInt?, h]⟩
  cases t with
  | truth b =>
    have h1 : n ≤ 1 := by
      cases b <;> simp [Scalar.le, Scalar.lt, Scalar.eq, Scalar.exact] at hle <;> omega
    exact Sensible.isFinite_ofInt_of_le (by omega) h1 Sensible.isFinite_ofInt_one
  | integer k =>
    have h1 : n ≤ k := by
      simp [Scalar.le, Scalar.lt, Scalar.eq, Scalar.exact] at hle
      omega
    have h2 : isFinite (ofInt k : K) = true := by
      simp only [Scalar.toNumber, Scalar.ofInt?] at hu
      split at hu
      next h => exact h
      next => cases hu
    exact Sensible.isFinite_ofInt_of_le (by omega) h1 h2
  | real x mark =>
    refine Sensible.isFinite_ofInt_of_compareInt (x := x) (by omega) ht ?_
    simpa [Scalar.le, Scalar.lt, Scalar.eq, Scalar.exact] using hle

/-- What a range that passes looks like. -/
theorem isGatedRange_eq_ok {lower upper : Value K} (h : isGatedRange lower upper = .ok true) :
    ∃ s t, lower = .scalar s ∧ upper = .scalar t ∧ (Scalar.integer 0).lt s = true ∧
      s.le t = true ∧ t.lt (.real infinity none) = true := by
  rw [isGatedRange] at h
  obtain ⟨b₁, h₁, h'⟩ := bind_eq_ok.1 h
  cases b₁ with
  | false => cases h'
  | true =>
    simp only [Bool.not_true, Bool.false_eq_true, if_false] at h'
    obtain ⟨b₂, h₂, h₃⟩ := bind_eq_ok.1 h'
    cases b₂ with
    | false => cases h₃
    | true =>
      simp only [Bool.not_true, Bool.false_eq_true, if_false] at h₃
      obtain ⟨_, s, ⟨⟩, rfl, hs⟩ := inOrder_true_eq_ok h₁
      obtain ⟨_, t, ⟨⟩, rfl, hle⟩ := inOrder_false_eq_ok h₂
      obtain ⟨_, _, ⟨⟩, ⟨⟩, ht⟩ := inOrder_true_eq_ok h₃
      exact ⟨s, t, rfl, rfl, hs, hle, ht⟩

/-- **The lower end of a positive range whose upper end can be read can be read too.** -/
theorem toNumber_of_isGatedRange [Sensible K] {lower upper : Value K} {u : K}
    (h : isGatedRange lower upper = .ok true) (hu : upper.toNumber = .ok u) :
    ∃ l, lower.toNumber = .ok l := by
  obtain ⟨s, t, rfl, rfl, hs, hle, ht⟩ := isGatedRange_eq_ok h
  cases s with
  | truth b => exact ⟨_, rfl⟩
  | real x mark => exact ⟨_, rfl⟩
  | integer n =>
    have hn : 0 < n := by simpa [Scalar.lt, Scalar.exact] using hs
    exact toNumber_of_le hn hle ht hu

theorem eq_ofInt_of_toNumber {n : Int} {x : K} (h : (Value.int n).toNumber = .ok x) :
    x = ofInt n := by
  simp only [Value.toNumber, Value.int, Scalar.toNumber, Scalar.ofInt?] at h
  split at h
  next => exact (Except.ok.inj h).symm
  next => cases h

/-- A divisor that passes is positive. -/
theorem toDivisor_pos [Sensible K] {v : Value K} {d : Int} (h : toDivisor v = .ok d) : 0 < d := by
  unfold toDivisor at h
  split at h
  next b =>
    obtain ⟨_, -, h'⟩ := bind_eq_ok.1 h
    cases h'
  next s hs =>
    obtain ⟨x, hx, h'⟩ := bind_eq_ok.1 h
    split at h'
    next =>
      obtain ⟨_, -, h''⟩ := bind_eq_ok.1 h'
      cases h''
    next hc =>
      rw [Bool.or_eq_true, not_or, Bool.not_eq_true', Bool.not_eq_false, Bool.not_eq_true] at hc
      cases s with
      | truth b => exact absurd rfl (hs b)
      | integer n =>
        cases h'
        simp [Scalar.le, Scalar.lt, Scalar.eq, Scalar.exact] at hc
        omega
      | real y mark =>
        cases hx
        simp [Scalar.le, Scalar.lt, Scalar.eq, Scalar.exact] at hc
        simp only [Value.toInteger] at h'
        split at h'
        next n hn =>
          cases h'
          exact Sensible.truncate_pos hc.1 hc.2.1 hc.2.2 hn
        next => cases h'
  next =>
    obtain ⟨_, -, h'⟩ := bind_eq_ok.1 h
    cases h'

/-- A margin that is given is a number above zero. -/
theorem toMargin_eq_some {v : Value K} {s : Scalar K} (h : toMargin v = .ok (some s)) :
    v = .scalar s ∧ s.le (.integer 0) = false := by
  unfold toMargin at h
  split at h
  next => cases h
  next t =>
    split at h
    next => cases h
    next ht =>
      cases h
      exact ⟨rfl, by simpa using ht⟩
  next => cases h
  next => cases h
  next => cases h

/-! ## All or nothing -/

omit [Arithmetic K] in
/-- A reading whose result is not used. -/
theorem discard_lift_bind {α : Type} {r : Except Fault α} {x : Build K (Value K)} {m : Model K}
    {P : Value K → Model K → Prop} (hx : ∀ a, r = .ok a → AllOrNothing x m P) :
    AllOrNothing (discard (liftM r : Build K α) >>= fun _ => x) m P := by
  rcases r with e | a
  · exact .inr ⟨e, m, rfl, .refl m⟩
  · refine .bind (R := fun _ n => n = m) (.inl ⟨⟨⟩, m, rfl, rfl⟩) ?_ ?_
    · rintro _ _ rfl
      exact .refl _
    · rintro _ _ rfl
      exact hx a rfl

/-- The operands of a connective are read first. -/
theorem connective_bind {context : String} {args : List (Value K)}
    {f : List (Variable K) → Build K (Value K)} {m : Model K} {P : Value K → Model K → Prop}
    (hf : ∀ vs, Value.toBinaries context (Value.operands args) = .ok vs → AllOrNothing (f vs) m P) :
    AllOrNothing (connective context args >>= f) m P := by
  cases hn : (Value.operands args).isEmpty with
  | true =>
    simp only [connective, hn, if_true]
    exact .inr ⟨_, m, rfl, .refl m⟩
  | false =>
    simp only [connective, hn, Bool.false_eq_true, if_false]
    exact .lift_bind hf

/-- A connective hands a single operand back, and makes a new variable of several ones. -/
theorem connective_spec {context : String} {args : List (Value K)}
    {several : List (Variable K) → Build K (Variable K)}
    {rows : Variable K → List (Variable K) → List (Constraint K)} {m : Model K}
    (hseveral : ∀ vs, Succeeds (several vs) m fun z m' =>
      z.IsOf .binary ⟨zero, one⟩ ∧ m.Grown [z] (rows z vs) m') :
    AllOrNothing (connective context args >>= fun operands =>
      match operands with
      | [v] => pure (Value.var v)
      | vs => Value.var <$> several vs) m fun answer m' =>
      ∃ vs, Value.toBinaries context (Value.operands args) = .ok vs ∧
        ((∃ v, vs = [v] ∧ answer = .var v ∧ m' = m) ∨
          ∃ z, answer = .var z ∧ z.IsOf .binary ⟨zero, one⟩ ∧ m.Grown [z] (rows z vs) m') := by
  refine connective_bind fun vs hvs => ?_
  have made {P : Value K → Model K → Prop} (hP : ∀ z m', z.IsOf .binary ⟨zero, one⟩ ∧
      m.Grown [z] (rows z vs) m' → P (.var z) m') : AllOrNothing (Value.var <$> several vs) m P :=
    .inl (.map ((hseveral vs).mono hP))
  rcases vs with _ | ⟨v, _ | ⟨w, vs⟩⟩
  · exact made fun z m' ⟨hz, hg⟩ => ⟨_, hvs, .inr ⟨z, rfl, hz, hg⟩⟩
  · exact .inl (.pure ⟨_, hvs, .inl ⟨v, rfl, rfl, rfl⟩⟩)
  · exact made fun z m' ⟨hz, hg⟩ => ⟨_, hvs, .inr ⟨z, rfl, hz, hg⟩⟩

theorem perform_implication (x y : Value K) (m : Model K) :
    AllOrNothing (perform (.implication x y)) m fun answer m' =>
      (Model.Call.implication x y).Effect m m' answer := by
  refine .lift_bind fun v hv => .lift_bind fun w hw => .inl (.bind (implication_spec v w m) ?_)
  intro c n hg
  refine (lastRow_spec c n).mono ?_
  rintro answer _ ⟨ha, rfl⟩
  exact ⟨v, w, hv, hw, ha, hg⟩

theorem perform_cardinality (r : Relation) (bound : Value K) (args : List (Value K)) (m : Model K) :
    AllOrNothing (perform (.cardinality r bound args)) m fun answer m' =>
      (Model.Call.cardinality r bound args).Effect m m' answer := by
  have hread : AllOrNothing (cardinality r bound args) m fun _ m' => ∃ s vs k,
      bound = .scalar s ∧
      Value.toBinaries (cardinalityContext r) (Value.operands args) = .ok vs ∧
      s.toNumber = .ok k ∧ m.Grown [] [⟨LinearExpr.total vs, r, k, .none⟩] m' := by
    cases bound with
    | scalar s =>
      refine .lift_bind fun vs hvs => .lift_bind fun k hk => .inl ?_
      exact (register_spec rfl m).mono fun _ m' hg => ⟨s, vs, k, rfl, hvs, hk, hg⟩
    | _ => exact .throw _
  refine .bind_succeeds hread ?_
  rintro c n ⟨s, vs, k, hs, hvs, hk, hg⟩
  refine (lastRow_spec c n).mono ?_
  rintro answer _ ⟨ha, rfl⟩
  exact ⟨s, vs, k, hs, hvs, hk, ha, hg⟩

theorem perform_indicator (delta constraint active bigM : Value K) (m : Model K) :
    AllOrNothing (perform (.indicator delta constraint active bigM)) m fun answer m' =>
      (Model.Call.indicator delta constraint active bigM).Effect m m' answer := by
  refine .lift_bind fun v hv => .lift_bind fun on hon => .lift_bind fun c hc => ?_
  refine .lift_bind fun k hk => .bind_succeeds (indicator_spec v on c k m) ?_
  rintro rows n ⟨halves, hh, hg⟩
  refine .bind (lastRows_spec rows.length n) ?_
  rintro _ _ ⟨rfl, rfl⟩
  exact .pure ⟨v, on, c, k, halves, hv, hon, hc, hk, hh, handedOver_rows _ _, hg⟩

theorem extremum_spec {context : String}
    {step : BoundedExpr K → List (BoundedExpr K) → Option K → Build K (Variable K)}
    {parts : Model K → BoundedExpr K → List (BoundedExpr K) → Option K → Variable K → Model K →
      Prop}
    (hstep : ∀ first rest k m, AllOrNothing (step first rest k) m (parts m first rest k))
    (args bigM : Value K) (m : Model K) :
    AllOrNothing (extremum context step args bigM) m
      (ExtremumEffect context parts args bigM m) := by
  refine .lift_bind fun vs hvs => ?_
  have single : ∀ v : Value K, args.elements = .ok [v] →
      AllOrNothing (do
        let e ← v.toExpr
        equalTo context ⟨e, e.interval⟩) m (ExtremumEffect context parts args bigM m) := by
    intro v hv
    refine .lift_bind fun e he => (equalTo_spec context ⟨e, e.interval⟩ m).mono ?_
    rintro t m' ⟨ht, hg⟩
    exact .expression v e hv he ht hg
  rcases vs with _ | ⟨v, _ | ⟨w, vs⟩⟩
  · exact .throw _
  · cases v with
    | var v => exact .inl (.pure (.single hvs rfl))
    | _ => exact single _ hvs
  · simp only
    refine .mapM_lift_bind fun es hes => .mapM_lift_bind fun os hos => .lift_bind fun k hk => ?_
    cases os with
    | nil => exact .throw _
    | cons first rest =>
      exact (hstep first rest k m).mono fun t m' hp => .several _ es first rest k hvs hes hos hk hp

/-- **The truth of a constraint is all or nothing**, unless its margin is read late. -/
theorem reify_spec [Sensible K] {c : Constraint K} {k : Option K} {given : Option (Scalar K)}
    (hl : c.relation ≠ .eq → (∃ i, (if c.relation = .le then c.expr else
      c.expr.negate).finiteInterval "reify" k = .ok i) → ∀ s, given = some s →
      ∃ eps, s.toNumber = .ok eps)
    (m : Model K) :
    AllOrNothing (reify c k given) m fun delta m' =>
      delta.IsOf .binary ⟨zero, one⟩ ∧ TruthParts c k given m delta m' := by
  have hread : ∀ (e : LinearExpr K) (rhs : K), (∀ i, e.finiteInterval "reify" k = .ok i →
      ∀ s, given = some s → ∃ eps, s.toNumber = .ok eps) →
      AllOrNothing (reifyAtMost e rhs k given) m fun delta m' =>
        delta.IsOf .binary ⟨zero, one⟩ ∧ AtMostParts e rhs k given m delta m' := by
    intro e rhs he
    rcases hi : e.finiteInterval "reify" k with f | i
    · exact .inr ⟨f, m, exec_bind_of_error (by rw [hi]; rfl) _, .refl m⟩
    · cases given with
      | none => exact reifyAtMost_spec e rhs k rfl m
      | some s =>
        obtain ⟨eps, heps⟩ := he i hi s rfl
        have hm : chooseMargin e rhs (some s) = .ok eps := heps
        exact reifyAtMost_spec e rhs k hm m
  rw [reify]
  simp only [TruthParts]
  cases hr : c.relation with
  | le => exact hread _ _ fun i hi => hl (by simp [hr]) ⟨i, by simpa [hr] using hi⟩
  | ge => exact hread _ _ fun i hi => hl (by simp [hr]) ⟨i, by simpa [hr] using hi⟩
  | eq => exact reifyEquals_spec c.expr c.rhs k given m

variable [Sensible K]

theorem perform_conjunction (args : List (Value K)) (m : Model K) :
    AllOrNothing (perform (.conjunction args)) m fun answer m' =>
      (Model.Call.conjunction args).Effect m m' answer :=
  connective_spec fun vs => conjunction_spec vs m

theorem perform_disjunction (args : List (Value K)) (m : Model K) :
    AllOrNothing (perform (.disjunction args)) m fun answer m' =>
      (Model.Call.disjunction args).Effect m m' answer :=
  connective_spec fun vs => disjunction_spec vs m

theorem perform_negation (x : Value K) (m : Model K) :
    AllOrNothing (perform (.negation x)) m fun answer m' =>
      (Model.Call.negation x).Effect m m' answer := by
  refine .lift_bind fun v hv => .inl (.map ((negation_spec v m).mono ?_))
  rintro z m' ⟨hz, hg⟩
  exact ⟨v, z, hv, rfl, hz, hg⟩

theorem perform_exclusive (x y encoding : Value K) (m : Model K) :
    AllOrNothing (perform (.exclusive x y encoding)) m fun answer m' =>
      (Model.Call.exclusive x y encoding).Effect m m' answer := by
  refine .lift_bind fun c hc => .lift_bind fun v hv => .lift_bind fun w hw => ?_
  refine .inl (.map ((exclusive_spec c v w m).mono ?_))
  rintro z m' ⟨hz, hp⟩
  exact ⟨c, v, w, z, hc, hv, hw, rfl, hz, hp⟩

theorem perform_eitherOr (first second bigM : Value K) (m : Model K) :
    AllOrNothing (perform (.eitherOr first second bigM)) m fun answer m' =>
      (Model.Call.eitherOr first second bigM).Effect m m' answer := by
  refine .lift_bind fun c hc => .lift_bind fun k hk => discard_lift_bind fun hs _ => ?_
  refine .lift_bind fun d hd => .map ((eitherOr_spec c d k m).mono ?_)
  rintro delta m' ⟨hdelta, h₁, h₂, hh₁, hh₂, hg⟩
  exact ⟨c, d, k, h₁, h₂, delta, hc, hd, hk, hh₁, hh₂, rfl, hdelta, hg⟩

theorem perform_magnitude (expr bigM : Value K) (m : Model K) :
    AllOrNothing (perform (.magnitude expr bigM)) m fun answer m' =>
      (Model.Call.magnitude expr bigM).Effect m m' answer := by
  refine .map (.lift_bind fun e he => .lift_bind fun k hk => .lift_bind fun i hi => ?_)
  refine (magnitude_spec e (isNaN_neg_finiteInterval hi) m).mono ?_
  rintro t m' ⟨p, rfl, hp, hg⟩
  exact ⟨e, k, i, p, he, hk, hi, rfl, hp, hg⟩

theorem perform_maximum (exprs bigM : Value K) (m : Model K) :
    AllOrNothing (perform (.maximum exprs bigM)) m fun answer m' =>
      (Model.Call.maximum exprs bigM).Effect m m' answer :=
  .map ((extremum_spec maximum_spec exprs bigM m).mono fun t _ h => ⟨t, rfl, h⟩)

theorem perform_minimum (exprs bigM : Value K) (m : Model K) :
    AllOrNothing (perform (.minimum exprs bigM)) m fun answer m' =>
      (Model.Call.minimum exprs bigM).Effect m m' answer :=
  .map ((extremum_spec minimum_spec exprs bigM m).mono fun t _ h => ⟨t, rfl, h⟩)

theorem perform_product (x y bigM : Value K) (m : Model K) :
    AllOrNothing (perform (.product x y bigM)) m fun answer m' =>
      (Model.Call.product x y bigM).Effect m m' answer := by
  have gated : ∀ (delta : Variable K) (factor : Value K),
      ((x.toBinary "and_" = .ok delta ∧ factor = y) ∨
        (y.toBinary "and_" = .ok delta ∧ factor = x)) →
      AllOrNothing (do
        let e ← factor.toExpr
        let bounds ← e.finiteInterval "product" (← bigM.toNumber?)
        gate delta e bounds) m (Model.Call.ProductEffect x y bigM m) := by
    intro delta factor hd
    refine .lift_bind fun e he => .lift_bind fun k hk => .lift_bind fun i hi => ?_
    refine (gate_spec delta e i m).mono ?_
    rintro w m' ⟨hw, hg⟩
    exact .gated delta factor e k i hd he hk hi hw hg
  refine .map (AllOrNothing.mono (R := Model.Call.ProductEffect x y bigM m) ?_
    fun w _ h => ⟨w, rfl, h⟩)
  rw [productOf]
  rcases hx : x.toBinary "and_" with f | v <;> rcases hy : y.toBinary "and_" with g | w
  · exact .throw _
  · exact gated w x (.inr ⟨hy, rfl⟩)
  · exact gated v y (.inl ⟨hx, rfl⟩)
  · refine .inl ((conjunction_spec [v, w] m).mono ?_)
    rintro z m' ⟨hz, hg⟩
    exact .binary v w hx hy hz hg

theorem perform_semiContinuous (lower upper name : Value K) (m : Model K) :
    AllOrNothing (perform (.semiContinuous lower upper name)) m fun answer m' =>
      (Model.Call.semiContinuous lower upper name).Effect m m' answer := by
  refine .map (.lift_bind fun b hb => ?_)
  cases b with
  | false => exact .lift_bind fun s _ => .lift_bind fun t _ => .throw _
  | true =>
    refine .bind (requireNewName_spec name m) (fun _ n h => h.1 ▸ .refl m) ?_
    rintro _ k ⟨rfl, -⟩
    refine .bind_succeeds (addVariable_spec _ _ upper name k) ?_
    rintro x n ⟨hg, d, hd, hx⟩
    cases hd
    obtain ⟨⟨⟩, -⟩ | ⟨-, l₀, u, hl₀, hu, hx⟩ := hx
    obtain rfl := eq_ofInt_of_toNumber hl₀
    obtain ⟨l, hl⟩ := toNumber_of_isGatedRange hb hu
    refine .bind (selector_spec "semi_on" n) ?_
    rintro delta n' ⟨-, hdelta, hg'⟩
    rw [hl, hu]
    refine .lift_bind (.lift_bind ?_)
    refine .bind (discard_registerAll_spec ?_ (hg.trans hg')) fun _ m' hg'' => ?_
    · simp [Gate.rangeRows, atMost, atLeast]
    · exact .pure ⟨l, u, x, delta, hl, hu, hb, rfl, hx, hdelta, hg''⟩

theorem perform_divide (expr divisor : Value K) (m : Model K) :
    AllOrNothing (perform (.divide expr divisor)) m fun answer m' =>
      (Model.Call.divide expr divisor).Effect m m' answer := by
  have hread : AllOrNothing (divideOf expr divisor) m fun r m' => ∃ e d, expr.toExpr = .ok e ∧
      toDivisor divisor = .ok d ∧ lt e.interval.lower zero = false ∧
      isFinite e.interval.upper = true ∧ DivisionBounds e d r ∧
      m.Grown [r.quotient, r.remainder] [r.row e d] m' := by
    refine .lift_bind fun d hd => .lift_bind fun e he => ?_
    exact (divide_spec e (toDivisor_pos hd) m).mono fun r m' h => ⟨e, d, he, hd, h⟩
  refine .bind_succeeds hread ?_
  rintro r m' ⟨e, d, he, hd, hlo, hup, hr, hg⟩
  exact .pure ⟨e, d, r, he, hd, rfl, hlo, hup, hr, hg⟩

theorem perform_reify {constraint bigM margin : Value K}
    (hl : ¬(Model.Call.reify constraint bigM margin).IsLate) (m : Model K) :
    AllOrNothing (perform (.reify constraint bigM margin)) m fun answer m' =>
      (Model.Call.reify constraint bigM margin).Effect m m' answer := by
  refine .map (.lift_bind fun c hc => .lift_bind fun given hgiven => .lift_bind fun k hk => ?_)
  refine (reify_spec ?_ m).mono ?_
  · rintro hne ⟨i, hi⟩ s rfl
    obtain ⟨rfl, hs⟩ := toMargin_eq_some hgiven
    obtain ⟨j, rfl⟩ := Value.toConstraint_eq_ok hc
    cases s with
    | truth b => exact ⟨_, rfl⟩
    | real x mark => exact ⟨_, rfl⟩
    | integer n =>
      have hn : 0 < n := by
        simp [Scalar.le, Scalar.lt, Scalar.eq, Scalar.exact] at hs
        omega
      cases hf : isFinite (ofInt n : K) with
      | false => exact absurd ⟨hne, hn, hf, k, i, hk, hi⟩ hl
      | true => exact ⟨ofInt n, by simp [Scalar.toNumber, Scalar.ofInt?, hf]⟩
  · rintro delta m' ⟨hdelta, hp⟩
    exact ⟨c, given, k, delta, hc, hgiven, hk, rfl, hdelta, hp⟩

/-- **A call of a reformulation is all or nothing**, unless its margin turns out to be out of range
after the first row of an inequality. -/
theorem perform_spec {c : Model.Call K} (hc : c.isReformulation = true) (hl : ¬c.IsLate)
    (m : Model K) : AllOrNothing (perform c) m fun answer m' => c.Effect m m' answer := by
  cases c with
  | addVariable | addVariables | addConstraint | setObjective => cases hc
  | conjunction args => exact perform_conjunction args m
  | disjunction args => exact perform_disjunction args m
  | negation x => exact perform_negation x m
  | exclusive x y encoding => exact perform_exclusive x y encoding m
  | implication x y => exact perform_implication x y m
  | cardinality r bound args => exact perform_cardinality r bound args m
  | indicator delta constraint active bigM => exact perform_indicator delta constraint active bigM m
  | eitherOr first second bigM => exact perform_eitherOr first second bigM m
  | magnitude expr bigM => exact perform_magnitude expr bigM m
  | maximum exprs bigM => exact perform_maximum exprs bigM m
  | minimum exprs bigM => exact perform_minimum exprs bigM m
  | product x y bigM => exact perform_product x y bigM m
  | semiContinuous lower upper name => exact perform_semiContinuous lower upper name m
  | divide expr divisor => exact perform_divide expr divisor m
  | reify constraint bigM margin => exact perform_reify hl m

end Build

end MixedInteger
