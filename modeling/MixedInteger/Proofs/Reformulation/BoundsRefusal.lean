import MixedInteger.Proofs.Reformulation.DivisionCompletion
import MixedInteger.Proofs.Reformulation.LogicRefusal
import MixedInteger.Proofs.Reformulation.MagnitudeCompletion
import MixedInteger.Proofs.Reformulation.PiecewiseCompletion
import MixedInteger.Proofs.Reformulation.SwitchCompletion
import MixedInteger.Proofs.Value.Calculation

/-!
# Which reformulations are refused for infinite bounds

The constants of a reformulation are derived from bounds, which have to be finite.  If they are, the
bounds of the variables that are created come from them and are in order: the magnitude, the hull of
several expressions and the product with a binary variable have proper bounds.

## What is here

* `Build.indicator_failsIf`, `Build.eitherOr_failsIf`, `Build.reify_failsIf` — calls on constraints.
* `Build.magnitude_failsIf`, `Build.product_failsIf`, `Build.extremum_failsIf` — calls on expressions.
* `Build.isProper_hull` — the bounds of a maximum or minimum are in order.
-/

set_option autoImplicit false

namespace MixedInteger

open Arithmetic Extended

variable {F : Type} [Field F] [LinearOrder F] [FloorRing F] [ToString F] [Extended.Tolerance F]
  {m : Model (Extended F)}

namespace Build

/-! ## Constraints -/

section Bounds

variable {x : Value (Extended F)} {e : LinearExpr (Extended F)} {c d : Constraint (Extended F)}
  {i j : Option ConstraintId}

theorem exists_requireFinite_eq_error (h : e.interval.isFinite = false) (context : String) :
    ∃ f, e.interval.requireFinite context = .error f ∧ f.kind = .unboundedBigM :=
  ⟨_, if_neg (Bool.eq_false_iff.1 h), rfl⟩

/-- Bounds that are finite are derived, and others are the reason. -/
theorem finiteInterval_eq_ok (h : e.interval.isFinite = true) (context : String) :
    e.finiteInterval context none = .ok e.interval := if_pos h

theorem exists_halves (h : c.expr.interval.isFinite = true) (context : String) :
    ∃ halves, c.halves context none = .ok halves := by
  rw [Constraint.halves, finiteInterval_eq_ok h]
  exact ⟨_, rfl⟩

theorem exists_halves_eq_error (h : c.expr.interval.isFinite = false) (context : String) :
    ∃ f, c.halves context none = .error f ∧ f.kind = .unboundedBigM := by
  obtain ⟨f, hf, hk⟩ := exists_requireFinite_eq_error h context
  refine ⟨f, ?_, hk⟩
  rw [Constraint.halves, LinearExpr.finiteInterval, hf]
  rfl

theorem isUnboundedConstraint_iff :
    (Value.constraint c i).IsUnboundedConstraint ↔ c.expr.interval.isFinite = false := by
  constructor
  · rintro ⟨d, j, heq, h⟩
    cases heq
    exact h
  · exact fun h => ⟨c, i, rfl, h⟩

/-- A number that is read as the value of a binary variable is zero or one. -/
theorem toActive_cases {s : Scalar (Extended F)} (hs : (Value.scalar s).IsExact) :
    ((Value.scalar s).IsBit ∧ ∃ on, toActive (.scalar s) = .ok on) ∨
      (¬(Value.scalar s).IsBit ∧ ∃ f, toActive (.scalar s) = .error f ∧ f.kind = .value) := by
  have hbit : (Value.scalar s).IsBit ↔ s.number = 0 ∨ s.number = 1 := by
    simp [Value.IsBit]
  by_cases h₀ : s.number = 0
  · exact .inl ⟨hbit.2 (.inl h₀), false, toActive_eq_ok hs h₀⟩
  · by_cases h₁ : s.number = 1
    · exact .inl ⟨hbit.2 (.inr h₁), true, toActive_eq_ok hs h₁⟩
    · refine .inr ⟨fun h => (hbit.1 h).elim h₀ h₁, .inactiveValue s.text, ?_, rfl⟩
      have heq : ∀ n : Int, s.number ≠ n → (Value.scalar s).isEqual (.int n) = .ok false := by
        intro n hn
        refine congrArg Except.ok (Bool.eq_false_iff.2 fun h => hn ?_)
        exact (Scalar.eq_iff hs (t := .integer n) trivial).1 h
      rw [toActive, heq 0 (by simpa using h₀), heq 1 (by simpa using h₁)]
      rfl

theorem indicator_failsIf {delta active : Value (Extended F)} (hdelta : delta.IsOrdinary)
    (hactive : active.IsNumber) :
    FailsIf (perform (.indicator delta (.constraint c i) active .none)) m
      ((Model.Call.indicator delta (.constraint c i) active .none).Refuses m) := by
  obtain ⟨s, rfl, hs⟩ := hactive
  refine toBinary_failsIf hdelta (fun hb k => by simp [Model.Call.Refuses, hb]) ?_
  rintro v rfl hv
  have hb : (Value.var v).isBinary = true := hv
  obtain ⟨hbit, on, hon⟩ | ⟨hbit, hread⟩ := toActive_cases hs
  · have hrefuses : ∀ k, (Model.Call.indicator (.var v) (.constraint c i) (.scalar s) .none).Refuses
        m k ↔ c.expr.interval.isFinite = false ∧ k = .unboundedBigM := by
      intro k
      simp [Model.Call.Refuses, hb, hbit, isUnboundedConstraint_iff]
    rw [hon, Value.toConstraint, Value.toNumber?]
    refine .lift_bind (.lift_bind (.lift_bind ?_))
    refine failsIf_of_reason hrefuses (fun h => ?_) fun h => ?_
    · exact .bind (.bind (.lift (exists_halves_eq_error h "add_indicator")))
    · obtain ⟨halves, hh⟩ := exists_halves (eq_true_of_ne_false h) "add_indicator"
      refine ⟨fun _ _ => True, ?_⟩
      refine .bind (indicator_succeeds v on hh m) fun rows n _ => ?_
      exact .bind (lastRows_spec rows.length n) fun _ _ _ => .pure trivial
  · refine (FailsWith.bind (.lift hread)).failsIf fun k => ?_
    simp [Model.Call.Refuses, hb, hbit]

variable [IsStrictOrderedRing F]

theorem eitherOr_failsIf :
    FailsIf (perform (.eitherOr (.constraint c i) (.constraint d j) .none)) m
      ((Model.Call.eitherOr (.constraint c i) (.constraint d j) .none).Refuses m) := by
  have hrefuses : ∀ k, (Model.Call.eitherOr (.constraint c i) (.constraint d j) .none).Refuses m k ↔
      (c.expr.interval.isFinite = false ∨ d.expr.interval.isFinite = false) ∧
        k = .unboundedBigM := by
    intro k
    simp [Model.Call.Refuses, isUnboundedConstraint_iff]
  refine failsIf_of_reason hrefuses (fun h => ?_) fun h => ?_
  · -- The bounds of the first constraint are looked at before those of the second one.
    by_cases hc : c.expr.interval.isFinite = false
    · refine .lift_bind (.lift_bind (.bind (.map ?_)))
      exact .lift (exists_halves_eq_error hc "add_either_or")
    · have hd := h.resolve_left hc
      obtain ⟨first, hfirst⟩ := exists_halves (eq_true_of_ne_false hc) "add_either_or"
      have hread : exec (discard (liftM (c.halves "add_either_or" none) :
          Build (Extended F) (List (Relation × Extended F)))) m = (.ok ⟨⟩, m) := by
        rw [hfirst]
        rfl
      refine .lift_bind (.lift_bind (.bind_of_ok hread (.lift_bind (.map ?_))))
      rw [eitherOr, hfirst]
      exact .lift_bind (.bind (.lift (exists_halves_eq_error hd "add_either_or")))
  · obtain ⟨hc, hd⟩ := not_or.1 h
    obtain ⟨first, hfirst⟩ := exists_halves (eq_true_of_ne_false hc) "add_either_or"
    obtain ⟨second, hsecond⟩ := exists_halves (eq_true_of_ne_false hd) "add_either_or"
    exact ⟨_, perform_eitherOr_succeeds rfl hfirst hsecond m⟩

theorem reify_failsIf (hc : c.expr.IsOrdinary) :
    FailsIf (perform (.reify (.constraint c i) .none .none)) m
      ((Model.Call.reify (.constraint c i) .none .none).Refuses m) := by
  have := hc.isFinite
  have hturned := Constraint.isFinite_interval_turned
    (LinearExpr.isRetained_of_isKept hc.isOver.kept)
  refine failsIf_of_reason (fun k => and_congr_left' isUnboundedConstraint_iff) (fun h => ?_)
    fun h => ?_
  · have hread := exists_requireFinite_eq_error (hturned.trans h) "reify"
    refine .map (.lift_bind (.lift_bind (.lift_bind ?_)))
    -- A lower bound is turned into an upper one before its bounds are looked at.
    rw [← reify_turned, reify]
    cases hr : c.turned.relation with
    | le => exact .bind (.lift hread)
    | ge => exact absurd hr c.relation_turned_ne
    | eq => exact .bind (.lift hread)
  · exact ⟨_, perform_reify_succeeds rfl rfl
      (finiteInterval_eq_ok (hturned.trans (eq_true_of_ne_false h)) "reify") rfl m⟩

/-! ## Expressions -/

omit [IsStrictOrderedRing F] in
theorem isUnbounded_iff {i : Interval (Extended F)} (hi : x.intervalOf = .ok i) :
    x.IsUnbounded ↔ i.isFinite = false := by
  constructor
  · rintro ⟨_, hi', h⟩
    cases hi.symm.trans hi'
    exact h
  · exact fun h => ⟨i, hi, h⟩

omit [IsStrictOrderedRing F] in
theorem isNaN_upper_of_isFinite {i : Interval (Extended F)} (h : i.isFinite = true) :
    isNaN i.upper = false := by
  obtain ⟨l, u, rfl⟩ := Interval.exists_of_isFinite h
  rfl

variable (ht : (Tolerance.tolerance : F) < 1)
include ht

theorem magnitude_failsIf (hx : x.IsOrdinary) :
    FailsIf (perform (.magnitude x .none)) m ((Model.Call.magnitude x .none).Refuses m) := by
  obtain ⟨e, he, hi, -⟩ := hx.exists_expr ht
  refine .map (failsIf_of_reason (fun k => and_congr_left' (isUnbounded_iff hi)) (fun h => ?_)
    fun h => ?_)
  · rw [magnitudeOf, he]
    exact .lift_bind (.lift_bind (.bind (.lift (exists_requireFinite_eq_error h "abs"))))
  · have hfinite := eq_true_of_ne_false h
    exact ⟨_, magnitudeOf_succeeds he rfl (finiteInterval_eq_ok hfinite "abs")
      (isNaN_upper_of_isFinite hfinite) m⟩

/-- The product with a binary first factor. -/
theorem gated_failsIf {y : Value (Extended F)} (hx : x.isBinary = true) (hy : y.IsOrdinary)
    (hyb : y.isBinary = false) :
    FailsIf (productOf x y .none) m fun k => y.IsUnbounded ∧ k = .unboundedBigM := by
  obtain ⟨v, rfl, hv⟩ := Value.exists_of_isBinary hx
  obtain ⟨e, he, hi, -⟩ := hy.exists_expr ht
  refine failsIf_of_reason (fun k => and_congr_left' (isUnbounded_iff hi)) (fun h => ?_) fun h => ?_
  · obtain ⟨f, hf⟩ := Value.exists_toBinary_eq_error hyb "and_"
    rw [productOf, hf, Value.toBinary_of_isBinary hv]
    simp only [he]
    exact .lift_bind (.lift_bind (.bind (.lift (exists_requireFinite_eq_error h "product"))))
  · have hfinite := eq_true_of_ne_false h
    obtain ⟨l, u, hlu⟩ := Interval.exists_of_isFinite hfinite
    -- The product may be zero, so that its bounds include zero and cannot cross.
    have hproper : (⟨smaller e.interval.lower zero, larger e.interval.upper zero⟩ :
        Interval (Extended F)).isProper = true := by
      rw [hlu, zero_eq, smaller_finite, larger_finite, Interval.isProper_finite]
      exact (min_le_right l 0).trans (le_max_right u 0)
    exact ⟨_, productOf_succeeds hv hyb he rfl (finiteInterval_eq_ok hfinite "product")
      (gate_succeeds v e hproper m)⟩

theorem product_failsIf {y : Value (Extended F)} (hx : x.IsOrdinary) (hy : y.IsOrdinary) :
    FailsIf (perform (.product x y .none)) m ((Model.Call.product x y .none).Refuses m) := by
  refine FailsIf.map fun k => ?_
  -- With one binary factor the other one is gated, and two of them make a conjunction.
  cases hxb : x.isBinary <;> cases hyb : y.isBinary
  · obtain ⟨f, hf⟩ := Value.exists_toBinary_eq_error hxb "and_"
    obtain ⟨f', hf'⟩ := Value.exists_toBinary_eq_error hyb "and_"
    refine FailsWith.failsIf (k := .unsupportedProduct) ?_ (fun k => ?_) k
    · rw [productOf, hf, hf']
      exact .throw .productNotBinary
    · simp [Model.Call.Refuses, hxb, hyb]
  · rw [productOf_comm hxb hyb]
    refine (gated_failsIf ht hyb hx hxb k).trans ?_
    simp [Model.Call.Refuses, hxb, hyb]
  · refine (gated_failsIf ht hxb hy hyb k).trans ?_
    simp [Model.Call.Refuses, hxb, hyb]
  · obtain ⟨v, rfl, hv⟩ := Value.exists_of_isBinary hxb
    obtain ⟨w, rfl, hw⟩ := Value.exists_of_isBinary hyb
    rw [productOf_binary hv hw]
    refine (conjunction_spec [v, w] m).failsIf (fun k => ?_) k
    simp [Model.Call.Refuses, hxb, hyb]

end Bounds

/-! ## Several expressions -/

section Extremum

variable {context : String} {step : BoundedExpr (Extended F) → List (BoundedExpr (Extended F)) →
    Option (Extended F) → Build (Extended F) (Variable (Extended F))}
  {exprs : Value (Extended F)} {xs : List (Value (Extended F))} {es : List (LinearExpr (Extended F))}

/-- Finite bounds that are in order have a hull that is. -/
theorem isProper_hull {first : BoundedExpr (Extended F)} {rest : List (BoundedExpr (Extended F))}
    (hfinite : ∀ o ∈ first :: rest, o.bounds.isFinite = true) (hfirst : first.bounds.isProper = true) :
    (Extremum.hull first.bounds (rest.map BoundedExpr.bounds)).isProper = true := by
  obtain ⟨l, u, hlu, hbounds⟩ := Extremum.hull_finite fun o ho =>
    Interval.exists_of_isFinite (hfinite o ho)
  obtain ⟨l', u', hlu', hl, hu⟩ := hbounds first List.mem_cons_self
  rw [hlu', Interval.isProper_finite] at hfirst
  rw [hlu, Interval.isProper_finite]
  exact hl.trans (hfirst.trans hu)

/-- An operand with an infinite bound is the reason. -/
theorem exists_boundOperands_eq_error (h : ∃ e ∈ es, e.interval.isFinite = false)
    (context : String) :
    ∃ f, es.mapM (boundOperand context false) = .error f ∧ f.kind = .unboundedBigM := by
  refine exists_mapM_eq_error (fun e _ he => ?_) (fun e _ he => ?_) h
  · exact ⟨_, boundOperand_eq_ok fun _ => he⟩
  · obtain ⟨f, hf, hk⟩ := exists_requireFinite_eq_error he context
    exact ⟨f, by rw [boundOperand, hf]; rfl, hk⟩

/-- Several operands of which one has an infinite bound are refused. -/
theorem extremum_failsWith (hxs : exprs.elements = .ok xs) (hlen : 2 ≤ xs.length)
    (hes : xs.mapM (fun x => x.toExpr) = .ok es) (h : ∃ e ∈ es, e.interval.isFinite = false) :
    FailsWith (extremum context step exprs .none) m .unboundedBigM := by
  obtain ⟨f, hf, hk⟩ := exists_boundOperands_eq_error h context
  rcases xs with _ | ⟨x, _ | ⟨y, xs⟩⟩
  · exact absurd hlen (by simp)
  · exact absurd hlen (by simp)
  · rw [extremum, hxs]
    refine .lift_bind ?_
    simp only
    refine .bind_of_ok (n := m) (a := es) ?_ (.bind ⟨f, m, ?_, hk⟩)
    · rw [exec_mapM_lift, hes]
    · rw [exec_mapM_lift, hf]

variable [IsStrictOrderedRing F]

/-- A variable that equals one expression is created. -/
theorem equalTo_succeeds (stem : String) {e : LinearExpr (Extended F)} (he : e.IsOrdinary) :
    Succeeds (equalTo stem ⟨e, e.interval⟩) m fun _ _ => True := by
  refine .bind (auxiliary_succeeds stem (d := .continuous) m he.isProper_interval) ?_
  rintro t n ⟨-, -, hg⟩
  exact .bind (discard_register_spec rfl hg) fun _ _ _ => .pure trivial

variable (ht : (Tolerance.tolerance : F) < 1)
  (hstep : ∀ first rest, (Extremum.hull first.bounds (rest.map BoundedExpr.bounds)).isProper = true →
    Succeeds (step first rest none) m fun _ _ => True)
  (hxs : exprs.elements = .ok xs) (hord : ∀ x ∈ xs, x.IsOrdinary)
include ht hxs hord

omit hstep in
/-- A single operand is never refused, whatever its bounds are. -/
theorem extremum_single_succeeds {x : Value (Extended F)} (hx : xs = [x]) :
    Succeeds (extremum context step exprs .none) m fun _ _ => True := by
  subst hx
  have hx := hord x List.mem_cons_self
  obtain ⟨e, he, -, hord⟩ := hx.exists_expr ht
  have single : Succeeds (do
      let e ← x.toExpr
      equalTo context ⟨e, e.interval⟩) m fun _ _ => True := by
    rw [he]
    exact .lift_bind (equalTo_succeeds context hord)
  rw [extremum, hxs]
  refine .lift_bind ?_
  cases x with
  | var v => exact .pure trivial
  | scalar _ | expr _ => exact single
  | _ => exact hx.elim

include hstep

/-- Several operands are refused exactly if one of them has an infinite bound: otherwise the hull of
their bounds is proper. -/
theorem extremum_several_failsIf (hlen : 2 ≤ xs.length) :
    FailsIf (extremum context step exprs .none) m fun k =>
      (∃ x ∈ xs, x.IsUnbounded) ∧ k = .unboundedBigM := by
  obtain ⟨es, hread⟩ := exists_forall₂ fun x hx => (hord x hx).exists_expr ht
  have hes := mapM_eq_ok_of_forall₂ (hread.imp fun _ _ h => h.1)
  refine failsIf_of_reason (fun k => Iff.rfl) (fun h => ?_) fun h => ?_
  · refine extremum_failsWith hxs hlen hes ?_
    obtain ⟨x, hx, h⟩ := h
    obtain ⟨e, he, -, hi, -⟩ := exists_of_forall₂ hread.flip hx
    exact ⟨e, he, (isUnbounded_iff hi).1 h⟩
  · have hbounds : ∀ e ∈ es, e.interval.isFinite = true ∧ e.interval.isProper = true := by
      intro e he
      obtain ⟨x, hx, -, hi, hordinary⟩ := exists_of_forall₂ hread he
      refine ⟨eq_true_of_ne_false fun hinfinite => ?_, hordinary.isProper_interval⟩
      exact h ⟨x, hx, (isUnbounded_iff hi).2 hinfinite⟩
    obtain ⟨first, rest, hos⟩ : ∃ first rest, es.map BoundedExpr.ofExpr = first :: rest := by
      refine List.exists_cons_of_length_pos ?_
      rw [List.length_map, ← hread.length_eq]
      exact Nat.lt_of_lt_of_le Nat.zero_lt_two hlen
    have hoperands : ∀ o ∈ first :: rest, o.bounds.isFinite = true ∧ o.bounds.isProper = true := by
      rw [← hos]
      exact List.forall_mem_map.2 hbounds
    have hproper := isProper_hull (fun o ho => (hoperands o ho).1)
      (hoperands first List.mem_cons_self).2
    exact ⟨_, extremum_succeeds hxs hlen hes (fun _ e he => (hbounds e he).1) hos rfl
      (hstep first rest hproper)⟩

/-- A maximum or minimum is refused without operands, and for several ones if a bound is infinite. -/
theorem extremum_failsIf : FailsIf (extremum context step exprs .none) m fun k =>
    (xs = [] ∧ k = .invalidArity) ∨
      (2 ≤ xs.length ∧ (∃ x ∈ xs, x.IsUnbounded) ∧ k = .unboundedBigM) := by
  rcases xs with _ | ⟨x, _ | ⟨y, xs⟩⟩
  · refine FailsWith.failsIf (k := .invalidArity) ?_ fun k => by simp
    rw [extremum, hxs]
    exact .lift_bind (.throw (.noOperands context))
  · exact (extremum_single_succeeds ht hxs hord rfl).failsIf fun k => by simp
  · refine fun k => (extremum_several_failsIf ht hstep hxs hord (by simp) k).trans ?_
    simp

omit hstep

theorem perform_extremum_failsIf (d : Direction) :
    FailsIf (perform (d.extremum exprs .none)) m ((d.extremum exprs .none).Refuses m) := by
  have hrefuses : ∀ k, (xs = [] ∧ k = .invalidArity) ∨
      (2 ≤ xs.length ∧ (∃ x ∈ xs, x.IsUnbounded) ∧ k = .unboundedBigM) ↔
      (d.extremum exprs .none).Refuses m k := by
    intro k
    cases d <;> simp [Direction.extremum, Model.Call.Refuses, hxs]
  refine fun k => Iff.trans ?_ (hrefuses k)
  cases d with
  | maximize =>
    refine FailsIf.map (extremum_failsIf ht (fun first rest h => ?_) hxs hord) k
    exact (piecewise_succeeds nameless_maximumRows h m).mono fun _ _ _ => trivial
  | minimize =>
    refine FailsIf.map (extremum_failsIf ht (fun first rest h => ?_) hxs hord) k
    exact (piecewise_succeeds nameless_minimumRows h m).mono fun _ _ _ => trivial

end Extremum

end Build

end MixedInteger
