import MixedInteger.Proofs.Model.Registry
import MixedInteger.Proofs.Reformulation.BoundsRefusal
import MixedInteger.Proofs.Reformulation.RangeCompletion

/-!
# Which reformulations are refused

A reformulation of ordinary operands that leaves its constants to be derived fails for one of its
documented reasons, or it succeeds.  Nothing else can go wrong: the bounds that are derived for an
auxiliary variable are numbers and never cross, and its name is never in use.

## What is here

* `Build.semiContinuous_failsIf`, `Build.divide_failsIf` — calls with numbers that have to be in range.
* `Build.requireNewName_auxiliaryName` — the name of an auxiliary variable is free.
* `Build.perform_fails_iff` — **a reformulation fails exactly for one of these reasons**, with a fault
  of the kind that belongs to it, and succeeds otherwise.
-/

set_option autoImplicit false

namespace MixedInteger

open Arithmetic Extended

variable {F : Type} [Field F] [LinearOrder F] [FloorRing F] [ToString F] [Extended.Tolerance F]
  {m : Model (Extended F)}

namespace Build

/-! ## Names -/

section Names

variable {K : Type} {name : Value K}

theorem isKey_of_isName (hname : name = .none ∨ ∃ s, name = .text s) : name.isKey = true := by
  obtain rfl | ⟨s, rfl⟩ := hname <;> rfl

variable [Arithmetic K]

/-- A name that is in use does not pass. -/
theorem requireNewName_failsWith {m : Model K} (hname : name = .none ∨ ∃ s, name = .text s)
    (htaken : (m.find? name).isSome = true) : FailsWith (requireNewName name) m .value := by
  obtain ⟨s, hs⟩ : ∃ s, name.display = .ok s := by
    obtain rfl | ⟨s, rfl⟩ := hname <;> exact ⟨_, rfl⟩
  refine ⟨.variableNameTaken s, m, ?_, rfl⟩
  simp [requireNewName, isKey_of_isName hname, exec_bind, htaken, hs]

/-- **The name of an auxiliary variable is never in use**, so that no reformulation can fail at it. -/
theorem requireNewName_auxiliaryName (stem : String) (m : Model K) :
    Succeeds (do
      let s ← auxiliaryName stem
      requireNewName (.text s)) m fun _ n => m.SameContent n := by
  refine .bind (auxiliaryName_spec stem m) ?_
  rintro s n ⟨hsame, hs⟩
  exact ⟨⟨⟩, n, exec_requireNewName rfl (Model.find?_text hs), hsame⟩

end Names

/-! ## Ranges -/

section Ranges

variable {s t : Scalar (Extended F)}

/-- A number that is read as a finite one is one. -/
theorem isExact_of_toNumber {x : F} (h : s.toNumber = .ok (.finite x)) :
    (Value.scalar s).IsExact ∧ s.number = x := by
  have hs : (Value.scalar s).IsExact := by
    cases s with
    | real y mark =>
      cases h
      exact ⟨x, rfl⟩
    | _ => trivial
  exact ⟨hs, finite.inj (Except.ok.inj (hs.toNumber_eq_ok.symm.trans h))⟩

/-- Numbers that pass the check of a range are finite: what is positive but infinite is above all
others, and what is infinite but below infinity is below them. -/
theorem isExact_of_isGatedRange (hs : (Scalar.integer 0).lt s = true) (hle : s.le t = true)
    (ht : t.lt (.real infinity none) = true) :
    (Value.scalar s).IsExact ∧ (Value.scalar t).IsExact := by
  have hs : (Value.scalar s).IsExact ∨ s.exact = .inr (.infinite false) := by
    cases s with
    | real x mark =>
      rcases x with _ | n | x
      · cases hs
      · cases n
        · exact .inr rfl
        · cases hs
      · exact .inl ⟨x, rfl⟩
    | _ => exact .inl trivial
  have ht : (Value.scalar t).IsExact ∨ t.exact = .inr (.infinite true) := by
    cases t with
    | real x mark =>
      rcases x with _ | n | x
      · cases ht
      · cases n
        · cases ht
        · exact .inr rfl
      · exact .inl ⟨x, rfl⟩
    | _ => exact .inl trivial
  rw [Scalar.le, Scalar.lt, Scalar.eq] at hle
  rcases hs with hs | hs <;> rcases ht with ht | ht
  · exact ⟨hs, ht⟩
  · obtain ⟨n, hs, -⟩ | ⟨x, hs, -⟩ := Scalar.exact_cases hs <;> rw [hs, ht] at hle <;> cases hle
  · obtain ⟨n, ht, -⟩ | ⟨x, ht, -⟩ := Scalar.exact_cases ht <;> rw [hs, ht] at hle <;> cases hle
  · rw [hs, ht] at hle
    cases hle

variable [IsStrictOrderedRing F]

/-- The check of a range says whether two numbers are the ends of one. -/
theorem isGatedRange_cases (s t : Scalar (Extended F)) :
    ((Value.scalar s).AreEnds (.scalar t) ∧ isGatedRange (.scalar s) (.scalar t) = .ok true) ∨
      (¬(Value.scalar s).AreEnds (.scalar t) ∧
        isGatedRange (.scalar s) (.scalar t) = .ok false) := by
  have hread : ∃ b, isGatedRange (.scalar s) (.scalar t) = .ok b := by
    simp only [isGatedRange, inOrder, Value.int, Value.real]
    cases (Scalar.integer 0).lt s
    · exact ⟨false, rfl⟩
    · cases s.le t
      · exact ⟨false, rfl⟩
      · exact ⟨_, rfl⟩
  obtain ⟨b, hb⟩ := hread
  cases b with
  | true =>
    obtain ⟨_, _, ⟨⟩, ⟨⟩, hpos, hle, hlt⟩ := isGatedRange_eq_ok hb
    obtain ⟨hs, ht⟩ := isExact_of_isGatedRange hpos hle hlt
    rw [Scalar.lt_iff (s := .integer 0) trivial hs, Scalar.number, Int.cast_zero] at hpos
    exact .inl ⟨⟨s.number, t.number, hs.toNumber_eq_ok, ht.toNumber_eq_ok, hpos,
      (Scalar.le_iff hs ht).1 hle⟩, hb⟩
  | false =>
    refine .inr ⟨?_, hb⟩
    rintro ⟨l, u, hl, hu, hpos, hle⟩
    obtain ⟨hs, rfl⟩ := isExact_of_toNumber hl
    obtain ⟨ht, rfl⟩ := isExact_of_toNumber hu
    cases hb.symm.trans (isGatedRange_of_number hs ht hpos hle)

theorem semiContinuous_failsIf {name : Value (Extended F)}
    (hname : name = .none ∨ ∃ s, name = .text s) :
    FailsIf (perform (.semiContinuous (.scalar s) (.scalar t) name)) m
      ((Model.Call.semiContinuous (.scalar s) (.scalar t) name).Refuses m) := by
  obtain ⟨hends, hrange⟩ | ⟨hends, hrange⟩ := isGatedRange_cases s t
  · have hrefuses : ∀ k, (Model.Call.semiContinuous (.scalar s) (.scalar t) name).Refuses m k ↔
        (m.find? name).isSome = true ∧ k = .value := by
      intro k
      simp [Model.Call.Refuses, hends]
    refine failsIf_of_reason hrefuses (fun htaken => ?_) fun hfree => ?_
    · refine .map ?_
      rw [semiContinuous, hrange]
      exact .lift_bind (.bind (requireNewName_failsWith hname htaken))
    · obtain ⟨l, u, hl, hu, hpos, hle⟩ := hends
      obtain ⟨hs, rfl⟩ := isExact_of_toNumber hl
      obtain ⟨ht, rfl⟩ := isExact_of_toNumber hu
      exact ⟨_, perform_semiContinuous_succeeds hs ht hpos hle (isKey_of_isName hname)
        (Option.not_isSome_iff_eq_none.1 hfree)⟩
  · refine FailsWith.failsIf (k := .invalidRange) (.map ?_) fun k => ?_
    · have hs : (Value.scalar s).display = .ok s.text := rfl
      have ht : (Value.scalar t).display = .ok t.text := rfl
      rw [semiContinuous, hrange, hs, ht]
      refine .lift_bind ?_
      simp only [Bool.not_false, if_true]
      exact .lift_bind (.lift_bind (.bind (.throw (.semiContinuousRange s.text t.text))))
    · simp [Model.Call.Refuses, hends]

/-- A number is read as a divisor if it is a positive integer and no truth value. -/
theorem toDivisor_cases (hs : (Value.scalar s).IsExact) :
    ((Value.scalar s).IsDivisor ∧ ∃ d, 0 < d ∧ toDivisor (.scalar s) = .ok d) ∨
      (¬(Value.scalar s).IsDivisor ∧
        ∃ f, toDivisor (.scalar s) = .error f ∧ f.kind = .invalidRange) := by
  by_cases hd : (Value.scalar s).IsDivisor
  · have hdivisor := hd
    obtain ⟨_, ⟨⟩, htruth, d, hpos, hnumber⟩ := hd
    exact .inl ⟨hdivisor, d, hpos, toDivisor_eq_ok hs htruth hpos hnumber⟩
  · refine .inr ⟨hd, .divisorNotPositive s.text, ?_, rfl⟩
    have hshown : (Value.scalar s).shown = .ok s.text := rfl
    have hcheck : (∀ b, s ≠ .truth b) →
        (!isInteger (finite s.number : Extended F) || s.le (.integer 0)) = true := by
      intro htruth
      rw [Bool.or_eq_true, Bool.not_eq_true']
      by_contra h
      rw [not_or, Bool.not_eq_false, Scalar.le_iff hs (t := .integer 0) trivial] at h
      obtain ⟨hinteger, hpos⟩ := h
      have hfloor : (⌊s.number⌋ : F) = s.number := of_decide_eq_true hinteger
      rw [Scalar.number, Int.cast_zero, not_le] at hpos
      refine hd ⟨s, rfl, htruth, ⌊s.number⌋, ?_, hfloor.symm⟩
      exact Int.cast_pos.1 (hfloor.symm ▸ hpos)
    unfold toDivisor
    split
    next => rfl
    next t htruth heq =>
      obtain rfl := Value.scalar.inj heq
      rw [hs.toNumber_eq_ok]
      change (if _ then _ else _) = _
      rw [hcheck htruth, if_pos rfl, hshown]
      rfl
    next hne => exact absurd rfl (hne s)

theorem divide_failsIf (ht : (Tolerance.tolerance : F) < 1) {x divisor : Value (Extended F)}
    (hx : x.IsOrdinary) (hdivisor : divisor.IsNumber) :
    FailsIf (perform (.divide x divisor)) m ((Model.Call.divide x divisor).Refuses m) := by
  obtain ⟨s, rfl, hs⟩ := hdivisor
  obtain ⟨hd, d, hpos, hread⟩ | ⟨hd, hread⟩ := toDivisor_cases hs
  · obtain ⟨e, he, hi, hord⟩ := hx.exists_expr ht
    have hrefuses : ∀ k, (Model.Call.divide x (.scalar s)).Refuses m k ↔
        (Arithmetic.lt e.interval.lower zero = true ∨ isFinite e.interval.upper = false) ∧
          k = .invalidRange := by
      intro k
      simp [Model.Call.Refuses, hd, hi]
    refine failsIf_of_reason hrefuses (fun hrange => ?_) fun hrange => ?_
    -- Without a reason the upper bound is not negative, and neither is that of the quotient.
    · have hcheck : (Arithmetic.lt e.interval.lower zero || !isFinite e.interval.upper) = true := by
        rwa [Bool.or_eq_true, Bool.not_eq_true']
      rw [perform_divide_eq hread he, divide, hcheck]
      exact .bind (.bind (.throw _))
    · rw [not_or, Bool.not_eq_true, Bool.not_eq_false] at hrange
      obtain ⟨hlo, hup⟩ := hrange
      obtain ⟨u, hu⟩ := eq_finite_of_isFinite hup
      have hnonneg : 0 ≤ u := (Interval.contains_upper hord.isProper_interval hu).nonneg hlo
      have hquotient : (⟨zero, floor (e.interval.upper / ofInt d)⟩ :
          Interval (Extended F)).isProper = true := by
        have hdF : (0 : F) < d := Int.cast_pos.2 hpos
        rw [hu, ofInt_eq, finite_div u hdF.ne', floor_finite, zero_eq, Interval.isProper_finite]
        exact Int.cast_nonneg_iff.2 (Int.floor_nonneg.2 (div_nonneg hnonneg hdF.le))
      exact ⟨_, perform_divide_succeeds hread he hlo hup hquotient m⟩
  · refine FailsWith.failsIf (.bind (.bind (.lift hread))) fun k => ?_
    simp [Model.Call.Refuses, hd]

end Ranges

/-! ## Whole calls -/

/-- **A reformulation of ordinary operands fails for a documented reason or not at all.**  It fails
with a fault of a kind exactly where there is a reason of this kind, and it succeeds exactly where
there is none: whatever the bounds of the operands are, those of the auxiliary variables can be
computed and do not cross. -/
theorem perform_fails_iff [IsStrictOrderedRing F] (ht : (Tolerance.tolerance : F) < 1)
    {c : Model.Call (Extended F)} (hc : c.IsDocumented) (m : Model (Extended F)) :
    (∀ k, (∃ f n, exec (perform c) m = (.error f, n) ∧ f.kind = k) ↔ c.Refuses m k) ∧
      ((∃ answer n, exec (perform c) m = (.ok answer, n)) ↔ ∀ k, ¬c.Refuses m k) := by
  suffices h : FailsIf (perform c) m (c.Refuses m) from ⟨h, h.succeeds_iff⟩
  cases c with
  | addVariable | addVariables | addConstraint | setObjective => exact hc.elim
  | conjunction args => exact conjunction_failsIf hc
  | disjunction args => exact disjunction_failsIf hc
  | negation x => exact negation_failsIf hc
  | exclusive x y encoding =>
    obtain ⟨hx, hy, hencoding⟩ := hc
    exact exclusive_failsIf hx hy hencoding
  | implication x y => exact implication_failsIf hc.1 hc.2
  | cardinality r bound args => exact cardinality_failsIf hc.1 hc.2
  | indicator delta constraint active bigM =>
    obtain ⟨hdelta, ⟨d, i, rfl, -⟩, hactive, rfl⟩ := hc
    exact indicator_failsIf hdelta hactive
  | eitherOr first second bigM =>
    obtain ⟨⟨d, i, rfl, -⟩, ⟨d', j, rfl, -⟩, rfl⟩ := hc
    exact eitherOr_failsIf
  | magnitude x bigM =>
    obtain ⟨hx, rfl⟩ := hc
    exact magnitude_failsIf ht hx
  | maximum exprs bigM =>
    obtain ⟨⟨xs, hxs, hord⟩, rfl⟩ := hc
    exact perform_extremum_failsIf ht hxs hord .maximize
  | minimum exprs bigM =>
    obtain ⟨⟨xs, hxs, hord⟩, rfl⟩ := hc
    exact perform_extremum_failsIf ht hxs hord .minimize
  | product x y bigM =>
    obtain ⟨hx, hy, rfl⟩ := hc
    exact product_failsIf ht hx hy
  | semiContinuous lower upper name =>
    obtain ⟨⟨s, rfl⟩, ⟨t, rfl⟩, hname⟩ := hc
    exact semiContinuous_failsIf hname
  | divide x divisor => exact divide_failsIf ht hc.1 hc.2
  | reify constraint bigM margin =>
    obtain ⟨⟨d, i, rfl, hd⟩, rfl, rfl⟩ := hc
    exact reify_failsIf hd

/-! ## A variable without bounds -/

section Rational

local instance refusalTolerance : Extended.Tolerance ℚ := .standard

/-- A variable without bounds. -/
def freeVariable : Variable (Extended ℚ) :=
  ⟨⟨0, 1⟩, .text "y", .continuous, .infinite true, .infinite false⟩

/-- The variable plus one. -/
def freeExpr : LinearExpr (Extended ℚ) := ⟨[(freeVariable, .finite 1)], .finite 1⟩

theorem isOrdinary_freeVariable : freeVariable.IsOrdinary :=
  ⟨⟨rfl, nofun⟩, rfl, rfl, "y", rfl⟩

theorem isOrdinary_freeExpr : freeExpr.IsOrdinary where
  isFinite := ⟨List.forall_mem_singleton.2 ⟨1, rfl⟩, 1, rfl⟩
  isOver := ⟨List.nodup_singleton _, List.forall_mem_singleton.2 isOrdinary_freeVariable,
    List.forall_mem_singleton.2 (by decide +kernel)⟩

/-- The magnitude of the variable is refused.  The maximum of one expression is not: the variable
that equals the expression has infinite bounds as well. -/
theorem perform_fails_iff_freeVariable :
    (∃ f n, exec (perform (.magnitude (.var freeVariable) .none)) (.empty 0 .none) =
      (.error f, n) ∧ f.kind = .unboundedBigM) ∧
    ∃ answer n, exec (perform (.maximum (.list [.expr freeExpr]) .none)) (.empty 0 .none) =
      (.ok answer, n) := by
  constructor
  · refine ((perform_fails_iff standard_lt_one (c := .magnitude (.var freeVariable) .none)
      ⟨isOrdinary_freeVariable, rfl⟩ _).1 .unboundedBigM).2 ⟨⟨_, rfl, rfl⟩, rfl⟩
  · refine (perform_fails_iff standard_lt_one (c := .maximum (.list [.expr freeExpr]) .none)
      ⟨⟨_, rfl, List.forall_mem_singleton.2 isOrdinary_freeExpr⟩, rfl⟩ _).2.2 fun k => ?_
    rintro (⟨h, -⟩ | ⟨xs, h, hlen, -⟩)
    · cases h
    · cases h
      exact absurd hlen (by decide)

end Rational

end Build

end MixedInteger
