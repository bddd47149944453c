import MixedInteger.Proofs.Model.Reachable
import MixedInteger.Proofs.Reformulation.TruthRows

/-!
# What the truth of a constraint allows

The numbers of the earlier variables leave the truth of a constraint the value that it should have,
and no other.  With a constant in place of derived bounds, there may be no value where the
expression leaves that constant.

## What is here

* `Constraint.HasBounds`, `Constraint.InBounds` — bounds that are derived or given.
* `Constraint.RetainsCoefficients` — no coefficient is dropped that is not zero.
* `Model.reify_completions` — the two values are apart by the margin, for any constant.
* `Model.reify_exact_of_isIntegral` — between integers there is no gap, whatever is dropped.
-/

set_option autoImplicit false

namespace MixedInteger

open Arithmetic Extended

variable {F : Type} [Field F] [LinearOrder F] [FloorRing F] [ToString F] [Extended.Tolerance F]

/-! ## Bounds and margins -/

/-- Bounds of the expression can be derived, or a number is given in their place. -/
def Constraint.HasBounds (c : Constraint (Extended F)) (bigM : Value (Extended F)) : Prop :=
  (bigM = .none ∧ c.expr.interval.isFinite = true) ∨ ∃ s, bigM = .scalar s

/-- The expression stays within the number that is given, or else its variables within their
bounds. -/
def Constraint.InBounds (c : Constraint (Extended F)) (a : Assignment F) :
    Value (Extended F) → Prop
  | .scalar s => |c.expr.eval a| ≤ s.number
  | _ => ∀ v ∈ c.expr.vars, v.interval.Contains (a v.id)

/-- The bounds that the rows are built from. -/
def Constraint.truthBounds (c : Constraint (Extended F)) : Value (Extended F) →
    Interval (Extended F)
  | .scalar s => .symmetric (.finite s.number)
  | _ => c.turned.expr.interval

/-- No coefficient of the constraint, and none of the binary variables in the rows of its truth, is
dropped unless it is zero. -/
def Constraint.RetainsCoefficients (c : Constraint (Extended F)) (bigM margin : Value (Extended F)) :
    Prop :=
  c.expr.IsRetained ∧ ∀ k ∈ Reify.coefficients c.turned.relation (c.truthBounds bigM).lower.number
    (c.truthBounds bigM).upper.number c.turned.rhs.number (c.margin margin), Retained k

/-- A margin above zero, if one is given. -/
def Value.IsMargin (v : Value (Extended F)) : Prop :=
  v = .none ∨ ∃ s, v = .scalar s ∧ 0 < s.number

variable [IsStrictOrderedRing F] {c : Constraint (Extended F)} {a : Assignment F}
  {bigM margin : Value (Extended F)}

/-- The bounds that the rows are built from contain the number of the expression. -/
theorem Constraint.HasBounds.exists_interval [c.expr.IsFinite] (he : c.expr.IsRetained)
    (h : c.HasBounds bigM) (hbig : bigM.IsExact) : ∃ k l u, bigM.toNumber? = .ok k ∧
      c.turned.expr.finiteInterval "reify" k = .ok ⟨.finite l, .finite u⟩ ∧
      c.truthBounds bigM = ⟨.finite l, .finite u⟩ ∧
      ∀ a, c.InBounds a bigM → l ≤ c.turned.expr.eval a ∧ c.turned.expr.eval a ≤ u := by
  have := c.isFinite_turned
  obtain ⟨rfl, hfinite⟩ | ⟨s, rfl⟩ := h
  · rw [← Constraint.isFinite_interval_turned he] at hfinite
    obtain ⟨i, hi⟩ : ∃ i, c.turned.expr.finiteInterval "reify" none = .ok i :=
      ⟨_, if_pos hfinite⟩
    obtain ⟨rfl, l, u, hlu⟩ := LinearExpr.exists_of_finiteInterval hi
    refine ⟨none, l, u, rfl, hlu ▸ hi, hlu, fun a ha => ?_⟩
    have hcontains := c.turned.expr.interval_contains (a := a) fun t ht =>
      ha t.1 (c.vars_turned_subset (List.mem_map_of_mem ht))
    rwa [hlu, Interval.contains_finite] at hcontains
  · refine ⟨some (.finite s.number), -s.number, s.number, hbig.toNumber?_eq_ok, rfl, rfl,
      fun a ha => ?_⟩
    obtain ⟨hlow, hhigh⟩ := abs_le.1 (show |c.expr.eval a| ≤ s.number from ha)
    rcases c.eval_turned he a with h | h <;> rw [h]
    · exact ⟨hlow, hhigh⟩
    · exact ⟨neg_le_neg hhigh, neg_le.1 hlow⟩

/-- A margin that is given, or the default one, is read as what it is and above zero. -/
theorem Value.IsMargin.exists_chooseMargin [c.expr.IsFinite] (he : c.expr.IsRetained)
    (hne : ∀ t ∈ c.expr.terms, t.2 ≠ .finite 0) {b : F} (hb : c.rhs = .finite b)
    (h : margin.IsMargin) (hmargin : margin.IsExact) : ∃ given, Build.toMargin margin = .ok given ∧
      Build.chooseMargin c.turned.expr c.turned.rhs given = .ok (.finite (c.margin margin)) ∧
      0 < c.margin margin := by
  have hdefault : Reify.defaultMargin c.turned.expr c.turned.rhs =
      Reify.defaultMargin c.expr c.rhs := by
    by_cases hr : c.relation = .ge
    · rw [Constraint.turned_of_eq_ge hr, hb, Reify.defaultMargin_negate c.expr he hne]
    · rw [Constraint.turned_of_ne_ge hr]
  have hread : ∃ given p, Build.toMargin margin = .ok given ∧
      Build.chooseMargin c.turned.expr c.turned.rhs given = .ok p := by
    obtain rfl | ⟨s, rfl, hs⟩ := h
    · exact ⟨Option.none, _, rfl, rfl⟩
    · have hle : s.le (.integer 0) = false := by
        rw [Bool.eq_false_iff, ne_eq, Scalar.le_iff hmargin (t := .integer 0) trivial, not_le]
        rwa [Scalar.number, Int.cast_zero]
      refine ⟨some s, .finite s.number, ?_, hmargin.toNumber_eq_ok⟩
      simp only [Build.toMargin, hle, Bool.false_eq_true, if_false]
      rfl
  obtain ⟨given, p, hgiven, hp⟩ := hread
  obtain ⟨rfl, hpos⟩ := Build.chooseMargin_eq_ok hmargin hgiven hdefault hp
  exact ⟨given, hgiven, hp, hpos⟩

/-- The new variables of the truth of a constraint are binary. -/
theorem Build.TruthParts.newVars {K : Type} [Arithmetic K] {c : Constraint K} {k : Option K}
    {given : Option (Scalar K)} {m n : Model K} {delta : Variable K}
    (hdelta : delta.IsOf .binary ⟨zero, one⟩) (h : TruthParts c k given m delta n) :
    delta ∈ m.newVars n ∧ ∀ v ∈ m.newVars n, v.IsOf .binary ⟨zero, one⟩ := by
  have inequality : ∀ {e : LinearExpr K} {b : K}, AtMostParts e b k given m delta n →
      delta ∈ m.newVars n ∧ ∀ v ∈ m.newVars n, v.IsOf .binary ⟨zero, one⟩ := by
    rintro e b ⟨i, p, -, -, hg⟩
    rw [hg.newVars_eq]
    exact ⟨List.mem_cons_self, List.forall_mem_singleton.2 hdelta⟩
  unfold TruthParts at h
  split at h
  · exact inequality h
  · exact inequality h
  · obtain ⟨i, p, side, -, -, hside, hg⟩ := h
    rw [hg.newVars_eq]
    exact ⟨List.mem_cons_self, List.forall_mem_cons.2 ⟨hdelta, List.forall_mem_singleton.2 hside⟩⟩

namespace Model

variable {m n : Model (Extended F)} {b : Assignment F} {i : Option ConstraintId}

omit [IsStrictOrderedRing F] in
/-- The model knows the variables of the rows. -/
theorem knows_of_admissible
    (h : (Call.reify (.constraint c i) bigM margin).Admissible m) :
    ∀ v ∈ c.turned.expr.vars, m.Knows v := by
  intro v hv
  obtain ⟨t, ht, rfl⟩ := List.mem_map.1 (c.vars_turned_subset hv)
  exact (h (.constraint c i) List.mem_cons_self).wellFormed.known t ht

/-! ## A margin between the two values -/

/-- The completions of an assignment leave a variable the right value: one where a constraint holds,
and zero where it fails by a margin. -/
structure Separates (m n : Model (Extended F)) (c : Constraint (Extended F))
    (bigM margin : Value (Extended F)) (delta : Variable (Extended F)) : Prop where
  mem : delta ∈ m.newVars n
  pos : 0 < c.margin margin
  binary : ∀ v ∈ m.newVars n, v.IsOf .binary ⟨zero, one⟩
  sound : ∀ a b, m.Completes n a b →
    (b delta.id = 1 ∧ c.Says a) ∨ (b delta.id = 0 ∧ c.FailsBy (c.margin margin) a)
  holds : ∀ a, c.InBounds a bigM → c.Says a → ∃ b, m.Completes n a b ∧ b delta.id = 1
  fails : ∀ a, c.InBounds a bigM → c.FailsBy (c.margin margin) a →
    ∃ b, m.Completes n a b ∧ b delta.id = 0

/-- **The truth of a constraint has the value that it should have.**  As long as no coefficient is
dropped that is not zero, the call succeeds; in every completion its variable is one where the
constraint holds or zero where it fails by the margin, for any constant in place of the bounds; and
within the bounds there are such completions. -/
theorem reify_completions (ht : (Extended.Tolerance.tolerance : F) < 1) (hm : m.Reachable)
    (hadmissible : (Call.reify (.constraint c i) bigM margin).Admissible m)
    (hexact : (Call.reify (.constraint c i) bigM margin).IsExact)
    (hretains : c.RetainsCoefficients bigM margin) (hbounds : c.HasBounds bigM)
    (hmargin : margin.IsMargin) : ∃ delta n,
      Build.exec (Build.perform (.reify (.constraint c i) bigM margin)) m = (.ok (.var delta), n) ∧
      m.Separates n c bigM margin delta := by
  have hc : (Value.constraint c i).IsExact := hexact.arg (by simp [Call.arguments])
  obtain ⟨⟨hfinite, hne⟩, rhs, hrhs⟩ := hc
  obtain ⟨hretained, hcoefficients⟩ := hretains
  obtain ⟨k, l, u, hk, hi, htruth, hcontains⟩ :=
    hbounds.exists_interval hretained (hexact.arg (by simp [Call.arguments]))
  obtain ⟨given, hgiven, hp, hpos⟩ :=
    hmargin.exists_chooseMargin hretained hne hrhs (hexact.arg (by simp [Call.arguments]))
  obtain ⟨answer, n, hexec, delta, rfl, hdelta, hparts⟩ :=
    Build.perform_reify_succeeds (j := i) hk hgiven hi hp m
  obtain ⟨hmem, hbinary⟩ := hparts.newVars hdelta
  have := c.isFinite_turned
  obtain ⟨rhs', hrhs'⟩ := Constraint.exists_rhs_turned hrhs
  rw [htruth, hrhs', number_finite, number_finite, number_finite] at hcoefficients
  have hne' := c.relation_turned_ne
  have hvalues : ∀ a d, (∃ a', m.Completes n a a' ∧ a' delta.id = d) ↔
      Reify.Admits c.turned.relation l u rhs' (c.margin margin) (c.turned.expr.eval a) d :=
    fun a d => hparts.exists_completes_iff hne' ht hm.wellFormed
      (Constraint.isRetained_turned hretained) (knows_of_admissible hadmissible) hrhs' hdelta hi hp
  have hmeans : ∀ a, c.turned.relation.Holds (c.turned.expr.eval a) rhs' ↔ c.Says a := by
    intro a
    rw [← Constraint.says_turned_iff hretained hrhs, Constraint.Says, hrhs', number_finite]
  have hfails : ∀ a, c.turned.relation.FailsBy (c.margin margin) (c.turned.expr.eval a) rhs' ↔
      c.FailsBy (c.margin margin) a := by
    intro a
    rw [← Constraint.failsBy_turned_iff hretained hrhs, Constraint.FailsBy, hrhs', number_finite]
  refine ⟨delta, n, hexec, hmem, hpos, hbinary, fun a b hb => ?_, fun a ha h => ?_,
    fun a ha h => ?_⟩
  · have hadmits := Reify.admits_sound hne' hcoefficients ((hvalues a _).1 ⟨b, hb, rfl⟩)
    rwa [hmeans, hfails] at hadmits
  · obtain ⟨hl, hu⟩ := hcontains a ha
    exact (hvalues a 1).2
      (Reify.admits_complete hne' hcoefficients hpos hl hu (.inl ⟨rfl, (hmeans a).2 h⟩))
  · obtain ⟨hl, hu⟩ := hcontains a ha
    exact (hvalues a 0).2
      (Reify.admits_complete hne' hcoefficients hpos hl hu (.inr ⟨rfl, (hfails a).2 h⟩))

/-! ## No gap between integers -/

/-- An integral constraint stays one when it is turned round. -/
theorem isIntegral_turned (hint : c.expr.isIntegral = true) {r : Int}
    (hr : c.rhs = .finite (r : F)) : c.turned.expr.isIntegral = true ∧
      ∃ r' : Int, c.turned.rhs = .finite (r' : F) := by
  by_cases h : c.relation = .ge
  · rw [Constraint.turned_of_eq_ge h, hr]
    exact ⟨LinearExpr.isIntegral_negate_of_isIntegral hint, -r, by rw [neg_finite, Int.cast_neg]⟩
  · rw [Constraint.turned_of_ne_ge h]
    exact ⟨hint, r, hr⟩

/-- **The truth of an integral constraint is exact.**  Wherever the variables of the constraint may
take their numbers, these can be completed, and in every completion the new variable is one exactly
if the constraint holds, whether or not small coefficients are dropped. -/
theorem reify_exact_of_isIntegral (ht : (Extended.Tolerance.tolerance : F) < 1) (hm : m.Reachable)
    (hadmissible : (Call.reify (.constraint c i) .none .none).Admissible m)
    (hint : c.expr.isIntegral = true) (hrhs : isInteger c.rhs = true)
    (hfinite : c.expr.interval.isFinite = true) : ∃ delta n,
      Build.exec (Build.perform (.reify (.constraint c i) .none .none)) m = (.ok (.var delta), n) ∧
      delta ∈ m.newVars n ∧ ∀ a : Assignment F, (∀ v ∈ c.expr.vars, v.Allows (a v.id)) →
        (∃ b, m.Completes n a b) ∧ ∀ b, m.Completes n a b →
          (b delta.id = 0 ∨ b delta.id = 1) ∧ (b delta.id = 1 ↔ c.Says a) := by
  have := LinearExpr.isFinite_of_isIntegral hint
  have hretained := LinearExpr.isRetained_of_isIntegral ht hint
  obtain ⟨r, hr⟩ := LinearExpr.exists_of_isInteger hrhs
  obtain ⟨hint', r', hr'⟩ := isIntegral_turned hint hr
  have := c.isFinite_turned
  have hbounds : c.HasBounds .none := .inl ⟨rfl, hfinite⟩
  obtain ⟨k, l, u, hk, hi, -, hcontains⟩ := hbounds.exists_interval hretained trivial
  have hmargin : Build.chooseMargin c.turned.expr c.turned.rhs none = .ok (.finite 1) := by
    have hinteger : isInteger (.finite (r' : F) : Extended F) = true :=
      (Reify.isInteger_iff _).2 ⟨r', rfl⟩
    rw [Build.chooseMargin, Reify.defaultMargin, hint', hr', hinteger]
    rfl
  have hnone : Build.toMargin (.none : Value (Extended F)) = .ok none := rfl
  obtain ⟨answer, n, hexec, delta, rfl, hdelta, hparts⟩ :=
    Build.perform_reify_succeeds (j := i) hk hnone hi hmargin m
  refine ⟨delta, n, hexec, (hparts.newVars hdelta).1, fun a ha => ?_⟩
  obtain ⟨x, hx⟩ := LinearExpr.exists_eval_eq_intCast hint' fun v hv =>
    ha v (c.vars_turned_subset hv)
  obtain ⟨hl, hu⟩ := hcontains a fun v hv => (ha v hv).contains
  have hmeans : c.turned.relation.Holds (x : F) r' ↔ c.Says a := by
    rw [← Constraint.says_turned_iff hretained hr, Constraint.Says, hr', number_finite, hx]
  have hvalues : ∀ d, (∃ b, m.Completes n a b ∧ b delta.id = d) ↔
      (d = 1 ∧ c.Says a) ∨ (d = 0 ∧ ¬c.Says a) := by
    intro d
    rw [hparts.exists_completes_iff c.relation_turned_ne ht hm.wellFormed
      (Constraint.isRetained_turned hretained) (knows_of_admissible hadmissible) hr' hdelta hi
      hmargin, hx, ← hmeans]
    exact Reify.admits_intCast_iff ht (hx ▸ hl) (hx ▸ hu) c.relation_turned_ne
  refine ⟨?_, fun b hb => ?_⟩
  · by_cases h : c.Says a
    · obtain ⟨b, hb, -⟩ := (hvalues 1).2 (.inl ⟨rfl, h⟩)
      exact ⟨b, hb⟩
    · obtain ⟨b, hb, -⟩ := (hvalues 0).2 (.inr ⟨rfl, h⟩)
      exact ⟨b, hb⟩
  · rcases (hvalues _).1 ⟨b, hb, rfl⟩ with ⟨hd, h⟩ | ⟨hd, h⟩
    · exact ⟨.inr hd, iff_of_true hd h⟩
    · exact ⟨.inl hd, iff_of_false (by rw [hd]; exact zero_ne_one) h⟩

/-! ## A variable with bounds that are not integers -/

section Rational

local instance completionTolerance : Extended.Tolerance ℚ := .standard

/-- An integer variable between a half and seven and a half. -/
def fractionalVariable : Variable (Extended ℚ) :=
  ⟨⟨0, 0⟩, .text "x", .integer, .finite (1 / 2), .finite (15 / 2)⟩

/-- A model of this variable. -/
def fractionalModel : Model (Extended ℚ) := { empty 0 .none with vars := [fractionalVariable] }

/-- The constraint that the variable is at least four. -/
def atLeastFour : Constraint (Extended ℚ) :=
  ⟨⟨[(fractionalVariable, .finite 1)], .finite 0⟩, .ge, .finite 4, .none⟩

theorem fractionalModel_reachable : fractionalModel.Reachable :=
  (Reachable.empty (K := Extended ℚ) 0 .none).of_call _
    (Call.admissible_addVariable (K := Extended ℚ) _ .integer (.finite (1 / 2)) (.finite (15 / 2))
      "x") (by rw [Build.perform]; cbv)

theorem atLeastFour_wellFormed : (Value.constraint atLeastFour none).WellFormed fractionalModel :=
  ⟨List.nodup_singleton _, List.forall_mem_singleton.2 (knows_of_mem List.mem_cons_self)⟩

theorem atLeastFour_isExact : (Value.constraint atLeastFour none).IsExact :=
  ⟨⟨⟨List.forall_mem_singleton.2 ⟨1, rfl⟩, 0, rfl⟩, List.forall_mem_singleton.2 (by decide)⟩, 4,
    rfl⟩

/-- With ten in place of the bounds, the binary variable has the coefficients fourteen and minus
seven. -/
theorem atLeastFour_retainsCoefficients : atLeastFour.RetainsCoefficients (.int 10) .none := by
  have hlt : (Extended.Tolerance.tolerance : ℚ) < 1 := Extended.standard_lt_one
  have hcoefficients : Reify.coefficients atLeastFour.turned.relation
      (atLeastFour.truthBounds (.int 10)).lower.number
      (atLeastFour.truthBounds (.int 10)).upper.number atLeastFour.turned.rhs.number
      (atLeastFour.margin .none) = [14, -7] := by decide +kernel
  refine ⟨List.forall_mem_singleton.2 (.inr (hlt.trans_eq (by decide))), ?_⟩
  rw [hcoefficients]
  exact List.forall_mem_cons.2 ⟨.inr (hlt.trans (by norm_num)),
    List.forall_mem_singleton.2 (.inr (hlt.trans (by norm_num)))⟩

theorem reify_completions_atLeastFour : ∃ delta n,
    Build.exec (Build.perform (.reify (.constraint atLeastFour none) (.int 10) .none))
      fractionalModel = (.ok (.var delta), n) ∧
    fractionalModel.Separates n atLeastFour (.int 10) .none delta := by
  refine reify_completions Extended.standard_lt_one fractionalModel_reachable ?_ ?_
    atLeastFour_retainsCoefficients (.inr ⟨_, rfl⟩) (.inl rfl)
  · simp only [Call.Admissible, Call.arguments, Value.Admissible, Value.parts, Value.int,
      List.forall_mem_cons]
    exact ⟨⟨atLeastFour_wellFormed, List.forall_mem_nil _⟩, ⟨trivial, List.forall_mem_nil _⟩,
      ⟨trivial, List.forall_mem_nil _⟩, List.forall_mem_nil _⟩
  · simp only [Call.IsExact, Call.arguments, Value.parts, Value.int, List.forall_mem_cons]
    exact ⟨⟨atLeastFour_isExact, List.forall_mem_nil _⟩, ⟨trivial, List.forall_mem_nil _⟩,
      ⟨trivial, List.forall_mem_nil _⟩, List.forall_mem_nil _⟩

theorem reify_exact_of_isIntegral_atLeastFour : ∃ delta n,
    Build.exec (Build.perform (.reify (.constraint atLeastFour none) .none .none))
      fractionalModel = (.ok (.var delta), n) ∧
    delta ∈ fractionalModel.newVars n ∧
    ∀ a : Assignment ℚ, (∀ v ∈ atLeastFour.expr.vars, v.Allows (a v.id)) →
      (∃ b, fractionalModel.Completes n a b) ∧ ∀ b, fractionalModel.Completes n a b →
        (b delta.id = 0 ∨ b delta.id = 1) ∧ (b delta.id = 1 ↔ atLeastFour.Says a) := by
  refine reify_exact_of_isIntegral Extended.standard_lt_one fractionalModel_reachable ?_
    (by decide +kernel) (by decide +kernel) (by decide +kernel)
  simp only [Call.Admissible, Call.arguments, Value.Admissible, Value.parts, List.forall_mem_cons]
  exact ⟨⟨atLeastFour_wellFormed, List.forall_mem_nil _⟩, ⟨trivial, List.forall_mem_nil _⟩,
    ⟨trivial, List.forall_mem_nil _⟩, List.forall_mem_nil _⟩

end Rational

end Model

end MixedInteger
