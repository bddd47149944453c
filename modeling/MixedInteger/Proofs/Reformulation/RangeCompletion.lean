import MixedInteger.Proofs.Linear.Retained
import MixedInteger.Proofs.Reformulation.Premises

/-!
# What a gated range allows

The two ends of a gated range are coefficients of its binary variable, and a coefficient that is too
small is dropped.  So the values that are left are zero and those between what is kept of the two
ends.  That is the range which was asked for exactly if its lower end is kept; otherwise the check
that both ends are positive lets a range through whose rows say something else.

## What is here

* `Gate.rangeRows_iff_kept` — what the rows say, whatever is dropped.
* `Gate.forall_range_iff` — when this is the range between the two ends.
* `Build.perform_semiContinuous_succeeds` — every range with positive ends in order is accepted.
* `Model.Ranges` — the values that are left.
* `Model.semiContinuous_ranges` — the call and its completions.
* `Model.exists_completes_below_range` — a value below the range.
-/

set_option autoImplicit false

namespace MixedInteger

open Arithmetic Extended

/-! ## Calls that are accepted -/

namespace Build

section Names

variable {K : Type} [Arithmetic K] {name : Value K} {m : Model K}

/-- A name that is free passes. -/
theorem exec_requireNewName (hkey : name.isKey = true) (hfree : m.find? name = none) :
    exec (requireNewName name) m = (.ok ⟨⟩, m) := by
  simp [requireNewName, hkey, exec_bind, hfree]

/-- A continuous variable under a name that is free. -/
theorem addVariable_continuous_succeeds {lower upper : Value K} {l u : K}
    (hkey : name.isKey = true) (hfree : m.find? name = none) (hl : lower.toNumber = .ok l)
    (hu : upper.toNumber = .ok u) (hp : (⟨l, u⟩ : Interval K).isProper = true) :
    Succeeds (addVariable (.domain .continuous) lower upper name) m fun x n =>
      x.IsOf .continuous ⟨l, u⟩ ∧ m.Grown [x] [] n := by
  have hdeclared : ∀ {k : Model K} {label : Value K},
      (∀ s, label = .text s → s ∉ textNames k.variableNames) → m.Grown [] [] k →
      Succeeds (declare label .continuous l u) k fun x n =>
        x.IsOf .continuous ⟨l, u⟩ ∧ m.Grown [x] [] n := by
    intro k label hnew hg
    refine (declare_succeeds hp (declare_spec .continuous l u hnew)).mono ?_
    rintro x n ⟨-, hx, hx'⟩
    exact ⟨hx, hg.trans hx'⟩
  rw [addVariable, hl, hu]
  refine .bind (R := fun _ n => n = m) ⟨_, _, exec_requireNewName hkey hfree, rfl⟩ ?_
  rintro _ _ rfl
  cases name with
  | none =>
    refine .bind (freshVariableName_spec _) ?_
    rintro s k ⟨hs, hnew⟩
    refine .lift_bind (.lift_bind (.lift_bind (hdeclared ?_ hs.grown)))
    rintro _ ⟨⟩
    exact hnew
  | _ =>
    refine .lift_bind (.lift_bind (.lift_bind (hdeclared (fun s hs => ?_) (.refl _))))
    exact Model.not_mem_variableNames (hs ▸ hfree)

end Names

variable {F : Type} [Field F] [LinearOrder F] [FloorRing F] [ToString F] [Extended.Tolerance F]
  [IsStrictOrderedRing F] {s t : Scalar (Extended F)} {name : Value (Extended F)}
  {m : Model (Extended F)}

/-- Positive numbers in order are the ends of a range. -/
theorem isGatedRange_of_number (hs : (Value.scalar s).IsExact) (ht : (Value.scalar t).IsExact)
    (hpos : 0 < s.number) (hle : s.number ≤ t.number) :
    isGatedRange (.scalar s) (.scalar t) = .ok true := by
  have hzero : (Scalar.integer 0).lt s = true :=
    (Scalar.lt_iff (s := .integer 0) trivial hs).2 (by rwa [Scalar.number, Int.cast_zero])
  have hinfinity : t.lt (.real infinity none) = true := by
    obtain ⟨n, ht, -⟩ | ⟨y, ht, -⟩ := Scalar.exact_cases ht <;> rw [Scalar.lt, ht] <;> rfl
  simp only [isGatedRange, inOrder, Value.int, Value.real, hzero, (Scalar.le_iff hs ht).2 hle,
    hinfinity]
  rfl

/-- **A range with positive ends in order is accepted** under a name that is free. -/
theorem perform_semiContinuous_succeeds (hs : (Value.scalar s).IsExact)
    (ht : (Value.scalar t).IsExact) (hpos : 0 < s.number) (hle : s.number ≤ t.number)
    (hkey : name.isKey = true) (hfree : m.find? name = none) :
    Succeeds (perform (.semiContinuous (.scalar s) (.scalar t) name)) m fun answer n =>
      ∃ x delta : Variable (Extended F), answer = .var x ∧
        x.IsOf .continuous ⟨.finite 0, .finite t.number⟩ ∧ delta.IsOf .binary ⟨zero, one⟩ ∧
        m.Grown [x, delta] (Gate.rangeRows x delta (.finite s.number) (.finite t.number)) n := by
  have hproper : (⟨.finite 0, .finite t.number⟩ : Interval (Extended F)).isProper = true :=
    ((Interval.contains_finite _ _ 0).2 ⟨le_rfl, hpos.le.trans hle⟩).isProper
  have hlower : (Value.int 0 : Value (Extended F)).toNumber = .ok (.finite 0) := by
    simp [Value.toNumber, Value.int, Scalar.toNumber, Scalar.ofInt?]
  refine .map ?_
  rw [semiContinuous]
  simp only [Value.toNumber, hs.toNumber_eq_ok, ht.toNumber_eq_ok,
    isGatedRange_of_number hs ht hpos hle]
  refine .lift_bind ?_
  refine .bind (R := fun _ n => n = m) ⟨_, _, exec_requireNewName hkey hfree, rfl⟩ ?_
  rintro _ _ rfl
  refine .bind (addVariable_continuous_succeeds hkey hfree hlower ht.toNumber_eq_ok hproper) ?_
  rintro x n ⟨hx, hg⟩
  refine .bind (selector_spec "semi_on" n) ?_
  rintro delta n' ⟨-, hdelta, hg'⟩
  refine .lift_bind (.lift_bind (.bind (discard_registerAll_spec ?_ (hg.trans hg')) ?_))
  · simp [Gate.rangeRows, atMost, atLeast]
  · exact fun _ k hg'' => .pure ⟨x, delta, rfl, hx, hdelta, hg''⟩

end Build

variable {F : Type} [Field F] [LinearOrder F] [FloorRing F] [ToString F] [Extended.Tolerance F]

/-! ## Rows -/

namespace Gate

section Rows

variable [IsStrictOrderedRing F] {x delta : Variable (Extended F)} {a : Assignment F} {l u : F}

/-- **The rows of a range**: between what is kept of its two ends, times the binary number. -/
theorem rangeRows_iff_kept (ht : (Tolerance.tolerance : F) < 1) (hne : x.id ≠ delta.id) :
    (∀ c ∈ rangeRows x delta (.finite l) (.finite u), c.holds a.lift = true) ↔
      kept l * a delta.id ≤ a x.id ∧ a x.id ≤ kept u * a delta.id := by
  have hvar := LinearExpr.ofVariable_eq ht x
  have hretained : (LinearExpr.ofVariable x).IsRetained := by
    rw [hvar]
    exact List.forall_mem_singleton.2 (.inr (by rwa [number_finite, abs_one]))
  have hother : ∀ t ∈ (LinearExpr.ofVariable x).terms, t.1.id ≠ delta.id := by
    rw [hvar]
    exact List.forall_mem_singleton.2 hne
  have heval : ∀ c : F, ((LinearExpr.ofVariable x).minus
      (LinearExpr.monomial (.finite c) delta)).eval a = a x.id - kept c * a delta.id := fun c => by
    rw [LinearExpr.eval_minus_monomial ht hretained hother, LinearExpr.eval_ofVariable_of_lt ht]
  rw [rangeRows, zero_eq, List.forall_mem_cons, List.forall_mem_singleton, holds_atLeast,
    holds_atMost, heval, heval, sub_nonneg, sub_nonpos]

omit [FloorRing F] [ToString F] [IsStrictOrderedRing F] in
/-- What is left of a positive range once its ends have been dropped, or have not been. -/
theorem exists_rangeRows_iff (hl : 0 < l) (hlu : l ≤ u) (y : F) :
    (∃ d : F, (d = 0 ∨ d = 1) ∧ (0 ≤ y ∧ y ≤ u) ∧ kept l * d ≤ y ∧ y ≤ kept u * d) ↔
      y = 0 ∨ (kept l ≤ y ∧ y ≤ kept u) := by
  have hu : 0 ≤ u := hl.le.trans hlu
  have hkept : ∀ {c : F}, 0 ≤ c → 0 ≤ kept c ∧ kept c ≤ c := by
    intro c hc
    rw [kept]
    split
    · exact ⟨hc, le_rfl⟩
    · exact ⟨le_rfl, hc⟩
  constructor
  · rintro ⟨d, rfl | rfl, ⟨hzero, -⟩, hlower, hupper⟩
    · rw [mul_zero] at hupper
      exact .inl (le_antisymm hupper hzero)
    · rw [mul_one] at hlower hupper
      exact .inr ⟨hlower, hupper⟩
  · rintro (rfl | ⟨hlower, hupper⟩)
    · exact ⟨0, .inl rfl, ⟨le_rfl, hu⟩, (mul_zero _).le, (mul_zero _).ge⟩
    · exact ⟨1, .inr rfl, ⟨(hkept hl.le).1.trans hlower, hupper.trans (hkept hu).2⟩,
        (mul_one _).trans_le hlower, hupper.trans_eq (mul_one _).symm⟩

omit [FloorRing F] [ToString F] in
/-- **Which ranges are kept**: those whose lower end is.  Without it there is something below the
lower end; and without the upper end there is nothing but zero. -/
theorem forall_range_iff (hl : 0 < l) (hlu : l ≤ u) :
    (∀ y, (y = 0 ∨ (kept l ≤ y ∧ y ≤ kept u)) ↔ (y = 0 ∨ (l ≤ y ∧ y ≤ u))) ↔
      Tolerance.tolerance < l := by
  have hkept : ∀ {c : F}, 0 < c → Tolerance.tolerance < c → kept c = c := fun hc h =>
    kept_of_lt (by rwa [abs_of_pos hc])
  have hu : 0 < u := hl.trans_le hlu
  constructor
  · intro h
    by_contra hdropped
    have hzero : kept l = 0 := kept_of_not_lt (by rwa [abs_of_pos hl])
    by_cases htu : Tolerance.tolerance < u
    · obtain hhalf | ⟨hhalf, -⟩ := (h (l / 2)).1 (.inr (by
        rw [hzero, hkept hu htu]
        exact ⟨(half_pos hl).le, (half_le_self hl.le).trans hlu⟩))
      · exact (half_pos hl).ne' hhalf
      · exact (half_lt_self hl).not_ge hhalf
    · obtain hl' | ⟨-, hupper⟩ := (h l).2 (.inr ⟨le_rfl, hlu⟩)
      · exact hl.ne' hl'
      · rw [kept_of_not_lt (by rwa [abs_of_pos hu])] at hupper
        exact hl.not_ge hupper
  · intro h y
    rw [hkept hl h, hkept hu (h.trans_le hlu)]

end Rows

end Gate

/-! ## Completions -/

namespace Model

/-- The new variables are a variable and a binary one, and the values of the former that have a
completion are zero and the range. -/
structure Ranges (m n : Model (Extended F)) (x delta : Variable (Extended F)) (l u : F) : Prop where
  newVars : m.newVars n = [x, delta]
  binary : delta.IsOf .binary ⟨zero, one⟩
  values : ∀ a y, (∃ b, m.Completes n a b ∧ b x.id = y) ↔ y = 0 ∨ (l ≤ y ∧ y ≤ u)

variable {m n : Model (Extended F)} {x delta : Variable (Extended F)} {l u k v : F}

/-- One call leaves two ranges only if they have the same values. -/
theorem Ranges.iff_forall (h : m.Ranges n x delta k v) :
    m.Ranges n x delta l u ↔ ∀ y, (y = 0 ∨ (k ≤ y ∧ y ≤ v)) ↔ (y = 0 ∨ (l ≤ y ∧ y ≤ u)) :=
  ⟨fun h' y => (h.values 0 y).symm.trans (h'.values 0 y),
    fun h' => ⟨h.newVars, h.binary, fun a y => (h.values a y).trans (h' y)⟩⟩

variable [IsStrictOrderedRing F]

/-- The rows of a gated range leave what is kept of it. -/
theorem Grown.ranges (ht : (Tolerance.tolerance : F) < 1) (hl : 0 < l) (hlu : l ≤ u)
    (hx : x.IsOf .continuous ⟨.finite 0, .finite u⟩) (hdelta : delta.IsOf .binary ⟨zero, one⟩)
    (hg : m.Grown [x, delta] (Gate.rangeRows x delta (.finite l) (.finite u)) n) :
    m.Ranges n x delta (kept l) (kept u) := by
  have hne : x.id ≠ delta.id := by
    have := hg.nodup_ids
    simpa using this
  refine ⟨hg.newVars_eq, hdelta, fun a y => ?_⟩
  rw [← Gate.exists_rangeRows_iff hl hlu]
  constructor
  · rintro ⟨b, hb, rfl⟩
    obtain ⟨-, hallows, hrows⟩ := hg.completes_iff.1 hb
    obtain ⟨hxb, hdb⟩ := List.forall_mem_cons.1 hallows
    rw [List.forall_mem_singleton, hdelta.allows_binary] at hdb
    exact ⟨b delta.id, hdb, hx.allows_continuous.1 hxb, (Gate.rangeRows_iff_kept ht hne).1 hrows⟩
  · rintro ⟨d, hd, hy, hrows⟩
    obtain ⟨b, hb, hnew⟩ := hg.exists_completes (a := a) [y, d] rfl fun b _ hnew => by
      obtain ⟨rfl, rfl⟩ : b x.id = y ∧ b delta.id = d := by simpa using hnew
      exact ⟨List.forall_mem_cons.2 ⟨hx.allows_continuous.2 hy,
        List.forall_mem_singleton.2 (hdelta.allows_binary.2 hd)⟩,
        (Gate.rangeRows_iff_kept ht hne).2 hrows⟩
    exact ⟨b, hb, List.head_eq_of_cons_eq hnew⟩

variable {s t : Scalar (Extended F)} {name : Value (Extended F)}

/-- **A gated range.**  A range with positive ends in order is accepted under a name that is free.
Zero and what is between the kept ends have a completion, and nothing else does; this is the range
that was asked for exactly if its lower end is not dropped. -/
theorem semiContinuous_ranges (ht : (Tolerance.tolerance : F) < 1) (hs : (Value.scalar s).IsExact)
    (ht' : (Value.scalar t).IsExact) (hpos : 0 < s.number) (hle : s.number ≤ t.number)
    (hkey : name.isKey = true) (hfree : m.find? name = none) :
    ∃ x delta n, Build.exec (Build.perform (.semiContinuous (.scalar s) (.scalar t) name)) m =
        (.ok (.var x), n) ∧ m.Ranges n x delta (kept s.number) (kept t.number) ∧
      (m.Ranges n x delta s.number t.number ↔ Tolerance.tolerance < s.number) := by
  obtain ⟨_, n, hexec, x, delta, rfl, hx, hdelta, hg⟩ :=
    Build.perform_semiContinuous_succeeds hs ht' hpos hle hkey hfree
  have hranges := hg.ranges ht hpos hle hx hdelta
  exact ⟨x, delta, n, hexec, hranges, hranges.iff_forall.trans (Gate.forall_range_iff hpos hle)⟩

/-! ## A range that is kept, and one that is not -/

section Rational

local instance rangeTolerance : Extended.Tolerance ℚ := .standard

theorem semiContinuous_ranges_twoToEight : ∃ x delta n,
    Build.exec (Build.perform (.semiContinuous (.int 2) (.int 8) (.text "load"))) boundedModel =
        (.ok (.var x), n) ∧ boundedModel.Ranges n x delta (kept 2) (kept 8) ∧
      (boundedModel.Ranges n x delta 2 8 ↔ (Tolerance.tolerance : ℚ) < 2) :=
  semiContinuous_ranges (s := .integer 2) (t := .integer 8) standard_lt_one trivial trivial
    (by decide) (by decide) rfl rfl

/-- A lower end so small that it is dropped. -/
def tinyEnd : Scalar (Extended ℚ) := .real (.finite (1 / 10 ^ 16)) none

theorem kept_tinyEnd : kept tinyEnd.number = 0 := by
  refine kept_of_not_lt ?_
  change ¬(1 : ℚ) / 10 ^ 15 < |1 / 10 ^ 16|
  norm_num [abs_of_pos]

/-- Half of that end has a completion, although it is below the range. -/
theorem exists_completes_below_range : ∃ x n,
    Build.exec (Build.perform (.semiContinuous (.scalar tinyEnd) (.int 1) (.text "x")))
      (empty 0 .none) = (.ok (.var x), n) ∧
    ∃ b : Assignment ℚ, (empty 0 .none).Completes n 0 b ∧ 0 < b x.id ∧ b x.id < tinyEnd.number := by
  have hlow : tinyEnd.number = 1 / 10 ^ 16 := rfl
  have hhigh : (Scalar.integer 1 : Scalar (Extended ℚ)).number = 1 := Int.cast_one
  have hpos : 0 < tinyEnd.number := by rw [hlow]; norm_num
  have hle : tinyEnd.number ≤ 1 := by rw [hlow]; norm_num
  have hkey : (Value.text "x" : Value (Extended ℚ)).isKey = true := rfl
  have hfree : (empty 0 .none : Model (Extended ℚ)).find? (.text "x") = none := rfl
  have hstays : kept (1 : ℚ) = 1 := kept_of_lt (by rw [abs_one]; exact standard_lt_one)
  obtain ⟨_, n, hexec, x, delta, rfl, hx, hdelta, hg⟩ :=
    Build.perform_semiContinuous_succeeds (s := tinyEnd) (t := .integer 1) ⟨_, rfl⟩ trivial hpos
      (hhigh ▸ hle) hkey hfree
  rw [hhigh] at hx hg
  have hvalues := (hg.ranges standard_lt_one hpos hle hx hdelta).values 0
  rw [kept_tinyEnd, hstays] at hvalues
  obtain ⟨b, hb, hbx⟩ := (hvalues (tinyEnd.number / 2)).2
    (.inr ⟨(half_pos hpos).le, (half_le_self hpos.le).trans hle⟩)
  refine ⟨x, n, hexec, b, hb, ?_⟩
  rw [hbx]
  exact ⟨half_pos hpos, half_lt_self hpos⟩

end Rational

end Model

end MixedInteger
