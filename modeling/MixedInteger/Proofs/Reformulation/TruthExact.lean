import MixedInteger.Proofs.Linear.Retained
import MixedInteger.Proofs.Reformulation.Operands

/-!
# The truth of a constraint is exact

The binary variable that stands for the truth of a constraint is one only if the constraint holds,
and zero only if it fails by the margin.

## What is here

* `Reify.atMost_exact`, `Reify.equality_exact` — the rows for an inequality and for an equality.
* `Reify.defaultMargin_negate` — an inequality that is turned round keeps its margin.
* `Model.reify_isExpressed` — that this is what the call means.
-/

set_option autoImplicit false

namespace MixedInteger

open Arithmetic

variable {F : Type} [Field F] [LinearOrder F] [FloorRing F] [ToString F] [Extended.Tolerance F]
  [IsStrictOrderedRing F]

/-! ## Rows -/

namespace Reify

variable [Extended.Tolerance.IsZero F] {a : Assignment F} {delta side : Variable (Extended F)}
  {e : LinearExpr (Extended F)} {b l u k p : F}

theorem holdsRow_iff [e.IsFinite] :
    (holdsRow e (.finite b) ⟨.finite l, .finite u⟩ delta).holds a.lift = true ↔
      e.eval a + (u - b) * a delta.id ≤ u := by
  simp [holdsRow]

theorem failsRow_iff [e.IsFinite] :
    (failsRow e (.finite b) (.finite p) ⟨.finite l, .finite u⟩ delta).holds a.lift = true ↔
      b + p ≤ e.eval a - (l - b - p) * a delta.id := by
  simp [failsRow]

/-- **The truth of an inequality is exact.** -/
theorem atMost_exact [e.IsFinite] (hdelta : delta.IsOf .binary ⟨zero, one⟩) (hl : l ≤ e.eval a)
    (hu : e.eval a ≤ u) : (delta.Allows (a delta.id) ∧
      (holdsRow e (.finite b) ⟨.finite l, .finite u⟩ delta).holds a.lift = true ∧
      (failsRow e (.finite b) (.finite p) ⟨.finite l, .finite u⟩ delta).holds a.lift = true) ↔
    (a delta.id = 1 ∧ e.eval a ≤ b) ∨ (a delta.id = 0 ∧ b + p ≤ e.eval a) := by
  rw [hdelta.allows_binary, holdsRow_iff, failsRow_iff]
  constructor
  · rintro ⟨hd | hd, hholds, hfails⟩
    · refine .inr ⟨hd, ?_⟩
      rw [hd] at hfails
      linarith
    · refine .inl ⟨hd, ?_⟩
      rw [hd] at hholds
      linarith
  · rintro (⟨hd, h⟩ | ⟨hd, h⟩)
    · exact ⟨.inr hd, by rw [hd]; linarith, by rw [hd]; linarith⟩
    · exact ⟨.inl hd, by rw [hd]; linarith, by rw [hd]; linarith⟩

theorem equalityRows_iff [e.IsFinite] :
    (∀ c ∈ equalityRows e (.finite b) (.finite p) (.finite k) delta side, c.holds a.lift = true) ↔
      e.eval a + k * a delta.id ≤ b + k ∧ b - k ≤ e.eval a - k * a delta.id ∧
        b - k ≤ e.eval a - (k + p) * a side.id + (k + p) * a delta.id ∧
        e.eval a - (k + p) * a side.id - (k + p) * a delta.id ≤ b - p := by
  simp [equalityRows]

omit [FloorRing F] [ToString F] [Extended.Tolerance F] [Extended.Tolerance.IsZero F] in
/-- What the four rows of an equality force, for each value of the two binary numbers and whatever
the constant is. -/
theorem of_equality_numbers {x d s : F} (hd : d = 0 ∨ d = 1) (hs : s = 0 ∨ s = 1)
    (h : x + k * d ≤ b + k ∧ b - k ≤ x - k * d ∧ b - k ≤ x - (k + p) * s + (k + p) * d ∧
      x - (k + p) * s - (k + p) * d ≤ b - p) :
    (d = 1 ∧ x = b) ∨ (d = 0 ∧ ((s = 0 ∧ x ≤ b - p) ∨ (s = 1 ∧ b + p ≤ x))) := by
  obtain ⟨h₁, h₂, h₃, h₄⟩ := h
  rcases hd with rfl | rfl
  · refine .inr ⟨rfl, ?_⟩
    rcases hs with rfl | rfl
    · exact .inl ⟨rfl, by linarith⟩
    · exact .inr ⟨rfl, by linarith⟩
  · exact .inl ⟨rfl, by linarith⟩

omit [FloorRing F] [ToString F] [Extended.Tolerance F] [Extended.Tolerance.IsZero F] in
/-- The four rows of an equality, for each value of the two binary numbers. -/
theorem equality_numbers {x d s : F} (hp : 0 < p) (hl : l ≤ x) (hu : x ≤ u)
    (hk : k = max (u - b) (b - l)) (hd : d = 0 ∨ d = 1) (hs : s = 0 ∨ s = 1) :
    (x + k * d ≤ b + k ∧ b - k ≤ x - k * d ∧ b - k ≤ x - (k + p) * s + (k + p) * d ∧
      x - (k + p) * s - (k + p) * d ≤ b - p) ↔
    (d = 1 ∧ x = b) ∨ (d = 0 ∧ ((s = 0 ∧ x ≤ b - p) ∨ (s = 1 ∧ b + p ≤ x))) := by
  have hku : u - b ≤ k := hk ▸ le_max_left _ _
  have hkl : b - l ≤ k := hk ▸ le_max_right _ _
  refine ⟨of_equality_numbers hd hs, ?_⟩
  rintro (⟨rfl, rfl⟩ | ⟨rfl, ⟨rfl, h⟩ | ⟨rfl, h⟩⟩)
  · rcases hs with rfl | rfl <;> exact ⟨by linarith, by linarith, by linarith, by linarith⟩
  · exact ⟨by linarith, by linarith, by linarith, by linarith⟩
  · exact ⟨by linarith, by linarith, by linarith, by linarith⟩

/-- **The truth of an equality is exact**, with a second binary variable that says on which side it
fails. -/
theorem equality_exact [e.IsFinite] (hp : 0 < p) (hl : l ≤ e.eval a) (hu : e.eval a ≤ u)
    (hd : a delta.id = 0 ∨ a delta.id = 1) (hs : a side.id = 0 ∨ a side.id = 1) :
    (∀ c ∈ equalityRows e (.finite b) (.finite p) (reach (.finite b) ⟨.finite l, .finite u⟩) delta
      side, c.holds a.lift = true) ↔
    (a delta.id = 1 ∧ e.eval a = b) ∨ (a delta.id = 0 ∧
      ((a side.id = 0 ∧ e.eval a ≤ b - p) ∨ (a side.id = 1 ∧ b + p ≤ e.eval a))) := by
  have hreach : reach (.finite b) ⟨.finite l, .finite u⟩ =
      (.finite (max (u - b) (b - l)) : Extended F) := by simp [reach]
  rw [hreach, equalityRows_iff, equality_numbers hp hl hu rfl hd hs]

/-! ## Margins -/

omit [Extended.Tolerance.IsZero F] in
theorem isInteger_iff (x : F) : isInteger (.finite x : Extended F) = true ↔ ∃ n : Int, x = n := by
  refine Iff.trans (decide_eq_true_iff (p := (⌊x⌋ : F) = x)) ⟨fun h => ⟨⌊x⌋, h.symm⟩, ?_⟩
  rintro ⟨n, rfl⟩
  rw [Int.floor_intCast]

omit [Extended.Tolerance.IsZero F] in
theorem isInteger_neg (x : F) :
    isInteger (.finite (-x) : Extended F) = isInteger (.finite x : Extended F) := by
  rw [Bool.eq_iff_iff, isInteger_iff, isInteger_iff]
  constructor
  · rintro ⟨n, hn⟩
    exact ⟨-n, by rw [Int.cast_neg, ← hn, neg_neg]⟩
  · rintro ⟨n, rfl⟩
    exact ⟨-n, (Int.cast_neg n).symm⟩

omit [Extended.Tolerance.IsZero F] in
/-- An expression with its signs changed is as integral as before. -/
theorem isIntegral_negate (e : LinearExpr (Extended F)) [he : e.IsFinite] (hret : e.IsRetained)
    (hne : ∀ t ∈ e.terms, t.2 ≠ .finite 0) : e.negate.isIntegral = e.isIntegral := by
  obtain ⟨c, hc⟩ := he.constant
  have hneg : ∀ x : F, (.finite x : Extended F) * -one = .finite (-x) := fun x => by simp
  have hkept : (e.terms.map fun t => (t.1, t.2 * -one)).filter (fun t => significant t.2) =
      e.terms.map fun t => (t.1, t.2 * -one) := by
    rw [List.filter_eq_self, List.forall_mem_map]
    intro t ht
    obtain ⟨x, hx⟩ := he.terms t ht
    have hretained := hret t ht
    rw [hx, Extended.number_finite] at hretained
    rw [hx, hneg, Extended.significant_iff_lt, abs_neg]
    exact hretained.resolve_left fun h => hne t ht (by rw [hx, h])
  rw [LinearExpr.negate, LinearExpr.scale, LinearExpr.ofTerms, hkept, LinearExpr.isIntegral,
    LinearExpr.isIntegral, hc, hneg, isInteger_neg, List.all_map]
  congr 1
  rw [Bool.eq_iff_iff, List.all_eq_true, List.all_eq_true]
  refine forall₂_congr fun t ht => ?_
  obtain ⟨x, hx⟩ := he.terms t ht
  rw [Function.comp_apply, hx, hneg, isInteger_neg]

omit [Extended.Tolerance.IsZero F] in
/-- **An inequality that is turned round keeps its margin.** -/
theorem defaultMargin_negate (e : LinearExpr (Extended F)) [he : e.IsFinite] (hret : e.IsRetained)
    (hne : ∀ t ∈ e.terms, t.2 ≠ .finite 0) (b : F) :
    defaultMargin e.negate (-.finite b) = defaultMargin e (.finite b) := by
  rw [defaultMargin, defaultMargin, isIntegral_negate e hret hne, Extended.neg_finite,
    isInteger_neg]

omit [Extended.Tolerance.IsZero F] in
theorem exists_defaultMargin (e : LinearExpr (Extended F))
    (b : Extended F) : ∃ p : F, defaultMargin e b = .finite p ∧ 0 < p := by
  rw [defaultMargin]
  split
  · exact ⟨1, rfl, one_pos⟩
  · exact ⟨1 / 10 ^ 6, rfl, by positivity⟩

end Reify

/-! ## What the call means -/

/-- The margin that a call works with is the one that its meaning names, and above zero. -/
theorem Build.chooseMargin_eq_ok {c : Constraint (Extended F)} {given : Value (Extended F)}
    (hgiven : given.IsExact) {s : Option (Scalar (Extended F))} (hs : toMargin given = .ok s)
    {e : LinearExpr (Extended F)} {b p : Extended F}
    (hdefault : Reify.defaultMargin e b = Reify.defaultMargin c.expr c.rhs)
    (h : chooseMargin e b s = .ok p) : p = .finite (c.margin given) ∧ 0 < c.margin given := by
  cases s with
  | none =>
    cases h
    obtain ⟨q, hq, hpos⟩ := Reify.exists_defaultMargin c.expr c.rhs
    have hmargin : c.margin given = q := by
      unfold Constraint.margin
      split
      next t =>
        simp only [toMargin] at hs
        split at hs
        · cases hs
        · cases hs
      next => rw [hq, Extended.number_finite]
    rw [hdefault, hq, hmargin]
    exact ⟨rfl, hpos⟩
  | some t =>
    obtain ⟨rfl, hle⟩ := toMargin_eq_some hs
    refine ⟨hgiven.toNumber h, ?_⟩
    have hpos : ¬t.number ≤ (Scalar.integer 0 : Scalar (Extended F)).number := by
      rw [← Scalar.le_iff hgiven (t := .integer 0) trivial, hle]
      decide
    rwa [Scalar.number, Int.cast_zero, not_le] at hpos

namespace Model

variable [Extended.Tolerance.IsZero F] {m n : Model (Extended F)} {answer : Value (Extended F)}
  {delta : Variable (Extended F)} {e : LinearExpr (Extended F)} {b p : F}

/-- The truth of an inequality, in whichever direction it was written. -/
theorem atMost_expresses (hm : m.WellFormed) [e.IsFinite] (hv : ∀ v ∈ e.vars, m.Has v)
    (hdelta : delta.IsOf .binary ⟨zero, one⟩) {s : Option (Scalar (Extended F))}
    (hmargin : ∀ q, Build.chooseMargin e (.finite b) s = .ok q → q = .finite p)
    (hp : Build.AtMostParts e (.finite b) none s m delta n) :
    m.Expresses n [delta] fun a =>
      (a delta.id = 1 ∧ e.eval a ≤ b) ∨ (a delta.id = 0 ∧ b + p ≤ e.eval a) := by
  obtain ⟨i, q, hi, hq, hg⟩ := hp
  obtain ⟨rfl, l, u, hlu⟩ := LinearExpr.exists_of_finiteInterval hi
  obtain rfl := hmargin q hq
  rw [hlu] at hg
  refine hg.expresses_iff hm _ fun a ha => ?_
  have hbounds := ha.interval_contains e hv
  rw [hlu, Interval.contains_finite] at hbounds
  rw [List.forall_mem_singleton, List.forall_mem_cons, List.forall_mem_singleton,
    Reify.atMost_exact hdelta hbounds.1 hbounds.2]

/-- The truth of an equality. -/
theorem equality_expresses (hm : m.WellFormed) [e.IsFinite] (hv : ∀ v ∈ e.vars, m.Has v)
    (hdelta : delta.IsOf .binary ⟨zero, one⟩) {s : Option (Scalar (Extended F))} (hpos : 0 < p)
    (hmargin : ∀ q, Build.chooseMargin e (.finite b) s = .ok q → q = .finite p)
    (hp : Build.EqualsParts e (.finite b) none s m delta n) :
    m.Expresses n [delta] fun a => (a delta.id = 1 ∧ e.eval a = b) ∨
      (a delta.id = 0 ∧ (e.eval a ≤ b - p ∨ b + p ≤ e.eval a)) := by
  obtain ⟨i, q, side, hi, hq, hside, hg⟩ := hp
  obtain ⟨rfl, l, u, hlu⟩ := LinearExpr.exists_of_finiteInterval hi
  obtain rfl := hmargin q hq
  rw [hlu] at hg
  have hbounds : ∀ a : Assignment F, m.Feasible a → l ≤ e.eval a ∧ e.eval a ≤ u := by
    intro a ha
    have h := ha.interval_contains e hv
    rwa [hlu, Interval.contains_finite] at h
  refine hg.expresses_of_choice hm (fun a ha hall hrows => ?_) fun a ha hmean => ?_
  · obtain ⟨hd, hs⟩ := List.forall_mem_cons.1 hall
    rw [hdelta.allows_binary] at hd
    rw [List.forall_mem_singleton, hside.allows_binary] at hs
    rw [Reify.equality_exact hpos (hbounds a ha).1 (hbounds a ha).2 hd hs] at hrows
    exact hrows.imp (fun h => h) fun h => ⟨h.1, h.2.imp And.right And.right⟩
  · -- the side is the one on which the equality fails
    refine ⟨[a delta.id, if b + p ≤ e.eval a then 1 else 0], rfl, fun b' hmb hb hnew => ?_⟩
    obtain ⟨hbd, hbs⟩ : b' delta.id = a delta.id ∧
      b' side.id = if b + p ≤ e.eval a then 1 else 0 := by simpa using hnew
    have heval : e.eval b' = e.eval a :=
      LinearExpr.eval_congr fun t ht => hb t.1 (hv t.1 (List.mem_map_of_mem ht)).knows
    have hd : b' delta.id = 0 ∨ b' delta.id = 1 := by
      rw [hbd]
      exact hmean.symm.imp And.left And.left
    have hs : b' side.id = 0 ∨ b' side.id = 1 := by
      rw [hbs]
      exact (ite_eq_or_eq _ _ _).symm
    refine ⟨List.forall_mem_singleton.2 hbd, List.forall_mem_cons.2 ⟨hdelta.allows_binary.2 hd,
      List.forall_mem_singleton.2 (hside.allows_binary.2 hs)⟩, ?_⟩
    rw [Reify.equality_exact hpos (hbounds b' hmb).1 (hbounds b' hmb).2 hd hs, heval, hbd, hbs]
    refine hmean.imp (fun h => h) fun ⟨hzero, h⟩ => ⟨hzero, ?_⟩
    by_cases habove : b + p ≤ e.eval a
    · exact .inr ⟨if_pos habove, habove⟩
    · exact .inl ⟨if_neg habove, h.resolve_right habove⟩

theorem reify_isExpressed {constraint bigM margin : Value (Extended F)} (hm : m.WellFormed)
    (hc : (Call.reify constraint bigM margin).IsOver m.vars)
    (he : (Call.reify constraint bigM margin).Effect m n answer) :
    (Call.reify constraint bigM margin).IsExpressed m n answer := by
  obtain ⟨c, s, k, delta, hcon, hs, hk, rfl, hdelta, hp⟩ := he
  obtain rfl : bigM = .none := hc.bigM
  cases hk
  obtain ⟨i, rfl⟩ := Value.toConstraint_eq_ok hcon
  obtain ⟨hfinite, hne, hrhs, hvars⟩ :=
    (hc.exact_arg (x := .constraint c i) (by simp [Call.arguments])).toConstraint hcon
  have hv : ∀ v ∈ c.expr.vars, m.Has v := fun v hv =>
    hc.has (x := .constraint c i) (by simp [Call.arguments]) (hvars ▸ hv)
  have hgiven := hc.exact_arg (x := margin) (by simp [Call.arguments])
  have hmean : ∀ a : Assignment F, (Call.reify (.constraint c i) .none margin).Meaning a
      [a delta.id] ↔ (a delta.id = 1 ∧ c.Says a) ∨
        (a delta.id = 0 ∧ c.FailsBy (c.margin margin) a) := by
    intro a
    simp [Call.Meaning, Value.Says, Value.Fails]
  refine Expresses.congr (fun a => (hmean a).symm) ?_
  unfold Build.TruthParts at hp
  unfold Constraint.Says Constraint.FailsBy
  cases hr : c.relation with
  | le =>
    rw [hr, hrhs] at hp
    exact atMost_expresses hm hv hdelta
      (fun q hq => (Build.chooseMargin_eq_ok hgiven hs (by rw [← hrhs]) hq).1) hp
  | ge =>
    have hv' : ∀ v ∈ c.expr.negate.vars, m.Has v := by
      intro v hmem
      obtain ⟨t, ht, rfl⟩ := List.mem_map.1 hmem
      obtain ⟨u, hu, rfl⟩ := List.mem_map.1 (List.mem_filter.1 ht).1
      exact hv u.1 (List.mem_map_of_mem hu)
    rw [hr, hrhs, Extended.neg_finite] at hp
    have hdefault : Reify.defaultMargin c.expr.negate (.finite (-c.rhs.number)) =
        Reify.defaultMargin c.expr c.rhs := by
      rw [hrhs, Extended.number_finite, ← Extended.neg_finite,
        Reify.defaultMargin_negate c.expr (LinearExpr.isRetained_of_isZero c.expr) hne]
    refine Expresses.congr (fun a => ?_) (atMost_expresses hm hv' hdelta
      (fun q hq => (Build.chooseMargin_eq_ok hgiven hs hdefault hq).1) hp)
    rw [LinearExpr.eval_negate, neg_le_neg_iff]
    refine or_congr Iff.rfl (and_congr_right' ?_)
    change _ ↔ c.expr.eval a ≤ c.rhs.number - c.margin margin
    constructor <;> intro h <;> linarith
  | eq =>
    rw [hr, hrhs] at hp
    have hread : ∀ q, Build.chooseMargin c.expr (.finite c.rhs.number) s = .ok q →
        q = .finite (c.margin margin) ∧ 0 < c.margin margin := fun q hq =>
      Build.chooseMargin_eq_ok hgiven hs (by rw [← hrhs]) hq
    have hpos : 0 < c.margin margin := by
      obtain ⟨_, q, _, _, hq, _⟩ := hp
      exact (hread q hq).2
    exact equality_expresses hm hv hdelta hpos (fun q hq => (hread q hq).1) hp

end Model

end MixedInteger
