import MixedInteger.Proofs.Linear.Retained
import MixedInteger.Proofs.Reformulation.Completion
import MixedInteger.Proofs.Reformulation.TruthExact

/-!
# Completions by the truth of a constraint

The truth of a constraint adds one or two binary variables.  Which values they may have depends on
the number of the expression only.  This file says how, for rows from which small coefficients are
dropped, and for bounds that need not contain the number.

## What is here

* `Constraint.turned` — a lower bound, written as an upper bound.
* `Reify.Admits`, `Reify.coefficients` — what the rows say about numbers, and the coefficients that
  they have for the binary variables.
* `Reify.admits_sound`, `Reify.admits_complete` — where these are retained.
* `Reify.admits_intCast_iff` — between integers, whether they are retained or not.
* `Build.TruthParts.exists_completes_iff` — that these are the values a completion can have.
* `Build.perform_reify_succeeds` — when the call succeeds.
-/

set_option autoImplicit false

namespace MixedInteger

open Arithmetic

/-! ## Constraints turned round -/

section Turned

variable {K : Type} [Arithmetic K]

/-- A lower bound, written as an upper bound on the expression with its signs changed. -/
def Constraint.turned (c : Constraint K) : Constraint K :=
  match c.relation with
  | .ge => ⟨c.expr.negate, .le, -c.rhs, c.name⟩
  | _ => c

namespace Constraint

variable {c : Constraint K}

theorem turned_of_eq_ge (h : c.relation = .ge) :
    c.turned = ⟨c.expr.negate, .le, -c.rhs, c.name⟩ := by
  rw [turned, h]

theorem turned_of_ne_ge (h : c.relation ≠ .ge) : c.turned = c := by
  unfold turned
  split
  next hc => exact absurd hc h
  next => rfl

theorem relation_turned_ne (c : Constraint K) : c.turned.relation ≠ .ge := by
  by_cases h : c.relation = .ge
  · rw [turned_of_eq_ge h]
    exact nofun
  · rwa [turned_of_ne_ge h]

end Constraint

/-- **Both directions of an inequality have the same rows.** -/
theorem Build.reify_turned (c : Constraint K) (k : Option K) (given : Option (Scalar K)) :
    reify c.turned k given = reify c k given := by
  by_cases h : c.relation = .ge
  · rw [Constraint.turned_of_eq_ge h, reify, reify, h]
  · rw [Constraint.turned_of_ne_ge h]

variable [Sensible K]

/-- With bounds and a margin that can be read, the truth of a constraint is added. -/
theorem Build.reify_succeeds {c : Constraint K} {k : Option K} {given : Option (Scalar K)}
    {i : Interval K} {p : K} (hi : c.turned.expr.finiteInterval "reify" k = .ok i)
    (hp : chooseMargin c.turned.expr c.turned.rhs given = .ok p) (m : Model K) :
    Succeeds (reify c k given) m fun delta n =>
      delta.IsOf .binary ⟨zero, one⟩ ∧ TruthParts c.turned k given m delta n := by
  rw [← reify_turned, reify]
  unfold TruthParts
  cases hr : c.turned.relation with
  | le => exact reifyAtMost_succeeds hi hp m
  | ge => exact absurd hr c.relation_turned_ne
  | eq => exact reifyEquals_succeeds hi hp m

/-- The call succeeds on a constraint, with bounds and a margin that can be read. -/
theorem Build.perform_reify_succeeds {c : Constraint K} {j : Option ConstraintId}
    {bigM margin : Value K} {k : Option K} {given : Option (Scalar K)} {i : Interval K} {p : K}
    (hk : bigM.toNumber? = .ok k) (hgiven : toMargin margin = .ok given)
    (hi : c.turned.expr.finiteInterval "reify" k = .ok i)
    (hp : chooseMargin c.turned.expr c.turned.rhs given = .ok p) (m : Model K) :
    Succeeds (perform (.reify (.constraint c j) bigM margin)) m fun answer n =>
      ∃ delta, answer = .var delta ∧ delta.IsOf .binary ⟨zero, one⟩ ∧
        TruthParts c.turned k given m delta n := by
  refine .map ?_
  rw [reifyOf, hgiven, hk, Value.toConstraint]
  refine .lift_bind (.lift_bind (.lift_bind ((reify_succeeds hi hp m).mono ?_)))
  rintro delta n ⟨hdelta, hparts⟩
  exact ⟨delta, rfl, hdelta, hparts⟩

end Turned

variable {F : Type} [Field F] [LinearOrder F] [FloorRing F] [ToString F] [Extended.Tolerance F]
  [IsStrictOrderedRing F]

open Extended

namespace Constraint

variable {c : Constraint (Extended F)} {a : Assignment F} {b p : F}

omit [IsStrictOrderedRing F] in
theorem isFinite_turned [c.expr.IsFinite] : c.turned.expr.IsFinite := by
  by_cases h : c.relation = .ge
  · rw [turned_of_eq_ge h]
    infer_instance
  · rw [turned_of_ne_ge h]
    infer_instance

omit [IsStrictOrderedRing F] in
theorem isRetained_turned [c.expr.IsFinite] (he : c.expr.IsRetained) :
    c.turned.expr.IsRetained := by
  by_cases h : c.relation = .ge
  · rw [turned_of_eq_ge h]
    exact LinearExpr.isRetained_negate c.expr
  · rwa [turned_of_ne_ge h]

omit [IsStrictOrderedRing F] in
theorem vars_turned_subset (c : Constraint (Extended F)) : c.turned.expr.vars ⊆ c.expr.vars := by
  by_cases h : c.relation = .ge
  · rw [turned_of_eq_ge h]
    exact LinearExpr.vars_negate_subset c.expr
  · rw [turned_of_ne_ge h]
    exact List.Subset.refl _

omit [IsStrictOrderedRing F] in
theorem exists_rhs_turned (hb : c.rhs = .finite b) : ∃ b', c.turned.rhs = .finite b' := by
  by_cases h : c.relation = .ge
  · rw [turned_of_eq_ge h, hb]
    exact ⟨-b, rfl⟩
  · rw [turned_of_ne_ge h, hb]
    exact ⟨b, rfl⟩

omit [IsStrictOrderedRing F] in
theorem eval_turned [c.expr.IsFinite] (he : c.expr.IsRetained) (a : Assignment F) :
    c.turned.expr.eval a = c.expr.eval a ∨ c.turned.expr.eval a = -c.expr.eval a := by
  by_cases h : c.relation = .ge
  · rw [turned_of_eq_ge h]
    exact .inr (LinearExpr.eval_negate_of_isRetained he)
  · rw [turned_of_ne_ge h]
    exact .inl rfl

theorem isFinite_interval_turned [c.expr.IsFinite] (he : c.expr.IsRetained) :
    c.turned.expr.interval.isFinite = c.expr.interval.isFinite := by
  by_cases h : c.relation = .ge
  · rw [turned_of_eq_ge h, LinearExpr.interval_negate he, Interval.isFinite_negate]
  · rw [turned_of_ne_ge h]

theorem says_turned_iff [c.expr.IsFinite] (he : c.expr.IsRetained) (hb : c.rhs = .finite b) :
    c.turned.Says a ↔ c.Says a := by
  by_cases h : c.relation = .ge
  · rw [turned_of_eq_ge h, Says, Says, h, hb, LinearExpr.eval_negate_of_isRetained he, neg_finite,
      number_finite, number_finite]
    exact neg_le_neg_iff
  · rw [turned_of_ne_ge h]

theorem failsBy_turned_iff [c.expr.IsFinite] (he : c.expr.IsRetained) (hb : c.rhs = .finite b) :
    c.turned.FailsBy p a ↔ c.FailsBy p a := by
  by_cases h : c.relation = .ge
  · rw [turned_of_eq_ge h, FailsBy, FailsBy, h, hb, LinearExpr.eval_negate_of_isRetained he,
      neg_finite, number_finite, number_finite]
    change -b + p ≤ -c.expr.eval a ↔ c.expr.eval a ≤ b - p
    rw [le_neg, neg_add, neg_neg, ← sub_eq_add_neg]
  · rw [turned_of_ne_ge h]

end Constraint

/-! ## Numbers -/

namespace Reify

/-- The rows of an inequality say that the binary variable can be `d` when the expression is `x`. -/
def AdmitsAtMost (l u b p x d : F) : Prop :=
  x + kept (u - b) * d ≤ u ∧ b + p ≤ x - kept (l - b - p) * d

/-- The rows of an equality do, with a second binary variable that can be `s`. -/
def AdmitsEquality (k b p x d s : F) : Prop :=
  x + kept k * d ≤ b + k ∧ b - k ≤ x - kept k * d ∧
    b - k ≤ x - kept (k + p) * s + kept (k + p) * d ∧
    x - kept (k + p) * s - kept (k + p) * d ≤ b - p

/-- The rows of the truth of a constraint say that its variable can be `d` when the expression is `x`,
where the bounds of the expression are `l` and `u`, the right-hand side is `b` and the margin is
`p`. -/
def Admits (r : Relation) (l u b p x d : F) : Prop :=
  (d = 0 ∨ d = 1) ∧ match r with
    | .eq => ∃ s, (s = 0 ∨ s = 1) ∧ AdmitsEquality (max (u - b) (b - l)) b p x d s
    | _ => AdmitsAtMost l u b p x d

/-- The coefficients of the binary variables in these rows. -/
def coefficients (r : Relation) (l u b p : F) : List F :=
  match r with
  | .eq => [max (u - b) (b - l), max (u - b) (b - l) + p]
  | _ => [u - b, l - b - p]

variable {r : Relation} {l u b p x d : F}

omit [FloorRing F] [ToString F] [IsStrictOrderedRing F] in
theorem retained_atMost_iff : (∀ k ∈ coefficients .le l u b p, Retained k) ↔
    Retained (u - b) ∧ Retained (l - b - p) := by
  simp [coefficients]

omit [FloorRing F] [ToString F] [IsStrictOrderedRing F] in
theorem retained_equality_iff : (∀ k ∈ coefficients .eq l u b p, Retained k) ↔
    Retained (max (u - b) (b - l)) ∧ Retained (max (u - b) (b - l) + p) := by
  simp [coefficients]

omit [FloorRing F] [ToString F] in
/-- **What the rows say is right**, whatever the bounds are. -/
theorem admits_sound (hr : r ≠ .ge) (hk : ∀ k ∈ coefficients r l u b p, Retained k)
    (h : Admits r l u b p x d) : (d = 1 ∧ r.Holds x b) ∨ (d = 0 ∧ r.FailsBy p x b) := by
  obtain ⟨hd, h⟩ := h
  cases r with
  | ge => exact absurd rfl hr
  | le =>
    obtain ⟨hu, hl⟩ := retained_atMost_iff.1 hk
    change AdmitsAtMost l u b p x d at h
    rw [AdmitsAtMost, hu.kept_eq, hl.kept_eq] at h
    rcases hd with rfl | rfl
    · exact .inr ⟨rfl, show b + p ≤ x by linarith⟩
    · exact .inl ⟨rfl, show x ≤ b by linarith⟩
  | eq =>
    obtain ⟨hbig, hmargin⟩ := retained_equality_iff.1 hk
    obtain ⟨s, hs, hrows⟩ := h
    rw [AdmitsEquality, hbig.kept_eq, hmargin.kept_eq] at hrows
    exact (of_equality_numbers hd hs hrows).imp id fun h => ⟨h.1, h.2.imp And.right And.right⟩

omit [FloorRing F] [ToString F] in
/-- **The rows admit all that is right**, if the bounds are. -/
theorem admits_complete (hr : r ≠ .ge) (hk : ∀ k ∈ coefficients r l u b p, Retained k)
    (hp : 0 < p) (hl : l ≤ x) (hu : x ≤ u)
    (h : (d = 1 ∧ r.Holds x b) ∨ (d = 0 ∧ r.FailsBy p x b)) : Admits r l u b p x d := by
  have hd : d = 0 ∨ d = 1 := h.symm.imp And.left And.left
  refine ⟨hd, ?_⟩
  cases r with
  | ge => exact absurd rfl hr
  | le =>
    obtain ⟨hupper, hlower⟩ := retained_atMost_iff.1 hk
    change AdmitsAtMost l u b p x d
    rw [AdmitsAtMost, hupper.kept_eq, hlower.kept_eq]
    rcases h with ⟨rfl, h : x ≤ b⟩ | ⟨rfl, h : b + p ≤ x⟩
    · exact ⟨by linarith, by linarith⟩
    · exact ⟨by linarith, by linarith⟩
  | eq =>
    obtain ⟨hbig, hmargin⟩ := retained_equality_iff.1 hk
    change ∃ s, (s = 0 ∨ s = 1) ∧ AdmitsEquality (max (u - b) (b - l)) b p x d s
    simp only [AdmitsEquality, hbig.kept_eq, hmargin.kept_eq]
    -- the side is the one on which the equality fails
    rcases h with ⟨rfl, h : x = b⟩ | ⟨rfl, h | h⟩
    · exact ⟨0, .inl rfl, (equality_numbers hp hl hu rfl hd (.inl rfl)).2 (.inl ⟨rfl, h⟩)⟩
    · exact ⟨0, .inl rfl, (equality_numbers hp hl hu rfl hd (.inl rfl)).2
        (.inr ⟨rfl, .inl ⟨rfl, h⟩⟩)⟩
    · exact ⟨1, .inr rfl, (equality_numbers hp hl hu rfl hd (.inr rfl)).2
        (.inr ⟨rfl, .inr ⟨rfl, h⟩⟩)⟩

section Integers

variable {x b : Int} (ht : (Tolerance.tolerance : F) < 1) (hl : l ≤ x) (hu : (x : F) ≤ u)

include ht hl hu

omit [ToString F] in
/-- Between integers a dropped coefficient does not matter to an inequality: it is below one. -/
theorem admitsAtMost_intCast_iff (hd : d = 0 ∨ d = 1) :
    AdmitsAtMost l u (b : F) 1 x d ↔ (d = 1 ∧ x ≤ b) ∨ (d = 0 ∧ b < x) := by
  have hlt : (b : F) + 1 ≤ x ↔ b < x := by
    rw [← Int.add_one_le_iff]
    norm_cast
  have hle : (x : F) ≤ b ↔ x ≤ b := Int.cast_le
  have hnear : (x : F) < b + 1 → x ≤ b := fun h => not_lt.1 fun h' => absurd (hlt.2 h') h.not_ge
  rw [AdmitsAtMost]
  rcases hd with rfl | rfl
  · rw [mul_zero, mul_zero, add_zero, sub_zero, hlt]
    simp [hu]
  · rw [mul_one, mul_one]
    constructor
    · rintro ⟨h, -⟩
      refine .inl ⟨rfl, ?_⟩
      rcases kept_eq_or ht (u - b) with hk | ⟨hk, hsmall⟩
      · exact hle.1 (by linarith)
      · exact hnear (by linarith [(abs_lt.1 hsmall).2])
    · rintro (⟨-, h⟩ | ⟨h, -⟩)
      · have hxb := hle.2 h
        refine ⟨?_, ?_⟩
        · rcases kept_eq_or ht (u - b) with hk | ⟨hk, -⟩ <;> linarith
        · rcases kept_eq_or ht (l - b - 1) with hk | ⟨-, hsmall⟩
          · linarith
          · linarith [(abs_lt.1 hsmall).1]
      · exact absurd h one_ne_zero

omit [ToString F] in
/-- Nor does it to an equality. -/
theorem admitsEquality_intCast_iff (hd : d = 0 ∨ d = 1) :
    (∃ s, (s = 0 ∨ s = 1) ∧ AdmitsEquality (max (u - b) (b - l)) (b : F) 1 x d s) ↔
      (d = 1 ∧ x = b) ∨ (d = 0 ∧ x ≠ b) := by
  have hku : (x : F) - b ≤ max (u - b) (b - l) := le_max_of_le_left (by linarith)
  have hkl : (b : F) - x ≤ max (u - b) (b - l) := le_max_of_le_right (by linarith)
  generalize max (u - b) (b - l) = k at hku hkl
  have hk : 0 ≤ k := by linarith
  have hone : kept (k + 1) = k + 1 :=
    kept_of_lt (ht.trans_le (le_abs.2 (.inl (by linarith))))
  have hbelow : (x : F) ≤ b - 1 ↔ x < b := by
    rw [← Int.le_sub_one_iff]
    norm_cast
  have habove : (b : F) + 1 ≤ x ↔ b < x := by
    rw [← Int.add_one_le_iff]
    norm_cast
  simp only [AdmitsEquality, hone]
  rcases hd with rfl | rfl
  · constructor
    · rintro ⟨s, rfl | rfl, -, -, h₃, h₄⟩
      · exact .inr ⟨rfl, (hbelow.1 (by linarith)).ne⟩
      · exact .inr ⟨rfl, (habove.1 (by linarith)).ne'⟩
    · rintro (⟨h, -⟩ | ⟨-, h⟩)
      · exact absurd h zero_ne_one
      · rcases lt_or_gt_of_ne h with h | h
        · have hx := hbelow.2 h
          exact ⟨0, .inl rfl, by linarith, by linarith, by linarith, by linarith⟩
        · have hx := habove.2 h
          exact ⟨1, .inr rfl, by linarith, by linarith, by linarith, by linarith⟩
  · constructor
    · rintro ⟨s, -, h₁, h₂, -⟩
      refine .inl ⟨rfl, ?_⟩
      rcases kept_eq_or ht k with hkept | ⟨-, hsmall⟩
      · exact Int.cast_injective (α := F) (by linarith)
      · have hk₁ := (abs_lt.1 hsmall).2
        refine le_antisymm (not_lt.1 fun h => ?_) (not_lt.1 fun h => ?_)
        · linarith [habove.2 h]
        · linarith [hbelow.2 h]
    · rintro (⟨-, rfl⟩ | ⟨h, -⟩)
      · have hle : kept k ≤ k := by
          rcases kept_eq_or ht k with hkept | ⟨hkept, -⟩ <;> linarith
        exact ⟨0, .inl rfl, by linarith, by linarith, by linarith, by linarith⟩
      · exact absurd h one_ne_zero

omit [ToString F] in
/-- **Between integers the rows are exact**, whether or not coefficients are dropped. -/
theorem admits_intCast_iff (hr : r ≠ .ge) : Admits r l u (b : F) 1 x d ↔
    (d = 1 ∧ r.Holds (x : F) b) ∨ (d = 0 ∧ ¬r.Holds (x : F) b) := by
  by_cases hd : d = 0 ∨ d = 1
  · cases r with
    | ge => exact absurd rfl hr
    | le =>
      refine (and_iff_right hd).trans ((admitsAtMost_intCast_iff ht hl hu hd).trans (or_congr ?_ ?_))
      · exact and_congr_right' Int.cast_le.symm
      · exact and_congr_right' (Int.cast_lt.symm.trans not_le.symm)
    | eq =>
      refine (and_iff_right hd).trans ((admitsEquality_intCast_iff ht hl hu hd).trans
        (or_congr ?_ ?_))
      · exact and_congr_right' Int.cast_inj.symm
      · exact and_congr_right' (not_congr Int.cast_inj.symm)
  · exact iff_of_false (fun h => hd h.1) fun h => hd (h.symm.imp And.left And.left)

end Integers

/-! ## Rows -/

section Rows

variable {a : Assignment F} {e : LinearExpr (Extended F)} {delta side : Variable (Extended F)}
  {l u b k p : F}

/-- The rows of an inequality, from which small coefficients are dropped. -/
theorem admitsAtMost_iff (ht : (Tolerance.tolerance : F) < 1) [e.IsFinite] (he : e.IsRetained)
    (hdelta : ∀ v ∈ e.vars, v.id ≠ delta.id) :
    (∀ c ∈ [holdsRow e (.finite b) ⟨.finite l, .finite u⟩ delta,
      failsRow e (.finite b) (.finite p) ⟨.finite l, .finite u⟩ delta], c.holds a.lift = true) ↔
      AdmitsAtMost l u b p (e.eval a) (a delta.id) := by
  have hv : ∀ t ∈ e.terms, t.1.id ≠ delta.id := fun t hmem =>
    hdelta t.1 (List.mem_map_of_mem hmem)
  rw [List.forall_mem_cons, List.forall_mem_singleton, AdmitsAtMost]
  refine and_congr ?_ ?_
  · simp [holdsRow, LinearExpr.eval_plus_monomial ht he hv]
  · simp [failsRow, LinearExpr.eval_minus_monomial ht he hv]

/-- The rows of an equality. -/
theorem admitsEquality_iff (ht : (Tolerance.tolerance : F) < 1) [e.IsFinite] (he : e.IsRetained)
    (hdelta : ∀ v ∈ e.vars, v.id ≠ delta.id) (hside : ∀ v ∈ e.vars, v.id ≠ side.id)
    (hne : side.id ≠ delta.id) :
    (∀ c ∈ equalityRows e (.finite b) (.finite p) (.finite k) delta side, c.holds a.lift = true) ↔
      AdmitsEquality k b p (e.eval a) (a delta.id) (a side.id) := by
  have hv : ∀ t ∈ e.terms, t.1.id ≠ delta.id := fun t hmem =>
    hdelta t.1 (List.mem_map_of_mem hmem)
  have hw : ∀ t ∈ e.terms, t.1.id ≠ side.id := fun t hmem => hside t.1 (List.mem_map_of_mem hmem)
  -- the third and the fourth row have a term for each of the two variables
  have hboth : ∀ t ∈ (e.minus (LinearExpr.monomial (.finite (k + p)) side)).terms,
      t.1.id ≠ delta.id := by
    intro t hmem
    rcases LinearExpr.mem_terms_combine hmem with h | h
    · exact hdelta t.1 h
    · rw [LinearExpr.mem_vars_of_monomial h]
      exact hne
  have hretained : (e.minus (LinearExpr.monomial (.finite (k + p)) side)).IsRetained :=
    LinearExpr.isRetained_combine e _ _
  simp [equalityRows, AdmitsEquality, LinearExpr.eval_plus_monomial ht he hv,
    LinearExpr.eval_minus_monomial ht he hv, LinearExpr.eval_minus_monomial ht he hw,
    LinearExpr.eval_plus_monomial ht hretained hboth,
    LinearExpr.eval_minus_monomial ht hretained hboth]

end Rows

end Reify

/-! ## Completions -/

namespace Build

variable {m n : Model (Extended F)} {delta : Variable (Extended F)} {a : Assignment F}
  {e : LinearExpr (Extended F)} {k : Option (Extended F)} {given : Option (Scalar (Extended F))}
  {l u b p d : F}

theorem AtMostParts.exists_completes_iff (ht : (Tolerance.tolerance : F) < 1) (hm : m.WellFormed)
    [e.IsFinite] (he : e.IsRetained) (hv : ∀ v ∈ e.vars, m.Knows v)
    (hdelta : delta.IsOf .binary ⟨zero, one⟩)
    (hi : e.finiteInterval "reify" k = .ok ⟨.finite l, .finite u⟩)
    (hp : chooseMargin e (.finite b) given = .ok (.finite p))
    (h : AtMostParts e (.finite b) k given m delta n) :
    (∃ a', m.Completes n a a' ∧ a' delta.id = d) ↔
      (d = 0 ∨ d = 1) ∧ Reify.AdmitsAtMost l u b p (e.eval a) d := by
  obtain ⟨i, q, hi', hq, hg⟩ := h
  cases hi.symm.trans hi'
  cases hp.symm.trans hq
  have hne : ∀ v ∈ e.vars, v.id ≠ delta.id := fun v hmem =>
    hg.id_ne_of_knows hm (hv v hmem) List.mem_cons_self
  constructor
  · rintro ⟨a', ha', rfl⟩
    obtain ⟨hagrees, hallows, hrows⟩ := hg.completes_iff.1 ha'
    rw [List.forall_mem_singleton, hdelta.allows_binary] at hallows
    rw [Reify.admitsAtMost_iff ht he hne, hg.eval_eq hm hv hagrees] at hrows
    exact ⟨hallows, hrows⟩
  · rintro ⟨hd, hadmits⟩
    obtain ⟨a', ha', hvalue⟩ := hg.exists_completes (a := a) [d] rfl fun a' hagrees hvalue => by
      have hvalue : a' delta.id = d := by simpa using hvalue
      rw [List.forall_mem_singleton, hdelta.allows_binary, Reify.admitsAtMost_iff ht he hne,
        hg.eval_eq hm hv hagrees, hvalue]
      exact ⟨hd, hadmits⟩
    exact ⟨a', ha', by simpa using hvalue⟩

theorem EqualsParts.exists_completes_iff (ht : (Tolerance.tolerance : F) < 1) (hm : m.WellFormed)
    [e.IsFinite] (he : e.IsRetained) (hv : ∀ v ∈ e.vars, m.Knows v)
    (hdelta : delta.IsOf .binary ⟨zero, one⟩)
    (hi : e.finiteInterval "reify" k = .ok ⟨.finite l, .finite u⟩)
    (hp : chooseMargin e (.finite b) given = .ok (.finite p))
    (h : EqualsParts e (.finite b) k given m delta n) :
    (∃ a', m.Completes n a a' ∧ a' delta.id = d) ↔ (d = 0 ∨ d = 1) ∧ ∃ s, (s = 0 ∨ s = 1) ∧
      Reify.AdmitsEquality (max (u - b) (b - l)) b p (e.eval a) d s := by
  obtain ⟨i, q, side, hi', hq, hside, hg⟩ := h
  cases hi.symm.trans hi'
  cases hp.symm.trans hq
  have hreach : Reify.reach (.finite b) ⟨.finite l, .finite u⟩ =
      (.finite (max (u - b) (b - l)) : Extended F) := by simp [Reify.reach]
  rw [hreach] at hg
  have hne : ∀ v ∈ e.vars, v.id ≠ delta.id := fun v hmem =>
    hg.id_ne_of_knows hm (hv v hmem) List.mem_cons_self
  have hne' : ∀ v ∈ e.vars, v.id ≠ side.id := fun v hmem =>
    hg.id_ne_of_knows hm (hv v hmem) (List.mem_cons_of_mem _ List.mem_cons_self)
  have happart : side.id ≠ delta.id := by
    have hids := hg.nodup_ids
    simp only [List.map_cons, List.map_nil, List.nodup_cons, List.mem_singleton] at hids
    exact fun h => hids.1 h.symm
  constructor
  · rintro ⟨a', ha', rfl⟩
    obtain ⟨hagrees, hallows, hrows⟩ := hg.completes_iff.1 ha'
    rw [List.forall_mem_cons, List.forall_mem_singleton, hdelta.allows_binary,
      hside.allows_binary] at hallows
    rw [Reify.admitsEquality_iff ht he hne hne' happart, hg.eval_eq hm hv hagrees] at hrows
    exact ⟨hallows.1, _, hallows.2, hrows⟩
  · rintro ⟨hd, s, hs, hadmits⟩
    obtain ⟨a', ha', hvalues⟩ :=
      hg.exists_completes (a := a) [d, s] rfl fun a' hagrees hvalues => by
        obtain ⟨hvalue, hother⟩ : a' delta.id = d ∧ a' side.id = s := by simpa using hvalues
        rw [List.forall_mem_cons, List.forall_mem_singleton, hdelta.allows_binary,
          hside.allows_binary, Reify.admitsEquality_iff ht he hne hne' happart,
          hg.eval_eq hm hv hagrees, hvalue, hother]
        exact ⟨⟨hd, hs⟩, hadmits⟩
    obtain ⟨hvalue, -⟩ : a' delta.id = d ∧ a' side.id = s := by simpa using hvalues
    exact ⟨a', ha', hvalue⟩

/-- **The values of the truth of a constraint** in completions of an assignment are those that the
rows admit at the number of the expression. -/
theorem TruthParts.exists_completes_iff {c : Constraint (Extended F)} (hc : c.relation ≠ .ge)
    (ht : (Tolerance.tolerance : F) < 1) (hm : m.WellFormed) [c.expr.IsFinite]
    (he : c.expr.IsRetained) (hv : ∀ v ∈ c.expr.vars, m.Knows v) (hb : c.rhs = .finite b)
    (hdelta : delta.IsOf .binary ⟨zero, one⟩)
    (hi : c.expr.finiteInterval "reify" k = .ok ⟨.finite l, .finite u⟩)
    (hp : chooseMargin c.expr c.rhs given = .ok (.finite p))
    (h : TruthParts c k given m delta n) :
    (∃ a', m.Completes n a a' ∧ a' delta.id = d) ↔
      Reify.Admits c.relation l u b p (c.expr.eval a) d := by
  unfold TruthParts at h
  rw [hb] at h hp
  cases hr : c.relation with
  | ge => exact absurd hr hc
  | le =>
    rw [hr] at h
    exact AtMostParts.exists_completes_iff ht hm he hv hdelta hi hp h
  | eq =>
    rw [hr] at h
    exact EqualsParts.exists_completes_iff ht hm he hv hdelta hi hp h

end Build

end MixedInteger
