import MixedInteger.Proofs.Linear.Proper
import MixedInteger.Proofs.Linear.Retained

/-!
# Tight bounds

The bounds of an expression are the best there are: each end is reached by some assignment within
the bounds of the variables, or it is infinite because there is no bound on that side.  Every
variable occurs once, so that each term can be brought to its end without moving another one.

## What is here

* `Extended.IsLowerEnd`, `Extended.IsUpperEnd` — the end of a set, which may be infinite.
* `Interval.Spans` — both ends of a set, with one lemma for a variable and one for a further term.
* `LinearExpr.spans_interval` — the bounds of an expression are the ends of what it comes to.
* `Value.intervalOf_spec` — nothing within the bounds of the variables is outside, and there are no
  better bounds.
-/

set_option autoImplicit false

namespace MixedInteger

open Arithmetic
open scoped Pointwise

variable {F : Type} [Field F] [LinearOrder F]

/-! ## Ends of sets -/

namespace Extended

/-- The lower end of a set: its least number, or minus infinity where the set has no lower bound. -/
def IsLowerEnd (l : Extended F) (S : Set F) : Prop :=
  match l with
  | finite x => IsLeast S x
  | infinite true => ¬BddBelow S
  | _ => False

/-- The upper end of a set, which is the lower end of the set turned round zero. -/
def IsUpperEnd (u : Extended F) (S : Set F) : Prop := IsLowerEnd (-u) (-S)

variable {l k u : Extended F} {S T : Set F} {c : F}

omit [Field F] in
theorem IsLowerEnd.cases (h : IsLowerEnd l S) :
    (l = infinite true ∧ ¬BddBelow S) ∨ ∃ x, l = finite x ∧ IsLeast S x := by
  rcases l with _ | n | x
  · exact h.elim
  · cases n
    · exact h.elim
    · exact .inl ⟨rfl, h⟩
  · exact .inr ⟨x, rfl, h⟩

theorem IsLowerEnd.nonempty (h : IsLowerEnd l S) : S.Nonempty := by
  rcases h.cases with ⟨-, hS⟩ | ⟨x, -, hS⟩
  · exact nonempty_of_not_bddBelow hS
  · exact hS.nonempty

variable [IsStrictOrderedRing F]

theorem IsUpperEnd.cases (h : IsUpperEnd u S) :
    (u = infinite false ∧ ¬BddAbove S) ∨ ∃ x, u = finite x ∧ IsGreatest S x := by
  rcases IsLowerEnd.cases h with ⟨hu, hS⟩ | ⟨x, hu, hS⟩
  · exact .inl ⟨neg_eq_iff_eq_neg.1 hu, fun h => hS (bddBelow_neg.2 h)⟩
  · exact .inr ⟨-x, neg_eq_iff_eq_neg.1 hu, hS.1, (isGLB_neg.1 hS.isGLB).1⟩

theorem not_bddBelow_add (hS : ¬BddBelow S) (hT : T.Nonempty) : ¬BddBelow (S + T) := by
  rintro ⟨b, hb⟩
  obtain ⟨y, hy⟩ := hT
  refine hS ⟨b - y, fun x hx => ?_⟩
  exact sub_le_iff_le_add.2 (hb (Set.add_mem_add hx hy))

/-- The ends of two sets add up to the end of the sums. -/
theorem IsLowerEnd.add (hl : IsLowerEnd l S) (hk : IsLowerEnd k T) :
    IsLowerEnd (l + k) (S + T) := by
  rcases hl.cases with ⟨rfl, hS⟩ | ⟨x, rfl, hS⟩
  · rcases hk.cases with ⟨rfl, -⟩ | ⟨y, rfl, -⟩ <;> exact not_bddBelow_add hS hk.nonempty
  · rcases hk.cases with ⟨rfl, hT⟩ | ⟨y, rfl, hT⟩
    · rw [add_comm S T]
      exact not_bddBelow_add hT hl.nonempty
    · exact ⟨Set.add_mem_add hS.1 hT.1, add_mem_lowerBounds_add hS.2 hT.2⟩

theorem IsUpperEnd.add (hl : IsUpperEnd l S) (hk : IsUpperEnd k T) :
    IsUpperEnd (l + k) (S + T) := by
  rw [IsUpperEnd, neg_sum, neg_add]
  exact IsLowerEnd.add hl hk

/-- A positive multiple keeps the end of a set. -/
theorem IsLowerEnd.mul (hc : 0 < c) (hl : IsLowerEnd l S) :
    IsLowerEnd (finite c * l) (c • S) := by
  rcases hl.cases with ⟨rfl, hS⟩ | ⟨x, rfl, hS⟩
  · rw [finite_mul_infinite, scaleInfinity_pos true hc]
    exact fun h => hS ((bddBelow_smul_iff_of_pos hc).1 h)
  · exact (monotone_mul_left_of_nonneg hc.le).map_isLeast hS

theorem IsUpperEnd.mul (hc : 0 < c) (hl : IsUpperEnd l S) :
    IsUpperEnd (finite c * l) (c • S) := by
  rw [IsUpperEnd, ← mul_neg, ← Set.smul_set_neg]
  exact IsLowerEnd.mul hc hl

/-- A negative multiple exchanges the ends of a set. -/
theorem IsUpperEnd.mul_of_neg (hc : c < 0) (hu : IsUpperEnd u S) :
    IsLowerEnd (finite c * u) (c • S) := by
  have h := IsLowerEnd.mul (neg_pos.2 hc) hu
  rwa [finite_neg_mul, mul_neg, neg_neg, Set.neg_smul_set, Set.smul_set_neg, neg_neg] at h

theorem IsLowerEnd.mul_of_neg (hc : c < 0) (hl : IsLowerEnd l S) :
    IsUpperEnd (finite c * l) (c • S) := by
  have h := hl.mul (neg_pos.2 hc)
  rwa [finite_neg_mul, Set.neg_smul_set] at h

end Extended

/-! ## Intervals -/

section Ends

variable [FloorRing F] [ToString F] [Extended.Tolerance F]

namespace Extended

theorem finite_le_of_le {u : Extended F} {x y : F} (hyx : y ≤ x)
    (hx : Arithmetic.le (finite x) u = true) : Arithmetic.le (finite y) u = true := by
  rcases finite_of_ge hx with rfl | ⟨z, rfl, hz⟩
  · rfl
  · simpa using hyx.trans hz

end Extended

namespace Interval

theorem le_of_isProper {K : Type} [Arithmetic K] [Comparable K] {i : Interval K}
    (h : i.isProper = true) : le i.lower i.upper = true := by
  rw [isProper, Bool.not_eq_true', Bool.or_eq_false_iff, Bool.or_eq_false_iff] at h
  exact Comparable.le_of_not_lt h.1.1 h.1.2 h.2

variable {i : Interval (Extended F)} {S T : Set F} {x : F}

/-- The ends of an interval are the ends of a set. -/
structure Spans (i : Interval (Extended F)) (S : Set F) : Prop where
  lower : Extended.IsLowerEnd i.lower S
  upper : Extended.IsUpperEnd i.upper S

/-- The numbers in an interval. -/
def box (i : Interval (Extended F)) : Set F := {x | i.Contains x}

/-- Bounds that a variable can have, and that are infinite on their own side only, leave a number
between them. -/
theorem exists_contains (h : i.isProper = true) (hl : lt i.lower infinity = true)
    (hu : lt negInfinity i.upper = true) : ∃ x, i.Contains x := by
  obtain ⟨l, u⟩ := i
  rcases l with _ | m | y <;> rcases u with _ | n | z
  · cases h
  · cases h
  · cases h
  · cases h
  · cases m
    · cases hl
    cases n
    · exact ⟨0, rfl, rfl⟩
    · cases hu
  · cases m
    · cases hl
    · exact ⟨z, rfl, by simp⟩
  · cases h
  · cases n
    · exact ⟨y, by simp, rfl⟩
    · cases hu
  · have hyz : y ≤ z := by
      simpa [isProper, Arithmetic.isNaN] using h
    exact ⟨y, by simp, by simpa using hyz⟩

variable [IsStrictOrderedRing F]

theorem contains_negate : i.negate.Contains x ↔ i.Contains (-x) := by
  have hx : Extended.finite x = -Extended.finite (-x) := congrArg Extended.finite (neg_neg x).symm
  have hlower : le (-i.upper) (.finite x) = le (.finite (-x)) i.upper := by
    rw [hx]
    exact Extended.neg_le_neg_eq _ _
  have hupper : le (.finite x) (-i.lower) = le i.lower (.finite (-x)) := by
    rw [hx]
    exact Extended.neg_le_neg_eq _ _
  exact ⟨fun ⟨hl, hu⟩ => ⟨hupper ▸ hu, hlower ▸ hl⟩, fun ⟨hl, hu⟩ => ⟨hlower ▸ hu, hupper ▸ hl⟩⟩

theorem isLowerEnd_box (h : i.Contains x) : Extended.IsLowerEnd i.lower i.box := by
  rcases Extended.finite_of_le h.lower with hl | ⟨y, hl, hyx⟩
  · rw [hl]
    rintro ⟨b, hb⟩
    have hmem : min x (b - 1) ∈ i.box :=
      ⟨by rw [hl]; rfl, Extended.finite_le_of_le (min_le_left x _) h.upper⟩
    exact absurd ((hb hmem).trans (min_le_right x _)) (sub_one_lt b).not_ge
  · rw [hl]
    refine ⟨⟨by simp [hl], Extended.finite_le_of_le hyx h.upper⟩, fun z hz => ?_⟩
    have hyz : le i.lower (.finite z) = true := Contains.lower hz
    rw [hl] at hyz
    simpa using hyz

/-- **An interval is bounded by its ends**, if there is a number in it. -/
theorem spans_box (h : i.Contains x) : i.Spans i.box := by
  have hneg : i.negate.box = -i.box := Set.ext fun y => contains_negate
  refine ⟨isLowerEnd_box h, ?_⟩
  rw [Extended.IsUpperEnd, ← hneg]
  exact isLowerEnd_box (i := i.negate) (contains_negate.2 (by rwa [neg_neg]))

/-- **A further term moves the ends of a set** by the ends of its variable. -/
theorem Spans.addTerm (h : i.Spans S) {v : Variable (Extended F)} (hv : v.interval.Spans T)
    (c : F) : (i.addTerm (v, .finite c)).Spans (S + c • T) := by
  rcases lt_trichotomy c 0 with hc | rfl | hc
  · rw [Interval.addTerm, Extended.zero_eq, Extended.lt_finite, Extended.lt_finite,
      if_neg (by simpa using hc.le), if_pos (by simpa using hc)]
    exact ⟨h.lower.add (hv.upper.mul_of_neg hc), h.upper.add (hv.lower.mul_of_neg hc)⟩
  · rw [addTerm_zero, Set.zero_smul_set hv.lower.nonempty, add_zero]
    exact h
  · rw [Interval.addTerm, Extended.zero_eq, Extended.lt_finite, if_pos (by simpa using hc)]
    exact ⟨h.lower.add (hv.lower.mul hc), h.upper.add (hv.upper.mul hc)⟩

omit [FloorRing F] [ToString F] [Extended.Tolerance F] [IsStrictOrderedRing F] in
/-- The interval of a constant. -/
theorem spans_constant (c : F) : Spans ⟨.finite c, .finite c⟩ {c} := by
  refine ⟨isLeast_singleton, ?_⟩
  rw [Extended.IsUpperEnd, Set.neg_singleton]
  exact isLeast_singleton

/-- The ends of a set are in order, and numbers. -/
theorem Spans.isProper (h : i.Spans S) : i.isProper = true := by
  obtain ⟨l, u⟩ := i
  rcases h.lower.cases with ⟨hl, -⟩ | ⟨y, hl, hy⟩ <;>
    rcases h.upper.cases with ⟨hu, -⟩ | ⟨z, hu, hz⟩
  all_goals
    obtain rfl : l = _ := hl
    obtain rfl : u = _ := hu
  · rfl
  · rfl
  · rfl
  · have hyz : y ≤ z := hy.2 hz.1
    simpa [Interval.isProper, Arithmetic.isNaN] using hyz

end Interval

/-! ## Terms -/

namespace Terms

/-- The assignments that keep the variables of terms within their bounds. -/
def box (ts : Terms (Extended F)) : Set (Assignment F) :=
  {a | ∀ t ∈ ts, t.1.interval.Contains (a t.1.id)}

/-- What terms come to within the bounds of their variables. -/
def range (ts : Terms (Extended F)) : Set F := (fun a => sum a ts) '' ts.box

theorem range_nil : range (F := F) [] = 0 := by
  refine Set.eq_singleton_iff_unique_mem.2 ⟨⟨0, fun _ h => absurd h List.not_mem_nil, rfl⟩, ?_⟩
  rintro x ⟨a, -, rfl⟩
  rfl

omit [LinearOrder F] [FloorRing F] [ToString F] [Extended.Tolerance F] in
theorem sum_congr {a b : Assignment F} {ts : Terms (Extended F)}
    (h : ∀ t ∈ ts, a t.1.id = b t.1.id) : sum a ts = sum b ts := by
  rw [sum, sum]
  congr 1
  refine List.map_congr_left fun t ht => ?_
  rw [h t ht]

/-- **A variable that occurs once moves its term alone.** -/
theorem range_cons {v : Variable (Extended F)} {c : F} {ts : Terms (Extended F)}
    (hn : ∀ t ∈ ts, t.1.id ≠ v.id) :
    range ((v, .finite c) :: ts) = c • v.interval.box + ts.range := by
  ext x
  constructor
  · rintro ⟨a, ha, rfl⟩
    obtain ⟨hv, hts⟩ := List.forall_mem_cons.1 ha
    exact Set.add_mem_add (Set.smul_mem_smul_set hv) ⟨a, hts, rfl⟩
  · rintro ⟨_, ⟨y, hy, rfl⟩, _, ⟨a, ha, rfl⟩, rfl⟩
    have hother : ∀ t ∈ ts, Function.update a v.id y t.1.id = a t.1.id :=
      fun t ht => Function.update_of_ne (hn t ht) y a
    refine ⟨Function.update a v.id y, List.forall_mem_cons.2 ⟨?_, fun t ht => ?_⟩, ?_⟩
    · rwa [Function.update_self]
    · rw [hother t ht]
      exact ha t ht
    · change sum _ ((v, Extended.finite c) :: ts) = c • y + sum a ts
      rw [sum_cons, sum_congr hother, Function.update_self, Extended.number_finite, smul_eq_mul]

variable [IsStrictOrderedRing F]

/-- Terms one after the other move the ends of a set by the ends of what they come to. -/
theorem spans_foldl {ts : Terms (Extended F)} (hts : ts.IsFinite)
    (hn : (ts.map fun t => t.1.id).Nodup) (hv : ∀ t ∈ ts, ∃ x, t.1.interval.Contains x)
    {i : Interval (Extended F)} {S : Set F} (h : i.Spans S) :
    (ts.foldl Interval.addTerm i).Spans (S + ts.range) := by
  induction ts generalizing i S with
  | nil =>
    rw [range_nil, add_zero]
    exact h
  | cons t ts ih =>
    obtain ⟨v, d⟩ := t
    obtain ⟨⟨c, rfl⟩, hrest⟩ := isFinite_cons.1 hts
    obtain ⟨⟨x, hx⟩, hv⟩ := List.forall_mem_cons.1 hv
    obtain ⟨hfresh, hn⟩ := List.nodup_cons.1 hn
    have hne : ∀ t ∈ ts, t.1.id ≠ v.id := fun t ht hid =>
      hfresh (List.mem_map.2 ⟨t, ht, hid⟩)
    rw [range_cons hne, ← add_assoc]
    exact ih hrest hn hv (h.addTerm (Interval.spans_box hx) c)

end Terms

/-! ## Expressions -/

variable [IsStrictOrderedRing F]

namespace LinearExpr

/-- The assignment keeps the variables of the expression within their bounds. -/
def Admits (e : LinearExpr (Extended F)) (a : Assignment F) : Prop :=
  ∀ v ∈ e.vars, v.interval.Contains (a v.id)

/-- What an expression comes to within the bounds of its variables. -/
def range (e : LinearExpr (Extended F)) : Set F := {x | ∃ a, e.Admits a ∧ e.eval a = x}

omit [IsStrictOrderedRing F] in
theorem range_eq {e : LinearExpr (Extended F)} {c : F} (hc : e.constant = .finite c) :
    e.range = {c} + Terms.range e.terms := by
  ext x
  rw [Set.singleton_add, Terms.range, Set.image_image]
  simp only [range, Admits, vars, List.forall_mem_map, eval, hc, Extended.number_finite]
  rfl

variable {e : LinearExpr (Extended F)}

/-- While the terms are added, the interval has the ends of what has been added so far. -/
theorem exists_spans_take [hf : e.IsFinite] (he : e.IsProper)
    (hv : ∀ v ∈ e.vars, ∃ x, v.interval.Contains x) (k : Nat) :
    ((e.terms.take k).foldl Interval.addTerm ⟨e.constant, e.constant⟩).Spans
      (LinearExpr.range ⟨e.terms.take k, e.constant⟩) := by
  obtain ⟨c, hc⟩ := hf.constant
  rw [range_eq (e := ⟨e.terms.take k, e.constant⟩) hc, hc]
  refine Terms.spans_foldl (fun t ht => hf.terms t (List.mem_of_mem_take ht)) ?_
    (fun t ht => hv _ (List.mem_map_of_mem (List.mem_of_mem_take ht))) (Interval.spans_constant c)
  exact he.nodup.sublist ((List.take_sublist k _).map _)

/-- **The bounds of an expression are the ends of what it comes to.** -/
theorem spans_interval [e.IsFinite] (he : e.IsProper)
    (hv : ∀ v ∈ e.vars, ∃ x, v.interval.Contains x) : e.interval.Spans e.range := by
  have h := exists_spans_take he hv e.terms.length
  rwa [List.take_length] at h

end LinearExpr

namespace Value

/-- **The bounds of an expression are sound and tight.**  Every assignment within the bounds of the
variables brings the expression between the two; a finite end is reached by such an assignment, and
an infinite one cannot be replaced by any number.  While the terms are added, the two ends stay
numbers and in order. -/
theorem intervalOf_spec {e : LinearExpr (Extended F)} [e.IsFinite] (he : e.IsProper)
    (hv : ∀ v ∈ e.vars, lt v.lower infinity = true ∧ lt negInfinity v.upper = true) :
    ∃ i, (expr e).intervalOf = .ok i ∧
      (∀ a, e.Admits a → le i.lower (e.value a.lift) = true ∧ le (e.value a.lift) i.upper = true) ∧
      (isFinite i.lower = true → ∃ a, e.Admits a ∧ e.value a.lift = i.lower) ∧
      (isFinite i.upper = true → ∃ a, e.Admits a ∧ e.value a.lift = i.upper) ∧
      (isFinite i.lower = false → ∀ x, ∃ a, e.Admits a ∧ lt (e.value a.lift) (.finite x) = true) ∧
      (isFinite i.upper = false → ∀ x, ∃ a, e.Admits a ∧ lt (.finite x) (e.value a.lift) = true) ∧
      le i.lower i.upper = true ∧
      ∀ k, ((e.terms.take k).foldl Interval.addTerm ⟨e.constant, e.constant⟩).isProper = true := by
  have hbox : ∀ v ∈ e.vars, ∃ x, v.interval.Contains x := by
    intro v hmem
    obtain ⟨t, ht, rfl⟩ := List.mem_map.1 hmem
    exact Interval.exists_contains (he.vars t ht).interval (hv _ hmem).1 (hv _ hmem).2
  have hspans := LinearExpr.spans_interval he hbox
  refine ⟨e.interval, rfl, fun a ha => ?_, fun h => ?_, fun h => ?_, fun h x => ?_, fun h x => ?_,
    ?_, fun k => (LinearExpr.exists_spans_take he hbox k).isProper⟩
  · have hcontains := e.interval_contains (a := a) (List.forall_mem_map.1 ha)
    rw [LinearExpr.value_eq_eval]
    exact ⟨hcontains.lower, hcontains.upper⟩
  · obtain ⟨hl, -⟩ | ⟨y, hl, ⟨a, ha, rfl⟩, -⟩ := hspans.lower.cases
    · rw [hl] at h
      cases h
    · exact ⟨a, ha, by rw [hl, LinearExpr.value_eq_eval]⟩
  · obtain ⟨hu, -⟩ | ⟨y, hu, ⟨a, ha, rfl⟩, -⟩ := hspans.upper.cases
    · rw [hu] at h
      cases h
    · exact ⟨a, ha, by rw [hu, LinearExpr.value_eq_eval]⟩
  · obtain ⟨-, hS⟩ | ⟨y, hl, -⟩ := hspans.lower.cases
    · obtain ⟨_, ⟨a, ha, rfl⟩, hx⟩ := not_bddBelow_iff.1 hS x
      exact ⟨a, ha, by simpa [LinearExpr.value_eq_eval] using hx⟩
    · rw [hl] at h
      cases h
  · obtain ⟨-, hS⟩ | ⟨y, hu, -⟩ := hspans.upper.cases
    · obtain ⟨_, ⟨a, ha, rfl⟩, hx⟩ := not_bddAbove_iff.1 hS x
      exact ⟨a, ha, by simpa [LinearExpr.value_eq_eval] using hx⟩
    · rw [hu] at h
      cases h
  · exact Interval.le_of_isProper hspans.isProper

end Value

end Ends

section Rational

local instance tightTolerance : Extended.Tolerance ℚ := .standard

/-- Twice a variable with no upper bound, minus three times one between minus one and two, plus
one. -/
def halfBounded : LinearExpr (Extended ℚ) :=
  ⟨[(⟨⟨0, 0⟩, .text "x", .continuous, .finite 0, .infinite false⟩, .finite 2),
    (⟨⟨0, 1⟩, .text "y", .integer, .finite (-1), .finite 2⟩, .finite (-3))], .finite 1⟩

theorem Value.intervalOf_spec_halfBounded :
    (Value.expr halfBounded).intervalOf = .ok ⟨.finite (-5), .infinite false⟩ ∧
      (∃ a, halfBounded.Admits a ∧ halfBounded.value a.lift = .finite (-5)) ∧
      ∀ x, ∃ a, halfBounded.Admits a ∧ lt (.finite x) (halfBounded.value a.lift) = true := by
  have hfinite : halfBounded.IsFinite :=
    ⟨List.forall_mem_cons.2 ⟨⟨2, rfl⟩, List.forall_mem_singleton.2 ⟨-3, rfl⟩⟩, 1, rfl⟩
  have hproper : halfBounded.IsProper := by
    refine ⟨by decide, ?_, ?_⟩
    · exact List.forall_mem_cons.2 ⟨⟨by decide +kernel, nofun⟩,
        List.forall_mem_singleton.2 ⟨by decide +kernel, nofun⟩⟩
    · exact List.forall_mem_cons.2 ⟨by decide +kernel,
        List.forall_mem_singleton.2 (by decide +kernel)⟩
  have hopen : ∀ v ∈ halfBounded.vars,
      lt v.lower infinity = true ∧ lt negInfinity v.upper = true :=
    List.forall_mem_cons.2 ⟨⟨rfl, rfl⟩, List.forall_mem_singleton.2 ⟨rfl, rfl⟩⟩
  have hinterval : halfBounded.interval = ⟨.finite (-5), .infinite false⟩ := by decide +kernel
  obtain ⟨i, hi, -, hlower, -, -, hupper, -⟩ := intervalOf_spec hproper hopen
  obtain rfl : halfBounded.interval = i := Except.ok.inj hi
  rw [hinterval] at hlower hupper
  exact ⟨congrArg Except.ok hinterval, hlower rfl, hupper rfl⟩

end Rational

end MixedInteger
