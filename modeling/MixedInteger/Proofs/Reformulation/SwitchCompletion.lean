import MixedInteger.Proofs.Reformulation.Premises
import MixedInteger.Proofs.Reformulation.TruthCompletion

/-!
# What switched constraints allow

A row that is switched on says what its constraint says, whatever constant it is built with.  One that
is switched off says nothing as long as the constant is large enough, which it is if it is derived.
A choice between two constraints is two switched constraints with one switch.

## What is here

* `Constraint.InReach` — the constants of a constraint are large enough.
* `Model.indicator_switches` — a constraint that a binary variable switches.
* `Model.eitherOr_chooses` — a choice between two constraints.
-/

set_option autoImplicit false

namespace MixedInteger

open Arithmetic Extended

variable {F : Type} [Field F] [LinearOrder F] [FloorRing F] [ToString F] [Extended.Tolerance F]

/-! ## Constants -/

/-- The number that is given bounds by how much a half of the constraint is violated, or else the
variables of the constraint keep to their bounds. -/
def Constraint.InReach (c : Constraint (Extended F)) (a : Assignment F) :
    Value (Extended F) → Prop
  | .scalar s => ∀ r ∈ c.relation.halves, c.excess a r ≤ s.number
  | _ => a.Respects c.expr.vars

omit [Extended.Tolerance F] in
theorem Constraint.InReach.tolerance {t u : Extended.Tolerance F} {c : Constraint (Extended F)}
    {a : Assignment F} {bigM : Value (Extended F)} (h : letI := t; c.InReach a bigM) :
    letI := u; c.InReach a bigM := by
  cases bigM with
  | scalar s => exact h
  | _ => exact (Assignment.respects_tolerance t u).le _ _ h

omit [Extended.Tolerance F] in
theorem Constraint.HasBounds.tolerance {t u : Extended.Tolerance F} {c : Constraint (Extended F)}
    {bigM : Value (Extended F)} (h : letI := t; c.HasBounds bigM) : letI := u; c.HasBounds bigM := by
  let _ := u
  exact h

namespace Constraint

variable [IsStrictOrderedRing F] {c : Constraint (Extended F)} {b : F}
  {bigM : Value (Extended F)}

/-- The constants of the halves are finite, and large enough for numbers within reach. -/
theorem HasBounds.exists_halves [c.expr.IsFinite] (h : c.HasBounds bigM) (hbig : bigM.IsExact)
    (hb : c.rhs = .finite b) : ∃ given, ∃ k : Relation → F, bigM.toNumber? = .ok given ∧
      (∀ context, c.halves context given = .ok (c.relation.halves.map fun r => (r, .finite (k r)))) ∧
      ∀ a, c.InReach a bigM → ∀ r ∈ c.relation.halves, c.excess a r ≤ k r := by
  obtain ⟨rfl, hfinite⟩ | ⟨s, rfl⟩ := h
  · obtain ⟨k, hk, hreach⟩ := exists_relaxation hb hfinite
    refine ⟨none, k, rfl, fun context => ?_, fun a ha r _ => hreach a ?_ r⟩
    · have hi : c.expr.finiteInterval context none = .ok c.expr.interval := if_pos hfinite
      simp only [halves, hi, ← hk]
      rfl
    · exact c.expr.interval_contains fun t ht => ha t.1 (List.mem_map_of_mem ht)
  · exact ⟨some (.finite s.number), fun _ => s.number, hbig.toNumber?_eq_ok, fun _ => rfl,
      fun a ha => ha⟩

end Constraint

/-! ## Reading the calls -/

section Reading

/-- A number that is zero or one is read as the value under which a constraint is on. -/
theorem Build.toActive_eq_ok {s : Scalar (Extended F)}
    (hs : (Value.scalar s).IsExact) {active : Bool} (h : s.number = if active then 1 else 0) :
    toActive (.scalar s) = .ok active := by
  have heq : ∀ n : Int, (Value.scalar s).isEqual (.int n) = .ok (decide (s.number = n)) := by
    intro n
    refine congrArg Except.ok (Bool.eq_iff_iff.2 ?_)
    rw [Scalar.eq_iff hs (t := .integer n) trivial, decide_eq_true_iff]
    rfl
  have hzero : decide (s.number = (0 : Int)) = !active := by cases active <;> simp [h]
  have hone : decide (s.number = (1 : Int)) = active := by cases active <;> simp [h]
  rw [toActive, heq, heq, hzero, hone]
  cases active <;> rfl

variable {K : Type} [Arithmetic K] {bigM : Value K} {k : Option K} {c d : Constraint K}
  {i j : Option ConstraintId} {first second : List (Relation × K)}

theorem Build.perform_indicator_succeeds {delta : Variable K} (hdelta : delta.isBinary = true)
    {x : Value K} {active : Bool} (hx : toActive x = .ok active) (hk : bigM.toNumber? = .ok k)
    (hh : c.halves "add_indicator" k = .ok first) (m : Model K) :
    Succeeds (perform (.indicator (.var delta) (.constraint c i) x bigM)) m fun _ n =>
      m.Grown [] (c.switchedRows delta active first) n := by
  have hv : (Value.var delta).toBinary "add_indicator" = .ok delta := if_pos hdelta
  rw [perform, hv, hx, hk, Value.toConstraint]
  refine .lift_bind (.lift_bind (.lift_bind (.lift_bind (.bind
    (indicator_succeeds delta active hh m) ?_))))
  intro rows n hg
  refine .bind (lastRows_spec rows.length n) ?_
  rintro _ _ ⟨-, rfl⟩
  exact .pure hg

theorem Build.perform_eitherOr_succeeds [Arithmetic.Sensible K] (hk : bigM.toNumber? = .ok k)
    (hfirst : c.halves "add_either_or" k = .ok first)
    (hsecond : d.halves "add_either_or" k = .ok second) (m : Model K) :
    Succeeds (perform (.eitherOr (.constraint c i) (.constraint d j) bigM)) m fun answer n =>
      ∃ delta, answer = .var delta ∧ delta.IsOf .binary ⟨zero, one⟩ ∧ m.Grown [delta]
        (c.switchedRows delta false first ++ d.switchedRows delta true second) n := by
  rw [perform, hk, Value.toConstraint, Value.toConstraint]
  refine .lift_bind (.lift_bind ?_)
  rw [hfirst]
  refine .lift_bind (.lift_bind (.map ((eitherOr_succeeds hfirst hsecond m).mono ?_)))
  rintro delta n ⟨hdelta, hg⟩
  exact ⟨delta, rfl, hdelta, hg⟩

end Reading

namespace Model

variable {m n : Model (Extended F)} {c d : Constraint (Extended F)} {bigM : Value (Extended F)}
  {delta : Variable (Extended F)} {active : Bool} {i j : Option ConstraintId}

/-! ## A switched constraint -/

/-- The new rows say what a constraint says where a variable is on, whatever constant they are built
with, and nothing where it is off and the constraint is within reach. -/
structure Switches (m n : Model (Extended F)) (c : Constraint (Extended F))
    (bigM : Value (Extended F)) (delta : Variable (Extended F)) (active : Bool) : Prop where
  newVars : m.newVars n = []
  on : ∀ a : Assignment F, a delta.id = (if active then 1 else 0) →
    ((∀ row ∈ m.newRows n, row.holds a.lift = true) ↔ c.Says a)
  off : ∀ a : Assignment F, a delta.id = (if active then 0 else 1) → c.InReach a bigM →
    ∀ row ∈ m.newRows n, row.holds a.lift = true

omit [Extended.Tolerance F] in
theorem Switches.tolerance {t u : Extended.Tolerance F}
    (h : letI := t; m.Switches n c bigM delta active) :
    letI := u; m.Switches n c bigM delta active := by
  obtain ⟨hvars, hon, hoff⟩ := h
  let _ := u
  exact ⟨hvars, hon, fun a ha hr => hoff a ha hr.tolerance⟩

section Exact

variable [IsStrictOrderedRing F] [Extended.Tolerance.IsZero F]

/-- The rows of a switched constraint switch it. -/
theorem Grown.switches [c.expr.IsFinite] {b : F} (hb : c.rhs = .finite b) {k : Relation → F}
    (hk : ∀ a, c.InReach a bigM → ∀ r ∈ c.relation.halves, c.excess a r ≤ k r)
    (hg : m.Grown [] (c.switchedRows delta active
      (c.relation.halves.map fun r => (r, .finite (k r)))) n) :
    m.Switches n c bigM delta active := by
  have hrows : ∀ a : Assignment F, (∀ row ∈ m.newRows n, row.holds a.lift = true) ↔
      ∀ r ∈ c.relation.halves, c.excess a r ≤ k r * delta.off a active := fun a =>
    (Constraint.forall_holds_iff hg.newRows_eq).trans (Constraint.switchedRows_iff hb active k)
  refine ⟨hg.newVars_eq, fun a ha => ?_, fun a ha hr => ?_⟩
  · rw [hrows, (Variable.off_eq_zero_iff active).2 ha, Constraint.says_iff_excess]
    simp only [mul_zero]
  · have hoff : delta.off a active = 1 := by cases active <;> simp [Variable.off, ha]
    rw [hrows, hoff]
    simpa only [mul_one] using hk a hr

end Exact

variable [IsStrictOrderedRing F]

/-- **A constraint that a binary variable switches.**  As long as no coefficient is dropped that is
not zero, the call succeeds; for any constant its rows say what the constraint says where the
variable is on, and they say nothing where it is off and the constant is large enough. -/
theorem indicator_switches {s : Scalar (Extended F)} (hdelta : delta.isBinary = true)
    (hs : s.number = if active then 1 else 0)
    (hexact : (Call.indicator (.var delta) (.constraint c i) (.scalar s) bigM).IsExact)
    (hdrops : (Call.indicator (.var delta) (.constraint c i) (.scalar s) bigM).DropsNothing m)
    (hbounds : c.HasBounds bigM) : ∃ answer n,
      Build.exec (Build.perform (.indicator (.var delta) (.constraint c i) (.scalar s) bigM)) m =
        (.ok answer, n) ∧ m.Switches n c bigM delta active := by
  obtain ⟨⟨hfinite, -⟩, b, hb⟩ :=
    hexact.arg (x := .constraint c i) (by simp [Call.arguments])
  have hscalar := hexact.arg (x := .scalar s) (by simp [Call.arguments])
  have hbig := hexact.arg (x := bigM) (by simp [Call.arguments])
  refine hdrops.succeeds (P := fun _ n => m.Switches n c bigM delta active) ?_
  have hzero := Extended.Tolerance.isZero_none (F := F)
  let _ : Extended.Tolerance F := .none
  have hdelta : delta.isBinary = true := hdelta
  obtain ⟨given, k, hgiven, hh, hk⟩ := hbounds.tolerance.exists_halves hbig hb
  refine (Build.perform_indicator_succeeds (i := i) hdelta (Build.toActive_eq_ok hscalar hs) hgiven
    (hh _) m).mono fun _ n hg => (hg.switches hb hk).tolerance

/-! ## A choice between two constraints -/

/-- A new binary variable says which of two constraints holds, whatever constant the rows are built
with.  It may be zero if the first one does and the second one is within reach, and one the other
way round. -/
structure Chooses (m n : Model (Extended F)) (c d : Constraint (Extended F))
    (bigM : Value (Extended F)) (delta : Variable (Extended F)) : Prop where
  newVars : m.newVars n = [delta]
  sound : ∀ a b, m.Completes n a b →
    (b delta.id = 0 ∧ c.Says a) ∨ (b delta.id = 1 ∧ d.Says a)
  first : ∀ a, d.InReach a bigM → ((∃ b, m.Completes n a b ∧ b delta.id = 0) ↔ c.Says a)
  second : ∀ a, c.InReach a bigM → ((∃ b, m.Completes n a b ∧ b delta.id = 1) ↔ d.Says a)
  either : ∀ a, c.InReach a bigM → d.InReach a bigM →
    ((∃ b, m.Completes n a b) ↔ c.Says a ∨ d.Says a)

omit [Extended.Tolerance F] [IsStrictOrderedRing F] in
theorem Chooses.tolerance {t u : Extended.Tolerance F} (h : letI := t; m.Chooses n c d bigM delta) :
    letI := u; m.Chooses n c d bigM delta := by
  obtain ⟨hvars, hsound, hfirst, hsecond, heither⟩ := h
  rw [completes_tolerance t u] at hsound hfirst hsecond heither
  let _ := u
  exact ⟨hvars, hsound, fun a hd => hfirst a hd.tolerance, fun a hc => hsecond a hc.tolerance,
    fun a hc hd => heither a hc.tolerance hd.tolerance⟩

section Exact

variable [Extended.Tolerance.IsZero F] {k l : Relation → F}

/-- What the rows of a choice say: one of the constraints is on, and each of the others may be
violated by its constant. -/
theorem Grown.exists_completes_choice_iff [c.expr.IsFinite] [d.expr.IsFinite] {b e : F}
    (hb : c.rhs = .finite b) (he : d.rhs = .finite e) (hm : m.WellFormed)
    (hc : ∀ v ∈ c.expr.vars, m.Knows v) (hd : ∀ v ∈ d.expr.vars, m.Knows v)
    (hdelta : delta.IsOf .binary ⟨zero, one⟩)
    (hg : m.Grown [delta]
      (c.switchedRows delta false (c.relation.halves.map fun r => (r, .finite (k r))) ++
        d.switchedRows delta true (d.relation.halves.map fun r => (r, .finite (l r)))) n)
    (a : Assignment F) (x : F) : (∃ b, m.Completes n a b ∧ b delta.id = x) ↔
      (x = 0 ∨ x = 1) ∧ (∀ r ∈ c.relation.halves, c.excess a r ≤ k r * x) ∧
        ∀ r ∈ d.relation.halves, d.excess a r ≤ l r * (1 - x) := by
  have hrows : ∀ b : Assignment F, (∀ i, (∀ v ∈ [delta], v.id ≠ i) → b i = a i) →
      ((∀ v ∈ [delta], v.Allows (b v.id)) ∧ (∀ row ∈ c.switchedRows delta false
          (c.relation.halves.map fun r => (r, .finite (k r))) ++ d.switchedRows delta true
          (d.relation.halves.map fun r => (r, .finite (l r))), row.holds b.lift = true) ↔
        (b delta.id = 0 ∨ b delta.id = 1) ∧
          (∀ r ∈ c.relation.halves, c.excess a r ≤ k r * b delta.id) ∧
          ∀ r ∈ d.relation.halves, d.excess a r ≤ l r * (1 - b delta.id)) := by
    intro b hagrees
    rw [List.forall_mem_singleton, hdelta.allows_binary, List.forall_mem_append,
      Constraint.switchedRows_iff hb, Constraint.switchedRows_iff he]
    simp only [Constraint.excess_congr (hg.eval_eq hm hc hagrees),
      Constraint.excess_congr (hg.eval_eq hm hd hagrees)]
    exact Iff.rfl
  constructor
  · rintro ⟨b, hb, rfl⟩
    obtain ⟨hagrees, hnew⟩ := hg.completes_iff.1 hb
    exact (hrows b hagrees).1 hnew
  · intro h
    obtain ⟨b, hb, hx⟩ := hg.exists_completes (a := a) [x] rfl fun b hagrees hx => by
      obtain rfl : b delta.id = x := List.cons.inj hx |>.1
      exact (hrows b hagrees).2 h
    exact ⟨b, hb, (List.cons.inj hx).1⟩

/-- The rows of a choice between two constraints choose between them. -/
theorem Grown.chooses [c.expr.IsFinite] [d.expr.IsFinite] {b e : F} (hb : c.rhs = .finite b)
    (he : d.rhs = .finite e)
    (hk : ∀ a, c.InReach a bigM → ∀ r ∈ c.relation.halves, c.excess a r ≤ k r)
    (hl : ∀ a, d.InReach a bigM → ∀ r ∈ d.relation.halves, d.excess a r ≤ l r) (hm : m.WellFormed)
    (hc : ∀ v ∈ c.expr.vars, m.Knows v) (hd : ∀ v ∈ d.expr.vars, m.Knows v)
    (hdelta : delta.IsOf .binary ⟨zero, one⟩)
    (hg : m.Grown [delta]
      (c.switchedRows delta false (c.relation.halves.map fun r => (r, .finite (k r))) ++
        d.switchedRows delta true (d.relation.halves.map fun r => (r, .finite (l r)))) n) :
    m.Chooses n c d bigM delta := by
  have hvalues := hg.exists_completes_choice_iff hb he hm hc hd hdelta
  have hfirst : ∀ a, (∃ b, m.Completes n a b ∧ b delta.id = 0) ↔
      c.Says a ∧ ∀ r ∈ d.relation.halves, d.excess a r ≤ l r := by
    intro a
    simp [hvalues, Constraint.says_iff_excess]
  have hsecond : ∀ a, (∃ b, m.Completes n a b ∧ b delta.id = 1) ↔
      (∀ r ∈ c.relation.halves, c.excess a r ≤ k r) ∧ d.Says a := by
    intro a
    simp [hvalues, Constraint.says_iff_excess]
  have hsound : ∀ a b, m.Completes n a b →
      (b delta.id = 0 ∧ c.Says a) ∨ (b delta.id = 1 ∧ d.Says a) := by
    intro a b hb
    rcases ((hvalues a _).1 ⟨b, hb, rfl⟩).1 with hx | hx
    · exact .inl ⟨hx, ((hfirst a).1 ⟨b, hb, hx⟩).1⟩
    · exact .inr ⟨hx, ((hsecond a).1 ⟨b, hb, hx⟩).2⟩
  refine ⟨hg.newVars_eq, hsound, fun a hd => (hfirst a).trans (and_iff_left (hl a hd)),
    fun a hc => (hsecond a).trans (and_iff_right (hk a hc)), fun a hc hd => ⟨?_, ?_⟩⟩
  · rintro ⟨b, hb⟩
    exact (hsound a b hb).imp And.right And.right
  · rintro (h | h)
    · obtain ⟨b, hb, -⟩ := (hfirst a).2 ⟨h, hl a hd⟩
      exact ⟨b, hb⟩
    · obtain ⟨b, hb, -⟩ := (hsecond a).2 ⟨hk a hc, h⟩
      exact ⟨b, hb⟩

end Exact

/-- **A choice between two constraints.**  As long as no coefficient is dropped that is not zero, the
call succeeds; for any constant, a completion has zero for its variable and the first constraint
holds, or one and the second one does; and what is within reach of the constants has such
completions. -/
theorem eitherOr_chooses (hm : m.Reachable)
    (hadmissible : (Call.eitherOr (.constraint c i) (.constraint d j) bigM).Admissible m)
    (hexact : (Call.eitherOr (.constraint c i) (.constraint d j) bigM).IsExact)
    (hdrops : (Call.eitherOr (.constraint c i) (.constraint d j) bigM).DropsNothing m)
    (hfirst : c.HasBounds bigM) (hsecond : d.HasBounds bigM) : ∃ delta n,
      Build.exec (Build.perform (.eitherOr (.constraint c i) (.constraint d j) bigM)) m =
        (.ok (.var delta), n) ∧ m.Chooses n c d bigM delta := by
  obtain ⟨⟨hfinite, -⟩, b, hb⟩ :=
    hexact.arg (x := .constraint c i) (by simp [Call.arguments])
  obtain ⟨⟨hfinite', -⟩, e, he⟩ :=
    hexact.arg (x := .constraint d j) (by simp [Call.arguments])
  have hbig := hexact.arg (x := bigM) (by simp [Call.arguments])
  have hc := (hadmissible (.constraint c i) List.mem_cons_self).wellFormed.knows
  have hd := (hadmissible (.constraint d j)
    (List.mem_cons_of_mem _ List.mem_cons_self)).wellFormed.knows
  refine hdrops.exists_var (P := fun delta n => m.Chooses n c d bigM delta) ?_
  have hm := hm.wellFormed.tolerance (u := .none)
  have hzero := Extended.Tolerance.isZero_none (F := F)
  let _ : Extended.Tolerance F := .none
  obtain ⟨given, k, hgiven, hk, hreach⟩ := hfirst.tolerance.exists_halves hbig hb
  obtain ⟨given', l, hgiven', hl, hreach'⟩ := hsecond.tolerance.exists_halves hbig he
  obtain rfl : given = given' := Except.ok.inj (hgiven.symm.trans hgiven')
  refine (Build.perform_eitherOr_succeeds (i := i) (j := j) hgiven (hk _) (hl _) m).mono ?_
  rintro _ n ⟨delta, rfl, hdelta, hg⟩
  exact ⟨delta, rfl, (hg.chooses hb he hreach hreach' hm hc hd hdelta).tolerance⟩

/-! ## Constraints on a variable between zero and ten -/

section Rational

local instance switchTolerance : Extended.Tolerance ℚ := .standard

/-- The constraint that this variable and a binary one are four together. -/
def togetherFour : Constraint (Extended ℚ) :=
  ⟨⟨[(boundedVariable, .finite 1), (switch, .finite 1)], .finite 0⟩, .eq, .finite 4, .none⟩

/-- The constraint that it is at most two. -/
def atMostTwo : Constraint (Extended ℚ) :=
  ⟨⟨[(boundedVariable, .finite 1)], .finite 0⟩, .le, .finite 2, .none⟩

/-- The constraint that it is at least seven. -/
def atLeastSeven : Constraint (Extended ℚ) :=
  ⟨⟨[(boundedVariable, .finite 1)], .finite 0⟩, .ge, .finite 7, .none⟩

/-- The binary variable is in the constraint that it switches. -/
theorem indicator_switches_togetherFour : ∃ answer n,
    Build.exec (Build.perform (.indicator (.var switch) (.constraint togetherFour none) (.int 1)
      .none)) boundedModel = (.ok answer, n) ∧
    boundedModel.Switches n togetherFour .none switch true := by
  refine indicator_switches (by decide +kernel) (by decide +kernel) ?_ ?_
    (.inl ⟨rfl, by decide +kernel⟩)
  · have hexact : (Value.constraint togetherFour none).IsExact :=
      ⟨⟨⟨List.forall_mem_cons.2 ⟨⟨1, rfl⟩, List.forall_mem_singleton.2 ⟨1, rfl⟩⟩, 0, rfl⟩,
        List.forall_mem_cons.2 ⟨by decide, List.forall_mem_singleton.2 (by decide)⟩⟩, 4, rfl⟩
    simp only [Call.IsExact, Call.arguments, Value.parts, List.forall_mem_cons]
    exact ⟨⟨trivial, List.forall_mem_nil _⟩, ⟨hexact, List.forall_mem_nil _⟩,
      ⟨trivial, List.forall_mem_nil _⟩, ⟨trivial, List.forall_mem_nil _⟩, List.forall_mem_nil _⟩
  · rw [Call.DropsNothing]
    cbv

/-- No number is both at most two and at least seven, and five switches either of them off. -/
theorem eitherOr_chooses_atMostTwo : ∃ delta n,
    Build.exec (Build.perform (.eitherOr (.constraint atMostTwo none) (.constraint atLeastSeven none)
      (.real (.finite 5)))) boundedModel = (.ok (.var delta), n) ∧
    boundedModel.Chooses n atMostTwo atLeastSeven (.real (.finite 5)) delta := by
  refine eitherOr_chooses boundedModel_reachable ?_ ?_ ?_ (.inr ⟨_, rfl⟩) (.inr ⟨_, rfl⟩)
  · have hwell : ∀ t ∈ [(boundedVariable, (finite 1 : Extended ℚ))], boundedModel.Knows t.1 :=
      List.forall_mem_singleton.2 (knows_of_mem List.mem_cons_self)
    simp only [Call.Admissible, Call.arguments, Value.Admissible, Value.parts, Value.real,
      List.forall_mem_cons]
    exact ⟨⟨⟨List.nodup_singleton _, hwell⟩, List.forall_mem_nil _⟩,
      ⟨⟨List.nodup_singleton _, hwell⟩, List.forall_mem_nil _⟩, ⟨trivial, List.forall_mem_nil _⟩,
      List.forall_mem_nil _⟩
  · have hexact : ∀ r b, (Value.constraint ⟨⟨[(boundedVariable, .finite 1)], .finite 0⟩, r,
        .finite b, .none⟩ none).IsExact := fun r b =>
      ⟨⟨⟨List.forall_mem_singleton.2 ⟨1, rfl⟩, 0, rfl⟩, List.forall_mem_singleton.2 (by decide)⟩, b,
        rfl⟩
    simp only [Call.IsExact, Call.arguments, Value.parts, Value.real, List.forall_mem_cons]
    exact ⟨⟨hexact _ _, List.forall_mem_nil _⟩, ⟨hexact _ _, List.forall_mem_nil _⟩,
      ⟨⟨5, rfl⟩, List.forall_mem_nil _⟩, List.forall_mem_nil _⟩
  · rw [Call.DropsNothing]
    cbv

end Rational

end Model

end MixedInteger
