import MixedInteger.Proofs.Reformulation.PiecewiseExact
import MixedInteger.Proofs.Reformulation.Premises

/-!
# What a maximum or minimum allows

The variable that is to be the greatest or the least of several operands is so in every completion,
whatever constant its rows are built with.  Numbers within bounds have a completion as long as the
constant is large enough, which it is if it is derived, and also where bounds are infinite.

## What is here

* `Direction.extremum` — the call for the greatest or the least of several operands.
* `Direction.InReach` — the constant is large enough.
* `Model.extremum_extremizes` — the call and its completions.
-/

set_option autoImplicit false

namespace MixedInteger

open Arithmetic Extended

/-! ## Reading the call -/

section Reading

variable {K : Type} [Arithmetic K]

/-- The call for the greatest or the least of several operands. -/
def Direction.extremum (exprs bigM : Value K) : Direction → Model.Call K
  | .maximize => .maximum exprs bigM
  | .minimize => .minimum exprs bigM

/-- An expression with the bounds that it has. -/
def BoundedExpr.ofExpr (e : LinearExpr K) : BoundedExpr K := ⟨e, e.interval⟩

namespace Build

variable {exprs bigM : Value K} {vs : List (Value K)} {es : List (LinearExpr K)}
  {first : BoundedExpr K} {rest : List (BoundedExpr K)} {k : Option K}

theorem boundOperand_eq_ok {context : String} {given : Bool} {e : LinearExpr K}
    (h : given = false → e.interval.isFinite = true) :
    boundOperand context given e = .ok (.ofExpr e) := by
  cases given with
  | true => rfl
  | false =>
    rw [boundOperand, if_neg Bool.false_ne_true, Interval.requireFinite, if_pos (h rfl)]
    rfl

/-- Several operands that can be read are handed on. -/
theorem extremum_succeeds {context : String}
    {step : BoundedExpr K → List (BoundedExpr K) → Option K → Build K (Variable K)}
    {P : Variable K → Model K → Prop} {m : Model K} (hvs : exprs.elements = .ok vs)
    (hlen : 2 ≤ vs.length) (hes : vs.mapM (fun v => v.toExpr) = .ok es)
    (hfinite : bigM = .none → ∀ e ∈ es, e.interval.isFinite = true)
    (hos : es.map .ofExpr = first :: rest) (hk : bigM.toNumber? = .ok k)
    (hstep : Succeeds (step first rest k) m P) :
    Succeeds (extremum context step exprs bigM) m P := by
  have hmap : ∀ given, (given = false → bigM = .none) →
      es.mapM (boundOperand context given) = .ok (first :: rest) := by
    intro given hgiven
    rw [← hos]
    exact mapM_eq_ok_of_forall₂ (List.forall₂_map_right_iff.2 (List.forall₂_same.2 fun e he =>
      boundOperand_eq_ok fun h => hfinite (hgiven h) e he))
  rcases vs with _ | ⟨x, _ | ⟨y, vs⟩⟩
  · exact absurd hlen (by simp)
  · exact absurd hlen (by simp)
  · unfold extremum
    rw [hvs]
    refine .lift_bind ?_
    simp only
    refine .mapM_lift_bind hes (.mapM_lift_bind (hmap _ fun h => ?_) ?_)
    · cases bigM with
      | none => rfl
      | _ => cases h
    · rw [hk]
      exact .lift_bind hstep

/-- With proper bounds for the result, the call succeeds. -/
theorem perform_extremum_succeeds [Sensible K] (d : Direction) (hvs : exprs.elements = .ok vs)
    (hlen : 2 ≤ vs.length) (hes : vs.mapM (fun v => v.toExpr) = .ok es)
    (hfinite : bigM = .none → ∀ e ∈ es, e.interval.isFinite = true)
    (hos : es.map .ofExpr = first :: rest) (hk : bigM.toNumber? = .ok k)
    (hproper : (Extremum.hull first.bounds (rest.map BoundedExpr.bounds)).isProper = true)
    (m : Model K) : Succeeds (perform (d.extremum exprs bigM)) m fun answer n =>
      ∃ t, answer = .var t ∧ d.Parts m first rest k t n := by
  have hstep : ∀ {step : BoundedExpr K → List (BoundedExpr K) → Option K → Build K (Variable K)}
      {context : String}, Succeeds (step first rest k) m (d.Parts m first rest k) →
      Succeeds (Value.var <$> extremum context step exprs bigM) m fun answer n =>
        ∃ t, answer = .var t ∧ d.Parts m first rest k t n := fun h =>
    .map ((extremum_succeeds hvs hlen hes hfinite hos hk h).mono fun t n hp => ⟨t, rfl, hp⟩)
  cases d with
  | maximize => exact hstep (piecewise_succeeds nameless_maximumRows hproper m)
  | minimize => exact hstep (piecewise_succeeds nameless_minimumRows hproper m)

end Build

end Reading

variable {F : Type} [Field F] [LinearOrder F] [FloorRing F] [ToString F] [Extended.Tolerance F]

namespace Direction

omit [Field F] [FloorRing F] [ToString F] [Extended.Tolerance F] in
/-- One of several numbers is at least as good as all of them. -/
theorem exists_isBest (d : Direction) (x : F) (xs : List F) : ∃ y, d.IsBest y (x :: xs) := by
  have total : ∀ y z : F, d.Orders y z ∨ d.Orders z y := fun y z => by
    cases d with
    | maximize => exact le_total y z
    | minimize => exact le_total z y
  have trans : ∀ {w y z : F}, d.Orders w y → d.Orders y z → d.Orders w z := fun h h' => by
    cases d with
    | maximize => exact le_trans h h'
    | minimize => exact le_trans h' h
  induction xs generalizing x with
  | nil => exact ⟨x, isBest_singleton.2 rfl⟩
  | cons z xs ih =>
    obtain ⟨y, hy, hall⟩ := ih z
    rcases total x y with h | h
    · exact ⟨y, List.mem_cons_of_mem x hy, List.forall_mem_cons.2 ⟨h, hall⟩⟩
    · exact ⟨x, List.mem_cons_self,
        List.forall_mem_cons.2 ⟨d.orders_refl x, fun w hw => trans (hall w hw) h⟩⟩

/-- The number that is given bounds how far the best operand is from the others. -/
def InReach (d : Direction) (vs : List (Value (Extended F))) (a : Assignment F) :
    Value (Extended F) → Prop
  | .scalar s => ∀ y, d.IsBest y (vs.map fun x => x.eval a) → ∀ x ∈ vs, |y - x.eval a| ≤ s.number
  | _ => True

end Direction

namespace Model

/-- A new variable is the greatest or the least of several operands, whatever constant its rows are
built with.  Within the bounds of the operands, and within reach of the constant, there is one. -/
structure Extremizes (m n : Model (Extended F)) (d : Direction) (vs : List (Value (Extended F)))
    (bigM : Value (Extended F)) (t : Variable (Extended F)) : Prop where
  mem : t ∈ m.newVars n
  isBest : ∀ a b, m.Completes n a b → d.IsBest (b t.id) (vs.map fun x => x.eval a)
  exists_completes : ∀ a : Assignment F, (∀ x ∈ vs, a.Respects x.vars) → d.InReach vs a bigM →
    ∃ b, m.Completes n a b

variable {m n : Model (Extended F)} {d : Direction} {exprs bigM : Value (Extended F)}
  {vs : List (Value (Extended F))} {t : Variable (Extended F)}

omit [Extended.Tolerance F] in
theorem Extremizes.tolerance {t' u : Extended.Tolerance F}
    (h : letI := t'; m.Extremizes n d vs bigM t) : letI := u; m.Extremizes n d vs bigM t := by
  obtain ⟨hmem, hbest, hexists⟩ := h
  rw [completes_tolerance t' u] at hbest hexists
  rw [Assignment.respects_tolerance t' u] at hexists
  let _ := u
  exact ⟨hmem, hbest, hexists⟩

/-! ## Operands -/

section Operands

variable {es : List (LinearExpr (Extended F))} {first : BoundedExpr (Extended F)}
  {rest : List (BoundedExpr (Extended F))} (hos : es.map .ofExpr = first :: rest)
  (hread : List.Forall₂ (fun x e => x.IsRead bigM e) vs es)
include hos hread

theorem forall_operands_isRead :
    ∀ o ∈ first :: rest, ∃ x ∈ vs, x.IsRead bigM o.expr ∧ o.bounds = o.expr.interval := by
  rw [← hos]
  refine List.forall_mem_map.2 fun e he => ?_
  obtain ⟨x, hx, h⟩ := exists_of_forall₂ hread he
  exact ⟨x, hx, h, rfl⟩

theorem map_eval_operands (a : Assignment F) :
    (first :: rest).map (fun o => o.expr.eval a) = vs.map fun x => x.eval a := by
  rw [← hos, List.map_map]
  exact List.forall₂_eq_eq_eq ▸ List.forall₂_map_left_iff.2 (List.forall₂_map_right_iff.2
    (hread.flip.imp fun e x h => h.eval a))

variable [IsStrictOrderedRing F]

theorem operands_contain {a : Assignment F} (ha : ∀ x ∈ vs, a.Respects x.vars) :
    ∀ o ∈ first :: rest, o.bounds.Contains (o.expr.eval a) := by
  intro o ho
  obtain ⟨x, hx, h, hbounds⟩ := forall_operands_isRead hos hread o ho
  rw [hbounds]
  exact h.contains (ha x hx)

/-- The constants of the rows are finite, and large enough within reach. -/
theorem exists_slack_operands {k : Option (Extended F)} (hbig : bigM.IsExact)
    (hgiven : bigM = .none ∨ ∃ s, bigM = .scalar s) (hk : bigM.toNumber? = .ok k) :
    ∀ o ∈ first :: rest, ∃ c, d.slack first rest k o = .finite c ∧ ∀ a : Assignment F,
      (∀ x ∈ vs, a.Respects x.vars) → d.InReach vs a bigM →
      ∀ y, d.IsBest y (vs.map fun x => x.eval a) → |y - o.expr.eval a| ≤ c := by
  intro o ho
  obtain rfl | ⟨s, rfl⟩ := hgiven
  · cases hk
    have hfinite : ∀ o ∈ first :: rest, ∃ l u, o.bounds = ⟨.finite l, .finite u⟩ := by
      intro o ho
      obtain ⟨x, hx, h, hbounds⟩ := forall_operands_isRead hos hread o ho
      rw [hbounds]
      exact Interval.exists_of_isFinite (h.bounds rfl)
    obtain ⟨c, hc, hclose⟩ := Direction.exists_slack d hfinite o ho
    refine ⟨c, hc, fun a ha _ y hy => hclose a (operands_contain hos hread ha) y ?_⟩
    rwa [map_eval_operands hos hread]
  · obtain rfl : k = some (.finite s.number) := Except.ok.inj (hk.symm.trans hbig.toNumber?_eq_ok)
    obtain ⟨x, hx, h, -⟩ := forall_operands_isRead hos hread o ho
    exact ⟨s.number, rfl, fun a _ hr y hy => h.eval a ▸ hr y hy x hx⟩

variable [Extended.Tolerance.IsZero F] {k : Option (Extended F)}

/-- What a maximum or minimum has added is one. -/
theorem extremizes_of_parts (hm : m.WellFormed) (hknows : ∀ x ∈ vs, ∀ v ∈ x.vars, m.Knows v)
    (hbig : bigM.IsExact) (hgiven : bigM = .none ∨ ∃ s, bigM = .scalar s)
    (hk : bigM.toNumber? = .ok k) (hp : d.Parts m first rest k t n) :
    m.Extremizes n d vs bigM t := by
  have hmap := map_eval_operands hos hread
  have hslack := exists_slack_operands (d := d) hos hread hbig hgiven hk
  have hknown : ∀ o ∈ first :: rest, o.IsKnown m := by
    intro o ho
    obtain ⟨x, hx, h, -⟩ := forall_operands_isRead hos hread o ho
    exact ⟨h.finite, fun v hv => hknows x hx v (h.vars v hv)⟩
  refine ⟨?_, fun a b hb => ?_, fun a ha hr => ?_⟩
  · obtain ⟨selectors, -, -, hg⟩ := Direction.exists_selectors hp
    rw [hg.newVars_eq]
    exact List.mem_cons_self
  · rw [← hmap]
    refine hp.isBest hm hknown (fun o ho => ?_) hb
    obtain ⟨c, hc, -⟩ := hslack o ho
    exact ⟨c, hc⟩
  · obtain ⟨y, hy⟩ := d.exists_isBest (first.expr.eval a) (rest.map fun o => o.expr.eval a)
    obtain ⟨b, hb, -⟩ := hp.exists_completes hm hknown hy (operands_contain hos hread ha)
      fun o ho => by
      obtain ⟨c, hc, hclose⟩ := hslack o ho
      exact ⟨c, hc, hclose a ha hr y (hmap a ▸ hy)⟩
    exact ⟨b, hb⟩

end Operands

variable [IsStrictOrderedRing F]

/-- **The greatest or the least of several operands.**  As long as no coefficient is dropped that is
not zero, and the variables of the operands can be within their bounds, the call succeeds; in every
completion its variable is the greatest or the least one of the operands, for any constant; and what
is within reach of the constant has a completion, whether or not bounds are finite. -/
theorem extremum_extremizes (d : Direction) (hm : m.Reachable)
    (hadmissible : (d.extremum exprs bigM).Admissible m) (hexact : (d.extremum exprs bigM).IsExact)
    (hdrops : (d.extremum exprs bigM).DropsNothing m) (hvs : exprs.elements = .ok vs)
    (hlen : 2 ≤ vs.length) (hbounds : ∀ x ∈ vs, x.HasBounds bigM) {a : Assignment F}
    (ha : ∀ x ∈ vs, a.Respects x.vars) : ∃ t n,
      Build.exec (Build.perform (d.extremum exprs bigM)) m = (.ok (.var t), n) ∧
      m.Extremizes n d vs bigM t := by
  refine hdrops.exists_var (P := fun t n => m.Extremizes n d vs bigM t) ?_
  have hargs : (d.extremum exprs bigM).arguments = [exprs, bigM] := by cases d <;> rfl
  obtain ⟨x, hx⟩ := List.exists_mem_of_length_pos (Nat.lt_of_lt_of_le Nat.zero_lt_two hlen)
  have hparts : exprs.parts = vs := by
    refine Value.parts_of_elements hvs hx ?_
    rintro s rfl
    obtain ⟨i, hi, -⟩ := hbounds _ hx
    cases hi
  have hexacts : ∀ x ∈ vs, x.IsExact := fun x hx =>
    hexact exprs (by simp [hargs]) x (hparts ▸ hx)
  have hknows : ∀ x ∈ vs, ∀ v ∈ x.vars, m.Knows v := fun x hx =>
    (hadmissible exprs (by simp [hargs]) x (hparts ▸ hx)).knows
  have hbig := hexact.arg (x := bigM) (by simp [hargs])
  have hgiven := (hbounds x hx).given
  obtain ⟨k, hk⟩ := Value.exists_toNumber? hbig hgiven
  have hm := hm.wellFormed.tolerance (u := .none)
  have hzero := Extended.Tolerance.isZero_none (F := F)
  rw [Assignment.respects_tolerance _ .none] at ha
  let _ : Extended.Tolerance F := .none
  obtain ⟨es, hread⟩ := exists_forall₂ fun x hx =>
    (hbounds x hx).tolerance.exists_isRead (hexacts x hx)
  have hes := mapM_eq_ok_of_forall₂ (hread.imp fun _ _ h => h.toExpr)
  obtain ⟨first, rest, hos⟩ : ∃ first rest, es.map BoundedExpr.ofExpr = first :: rest := by
    refine List.exists_cons_of_length_pos ?_
    rw [List.length_map, ← hread.length_eq]
    exact Nat.lt_of_lt_of_le Nat.zero_lt_two hlen
  have hproper := (Extremum.hull_contains (f := fun o => o.expr.eval a)
    (operands_contain hos hread ha) first List.mem_cons_self).isProper
  refine (Build.perform_extremum_succeeds d hvs hlen hes (fun hnone e he => ?_) hos hk hproper
    m).mono ?_
  · obtain ⟨x, hx, h⟩ := exists_of_forall₂ hread he
    exact h.bounds hnone
  · rintro _ n ⟨t, rfl, hp⟩
    exact ⟨t, rfl, (extremizes_of_parts hos hread hm hknows hbig hgiven hk hp).tolerance⟩

/-! ## A variable and its reflection -/

section Rational

local instance extremumTolerance : Extended.Tolerance ℚ := .standard

/-- A variable between zero and ten, and four minus it. -/
def reflected : List (Value (Extended ℚ)) :=
  [.var boundedVariable, .expr ⟨[(boundedVariable, .finite (-1))], .finite 4⟩]

theorem extremum_extremizes_reflected : ∃ t n,
    Build.exec (Build.perform (Direction.maximize.extremum (.list reflected) .none)) boundedModel =
      (.ok (.var t), n) ∧ boundedModel.Extremizes n .maximize reflected .none t := by
  have hbounds : ∀ x ∈ reflected, x.HasBounds .none :=
    List.forall_mem_cons.2 ⟨⟨_, rfl, .inl ⟨rfl, rfl⟩⟩,
      List.forall_mem_singleton.2 ⟨_, rfl, .inl ⟨rfl, by decide +kernel⟩⟩⟩
  have hknown : boundedModel.Knows boundedVariable := knows_of_mem List.mem_cons_self
  refine extremum_extremizes .maximize boundedModel_reachable ?_ ?_ ?_ rfl le_rfl hbounds
    (a := fun _ => 0) ?_
  · have hwell : ∀ x ∈ reflected, x.WellFormed boundedModel :=
      List.forall_mem_cons.2 ⟨hknown, List.forall_mem_singleton.2
        ⟨List.nodup_singleton _, List.forall_mem_singleton.2 hknown⟩⟩
    exact List.forall_mem_cons.2 ⟨hwell, List.forall_mem_singleton.2
      (List.forall_mem_singleton.2 trivial)⟩
  · have hexact : ∀ x ∈ reflected, x.IsExact :=
      List.forall_mem_cons.2 ⟨trivial, List.forall_mem_singleton.2
        ⟨⟨List.forall_mem_singleton.2 ⟨-1, rfl⟩, 4, rfl⟩, List.forall_mem_singleton.2 (by decide)⟩⟩
    exact List.forall_mem_cons.2 ⟨hexact, List.forall_mem_singleton.2
      (List.forall_mem_singleton.2 trivial)⟩
  · rw [Call.DropsNothing]
    cbv
  · have hzero : boundedVariable.interval.Contains 0 := ⟨rfl, rfl⟩
    exact List.forall_mem_cons.2 ⟨List.forall_mem_singleton.2 hzero,
      List.forall_mem_singleton.2 (List.forall_mem_singleton.2 hzero)⟩

end Rational

end Model

end MixedInteger
