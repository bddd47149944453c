import MixedInteger.Proofs.Reformulation.Exact

/-!
# Calls on reachable models

A caller starts from a model that calls have led to, and calls one reformulation after the other.  In
exact numbers, and as long as no coefficient is dropped that is not zero, the model in the end says
what the one at the start said, together with what the calls mean.

## What is here

* `Build.performKept`, `Model.Call.Answers` — calls that drop no coefficient that is not zero.
* `Model.allowsShown_iff_of_run` — a sequence of calls on a reachable model is exact.
* `Model.exists_run_not_allowsShown_iff` — a dropped coefficient and a rounded bound.
-/

set_option autoImplicit false

namespace MixedInteger

open Arithmetic

/-- A reformulation that succeeds has its effect. -/
theorem Build.effect_of_ok {K : Type} [Arithmetic K] [Sensible K] {c : Model.Call K}
    {m n : Model K} {answer : Value K} (hc : c.isReformulation = true)
    (h : exec (perform c) m = (.ok answer, n)) : c.Effect m n answer := by
  by_cases hl : c.IsLate
  · obtain ⟨d, j, e, rhs, i, delta, m', -, -, hlate, -⟩ := perform_late hl m
    rw [h] at hlate
    cases hlate
  · exact (perform_spec hc hl m).of_ok h

/-! ## Tolerances -/

section Kept

variable {F : Type} [Field F] [LinearOrder F] [FloorRing F] [ToString F]

/-- What a call does where only coefficients that are zero are dropped. -/
def Build.performKept (c : Model.Call (Extended F)) : Build (Extended F) (Value (Extended F)) :=
  letI : Extended.Tolerance F := .none
  perform c

mutual

/-- Which keys are one does not depend on which coefficients are dropped. -/
theorem Value.sameKey_tolerance (t u : Extended.Tolerance F) :
    ∀ v w : Value (Extended F), (letI _ := t; v.sameKey w) = (letI _ := u; v.sameKey w)
  | .sequence p vs, w => by
    cases w with
    | sequence q ws => simp only [sameKey, sameKeys_tolerance t u vs ws]
    | constraint c id => cases id <;> rfl
    | _ => rfl
  | .constraint c id, w => by
    cases w with
    | constraint d i => cases id <;> cases i <;> rfl
    | _ => cases id <;> rfl
  | .none, w | .scalar _, w | .text _, w | .domain _, w | .direction _, w | .relation _, w
  | .var _, w | .handle _ _, w | .table _ _, w | .expr _, w => by
    cases w with
    | constraint d i => cases i <;> rfl
    | _ => rfl

theorem Value.sameKeys_tolerance (t u : Extended.Tolerance F) :
    ∀ vs ws : List (Value (Extended F)),
      (letI _ := t; sameKeys vs ws) = (letI _ := u; sameKeys vs ws)
  | [], [] => rfl
  | [], _ :: _ => rfl
  | _ :: _, [] => rfl
  | v :: vs, w :: ws => by
    simp only [sameKeys, sameKey_tolerance t u v w, sameKeys_tolerance t u vs ws]

end

namespace Model

/-- A call succeeds, and builds what it builds where only coefficients that are zero are dropped. -/
def Call.Answers [Extended.Tolerance F] (c : Call (Extended F)) (m : Model (Extended F))
    (answer : Value (Extended F)) (n : Model (Extended F)) : Prop :=
  Build.exec (Build.perform c) m = (.ok answer, n) ∧
    Build.exec (Build.performKept c) m = (.ok answer, n)

variable {m : Model (Extended F)} {a : Assignment F}

theorem WellFormed.tolerance {t u : Extended.Tolerance F} (h : letI := t; m.WellFormed) :
    letI := u; m.WellFormed := by
  obtain ⟨hids, hproper, hrows, hobjective, hnames, hkeys, hapart, hvars⟩ := h
  let _ := u
  refine ⟨hids, fun v hv => ?_, hrows, hobjective, hnames, hkeys, ?_, hvars⟩
  · obtain ⟨hproper, hbinary⟩ := hproper v hv
    exact ⟨hproper, hbinary⟩
  · exact hapart.imp fun hne => (Value.sameKey_tolerance u t _ _).trans hne

theorem Feasible.tolerance {t t' : Extended.Tolerance F} (h : letI := t; m.Feasible a) :
    letI := t'; m.Feasible a := by
  obtain ⟨hvars, hrows⟩ := h
  let _ := t'
  refine ⟨fun v hv => ?_, hrows⟩
  obtain ⟨hl, hu, hn⟩ := hvars v hv
  exact ⟨hl, hu, hn⟩

theorem feasible_tolerance_iff (t t' : Extended.Tolerance F) :
    (letI _ := t; m.Feasible a) ↔ letI := t'; m.Feasible a := ⟨.tolerance, .tolerance⟩

theorem Call.meaning_tolerance_iff (t t' : Extended.Tolerance F) (c : Call (Extended F))
    (results : List F) : (letI _ := t; c.Meaning a results) ↔ letI := t'; c.Meaning a results := by
  cases c <;> exact Iff.rfl

theorem allowsShown_tolerance_iff (t t' : Extended.Tolerance F) {n : Model (Extended F)}
    (shown : List (Variable (Extended F))) :
    (letI _ := t; m.AllowsShown n shown a) ↔ letI := t'; m.AllowsShown n shown a :=
  exists_congr fun _ => and_congr_left' (feasible_tolerance_iff t t')

variable [t : Extended.Tolerance F] [IsStrictOrderedRing F]

/-- A call that answers has its effect where only coefficients that are zero are dropped. -/
theorem Call.Answers.effect {c : Call (Extended F)} {n : Model (Extended F)}
    {answer : Value (Extended F)} (hc : c.isReformulation = true) (h : c.Answers m answer n) :
    letI : Extended.Tolerance F := .none
    c.Effect m n answer :=
  let _ : Extended.Tolerance F := .none
  Build.effect_of_ok hc h.2

/-- **A sequence of calls on a reachable model is exact.**  What the last model allows, whatever the
hidden variables are, is what the first model allows together with what each call means. -/
theorem allowsShown_iff_of_run {s : Model (Extended F)} (hs : s.Reachable)
    {steps : List (Call (Extended F) × Value (Extended F))}
    (h : Run Call.Answers s s.vars steps m) (a : Assignment F) :
    s.AllowsShown m (handedOver steps) a ↔
      s.Feasible a ∧ ∀ p ∈ steps, p.1.Meaning a (p.2.handedOver.map fun v => a v.id) := by
  have hs := hs.wellFormed.tolerance (u := .none)
  have heffects := h.mono fun c m answer n hc ha => ha.effect hc
  have hexact := Extended.Tolerance.isZero_none (F := F)
  refine (allowsShown_tolerance_iff t .none _).trans (Iff.trans ?_ (and_congr
    (feasible_tolerance_iff .none t)
    (forall₂_congr fun p _ => Call.meaning_tolerance_iff .none t p.1 _)))
  let _ : Extended.Tolerance F := .none
  exact Run.allowsShown_iff hs heffects

end Model

end Kept

namespace Model

/-! ## A sequence of two calls -/

section Rational

local instance rationalTolerance : Extended.Tolerance ℚ := .standard

/-- A variable between zero and ten. -/
def boundedVariable : Variable (Extended ℚ) :=
  ⟨⟨0, 0⟩, .text "x", .continuous, .finite 0, .finite 10⟩

/-- A model of this variable. -/
def boundedModel : Model (Extended ℚ) := { empty 0 .none with vars := [boundedVariable] }

/-- How far the variable is from four. -/
def distanceCall : Call (Extended ℚ) :=
  .magnitude (.expr ⟨[(boundedVariable, .finite 1)], .finite (-4)⟩) .none

/-- The result, which comes after three hidden variables. -/
def distance : Variable (Extended ℚ) :=
  ⟨⟨0, 4⟩, .text "abs_3", .continuous, .finite 0, .finite 6⟩

/-- The model with this result. -/
def distanceModel : Model (Extended ℚ) :=
  (Build.exec (Build.perform distanceCall) boundedModel).2

/-- The greater one of the variable and its distance. -/
def greaterCall : Call (Extended ℚ) := .maximum (.list [.var boundedVariable, .var distance]) .none

/-- The result. -/
def greater : Variable (Extended ℚ) :=
  ⟨⟨0, 5⟩, .text "max_4", .continuous, .finite 0, .finite 10⟩

theorem boundedModel_reachable : boundedModel.Reachable :=
  (Reachable.empty (K := Extended ℚ) 0 .none).call _
    (Call.admissible_addVariable (K := Extended ℚ) _ .continuous (.finite 0) (.finite 10) "x")

theorem distanceCall_answers : distanceCall.Answers boundedModel (.var distance) distanceModel :=
  ⟨by cbv, by cbv⟩

theorem greaterCall_answers : greaterCall.Answers distanceModel (.var greater)
    (Build.exec (Build.perform greaterCall) distanceModel).2 := ⟨by cbv, by cbv⟩

theorem mem_distanceModel :
    distance ∈ distanceModel.vars ∧ boundedVariable ∈ distanceModel.vars := by
  have hlast : distanceModel.vars.getLast? = some distance := by cbv
  have hfirst : distanceModel.vars.head? = some boundedVariable := by cbv
  exact ⟨List.mem_of_getLast? hlast, List.mem_of_head? hfirst⟩

theorem distance_run : Run Call.Answers boundedModel boundedModel.vars
    [(distanceCall, .var distance), (greaterCall, .var greater)]
    (Build.exec (Build.perform greaterCall) distanceModel).2 := by
  obtain ⟨hdistance, hbounded⟩ := mem_distanceModel
  refine .cons ⟨rfl, ?_, ?_, rfl⟩ ?_ distanceCall_answers
    (.cons ⟨rfl, ?_, ?_, rfl⟩ ?_ greaterCall_answers (.nil _ _))
  · intro v hv
    obtain rfl := List.mem_singleton.1 (show v ∈ [boundedVariable] from hv)
    exact ⟨_, List.mem_cons_self, .refl _⟩
  · have hexact : (Value.expr ⟨[(boundedVariable, .finite 1)], .finite (-4)⟩ :
        Value (Extended ℚ)).IsExact :=
      ⟨⟨List.forall_mem_singleton.2 ⟨1, rfl⟩, -4, rfl⟩, List.forall_mem_singleton.2 (by decide)⟩
    exact List.forall_mem_cons.2 ⟨List.forall_mem_singleton.2 hexact,
      List.forall_mem_singleton.2 (List.forall_mem_singleton.2 trivial)⟩
  · have hwell : (Value.expr ⟨[(boundedVariable, .finite 1)], .finite (-4)⟩ :
        Value (Extended ℚ)).WellFormed boundedModel :=
      ⟨List.nodup_singleton _, List.forall_mem_singleton.2 (knows_of_mem List.mem_cons_self)⟩
    exact List.forall_mem_cons.2 ⟨List.forall_mem_singleton.2 hwell,
      List.forall_mem_singleton.2 (List.forall_mem_singleton.2 trivial)⟩
  · intro v hv
    have hv : v ∈ [boundedVariable, distance] := hv
    rcases List.mem_pair.1 hv with rfl | rfl
    · exact ⟨_, List.mem_cons_self, .refl _⟩
    · exact ⟨_, List.mem_cons_of_mem _ List.mem_cons_self, .refl _⟩
  · simp [greaterCall, Call.IsExact, Call.arguments, Value.parts, Value.IsExact, Value.list]
  · simp [greaterCall, Call.Admissible, Call.arguments, Value.Admissible, Value.parts, Value.list,
      Value.WellFormed, knows_of_mem, hdistance, hbounded]

theorem allowsShown_iff_of_run_distance : boundedModel.Reachable ∧
    ∃ n, Run Call.Answers boundedModel boundedModel.vars
      [(distanceCall, .var distance), (greaterCall, .var greater)] n ∧
    ∀ a, boundedModel.AllowsShown n [distance, greater] a ↔ boundedModel.Feasible a ∧
      ∀ p ∈ [(distanceCall, Value.var distance), (greaterCall, Value.var greater)],
        p.1.Meaning a (p.2.handedOver.map fun v => a v.id) :=
  ⟨boundedModel_reachable, _, distance_run,
    allowsShown_iff_of_run boundedModel_reachable distance_run⟩

/-! ## A coefficient that is dropped and a bound that is rounded -/

/-- A number that is too small to be kept as a coefficient. -/
def tiny : ℚ := ⟨1, 10 ^ 16, by decide, by decide⟩

/-- A variable between zero and this number. -/
def tinyVariable : Variable (Extended ℚ) :=
  ⟨⟨0, 0⟩, .text "x", .continuous, .finite 0, .finite tiny⟩

/-- A binary variable. -/
def switch : Variable (Extended ℚ) := ⟨⟨0, 1⟩, .text "d", .binary, .finite 0, .finite 1⟩

/-- A model of the two. -/
def tinyModel : Model (Extended ℚ) := { empty 0 .none with vars := [tinyVariable, switch] }

/-- The constraint that the first one is at most zero. -/
def tinyConstraint : Constraint (Extended ℚ) :=
  ⟨⟨[(tinyVariable, .finite 1)], .finite 0⟩, .le, .finite 0, .none⟩

/-- The second one switches this constraint on. -/
def tinyCall : Call (Extended ℚ) :=
  .indicator (.var switch) (.constraint tinyConstraint none) (.int 1) .none

theorem tinyModel_reachable : tinyModel.Reachable :=
  ((Reachable.empty (K := Extended ℚ) 0 .none).call _
    (Call.admissible_addVariable (K := Extended ℚ) _ .continuous (.finite 0) (.finite tiny) "x")).call
      (.addVariable (.domain .binary) .none .none (.text "d")) (by
        simp [Call.Admissible, Call.arguments, Value.Admissible, Value.parts, Value.WellFormed])

theorem tinyConstraint_halves (context : String) :
    tinyConstraint.halves context none = .ok [(.le, .finite tiny)] := by
  cbv

theorem tinyCall_succeeds :
    ∃ answer n, Build.exec (Build.perform tinyCall) tinyModel = (.ok answer, n) := by
  have hok : (Build.exec (Build.perform tinyCall) tinyModel).1.isOk = true := by decide +kernel
  rcases h : Build.exec (Build.perform tinyCall) tinyModel with ⟨f | answer, n⟩
  · rw [h] at hok
    cases hok
  · exact ⟨answer, n, rfl⟩

/-- The first variable at its upper bound, and the second one on. -/
def tinyPoint : Assignment ℚ := fun i => if i.index = 0 then tiny else 1

theorem tinyRow_holds : ∀ c ∈ tinyConstraint.switchedRows switch true [(.le, .finite tiny)],
    c.holds tinyPoint.lift = true := by
  decide +kernel

theorem tinyCall_feasible {answer : Value (Extended ℚ)} {n : Model (Extended ℚ)}
    (h : Build.exec (Build.perform tinyCall) tinyModel = (.ok answer, n)) :
    n.Feasible tinyPoint := by
  obtain ⟨v, on, c, k, halves, hv, hon, hc, hk, hh, -, hg⟩ := Build.effect_of_ok rfl h
  cases hv
  cases hon
  cases hc
  cases hk
  cases (tinyConstraint_halves _).symm.trans hh
  have hm : tinyModel.Feasible tinyPoint := by
    refine ⟨List.forall_mem_cons.2 ⟨⟨by decide +kernel, by decide +kernel, nofun⟩,
      List.forall_mem_singleton.2 ⟨by decide +kernel, by decide +kernel, fun _ => ⟨1, rfl⟩⟩⟩, ?_⟩
    exact fun c hc => absurd hc List.not_mem_nil
  exact hg.feasible_iff.2 ⟨hm, fun v hv => absurd hv List.not_mem_nil, tinyRow_holds⟩

theorem tinyCall_run {answer : Value (Extended ℚ)} {n : Model (Extended ℚ)}
    (h : Build.exec (Build.perform tinyCall) tinyModel = (.ok answer, n)) :
    Run (fun c m answer n => Build.exec (Build.perform c) m = (.ok answer, n)) tinyModel
      tinyModel.vars [(tinyCall, answer)] n := by
  have hknows : ∀ v ∈ [tinyVariable, switch], tinyModel.Knows v := fun v hv => knows_of_mem hv
  refine .cons ⟨rfl, fun v hv => ⟨v, ?_, .refl v⟩, ?_, rfl⟩ ?_ h (.nil _ _)
  · have hv : v ∈ [switch, tinyVariable] := hv
    exact List.mem_pair.2 (List.mem_pair.1 hv).symm
  · have hexact : (Value.constraint tinyConstraint none).IsExact :=
      ⟨⟨⟨List.forall_mem_singleton.2 ⟨1, rfl⟩, 0, rfl⟩, List.forall_mem_singleton.2 (by decide)⟩,
        0, rfl⟩
    simp only [tinyCall, Call.IsExact, Call.arguments, List.forall_mem_cons, Value.parts, Value.int]
    exact ⟨⟨trivial, List.forall_mem_nil _⟩, ⟨hexact, List.forall_mem_nil _⟩,
      ⟨trivial, List.forall_mem_nil _⟩, ⟨trivial, List.forall_mem_nil _⟩, List.forall_mem_nil _⟩
  · have hwell : (Value.constraint tinyConstraint none).WellFormed tinyModel :=
      ⟨List.nodup_singleton _, List.forall_mem_singleton.2 (hknows _ List.mem_cons_self)⟩
    have hswitch := hknows switch (List.mem_cons_of_mem _ List.mem_cons_self)
    simp only [tinyCall, Call.Admissible, Call.arguments, List.forall_mem_cons, Value.Admissible,
      Value.parts, Value.int]
    exact ⟨⟨hswitch, List.forall_mem_nil _⟩, ⟨hwell, List.forall_mem_nil _⟩,
      ⟨trivial, List.forall_mem_nil _⟩, ⟨trivial, List.forall_mem_nil _⟩, List.forall_mem_nil _⟩

end Rational

/-- The exact number of a double. -/
def exactNumber (x : Float) : ℚ :=
  match Binary64.ofFloat x with
  | .finite negative m q => Binary64.signed negative m * 2 ^ q.toNat / 2 ^ (-q).toNat
  | _ => 0

/-- A variable that is at most a tenth. -/
def tenth : Variable Float := ⟨⟨0, 0⟩, .text "x", .continuous, 0, 0.1⟩

/-- A variable that is at most seven tenths. -/
def sevenTenths : Variable Float := ⟨⟨0, 1⟩, .text "y", .continuous, 0, 0.7⟩

/-- A model of the two. -/
def tenthsModel : Model Float := { empty 0 .none with vars := [tenth, sevenTenths] }

/-- Their sum. -/
def tenths : LinearExpr Float := (LinearExpr.ofVariable tenth).plus (.ofVariable sevenTenths)

theorem tenthsModel_reachable : tenthsModel.Reachable :=
  ((Reachable.empty (K := Float) 0 .none).call _
    (Call.admissible_addVariable (K := Float) _ .continuous 0 0.1 "x")).call _
      (Call.admissible_addVariable (K := Float) _ .continuous 0 0.7 "y")

/-- The result of the call is bounded below what the sum can come to. -/
theorem tenths_rounded : (match (Build.exec (Build.perform
      (.maximum (.list [.expr tenths]) .none)) tenthsModel).1 with
    | .ok (.var t) => decide (exactNumber t.upper <
        (tenths.terms.map fun s => exactNumber s.2 * exactNumber s.1.upper).sum)
    | _ => false) = true := by
  decide +kernel

/-- A sequence of calls need not be exact.  The coefficient that would switch a row off may be dropped
while its constant is kept, and the bound of a result may be rounded to a double below what the
result can be. -/
theorem exists_run_not_allowsShown_iff :
    (letI : Extended.Tolerance ℚ := .standard;
      ¬∀ (m n : Model (Extended ℚ)) (steps : List (Call (Extended ℚ) × Value (Extended ℚ)))
        (a : Assignment ℚ), m.Reachable →
        Run (fun c m answer n => Build.exec (Build.perform c) m = (.ok answer, n)) m m.vars steps n →
        (m.AllowsShown n (handedOver steps) a ↔
          m.Feasible a ∧ ∀ p ∈ steps, p.1.Meaning a (p.2.handedOver.map fun v => a v.id))) ∧
    ∃ (m n : Model Float) (e : LinearExpr Float) (t : Variable Float), m.Reachable ∧
      Build.exec (Build.perform (.maximum (.list [.expr e]) .none)) m = (.ok (.var t), n) ∧
      exactNumber t.upper < (e.terms.map fun s => exactNumber s.2 * exactNumber s.1.upper).sum := by
  refine ⟨?_, tenthsModel, ?_⟩
  · intro h
    obtain ⟨answer, n, hrun⟩ := tinyCall_succeeds
    have hn := tinyCall_feasible hrun
    obtain ⟨-, hmean⟩ :=
      (h _ _ _ _ tinyModel_reachable (tinyCall_run hrun)).1 ⟨_, hn, fun _ _ => rfl⟩
    have hzero := hmean (tinyCall, answer) List.mem_cons_self (by decide +kernel)
    change (0 : ℚ) + (1 * tiny + 0) ≤ 0 at hzero
    exact absurd hzero (by decide +kernel)
  · have hround := tenths_rounded
    rcases h : Build.exec (Build.perform (.maximum (.list [.expr tenths]) .none)) tenthsModel with
      ⟨f | answer, n⟩
    · rw [h] at hround
      cases hround
    · rw [h] at hround
      cases answer with
      | var t => exact ⟨n, tenths, t, tenthsModel_reachable, h, of_decide_eq_true hround⟩
      | _ => cases hround

end Model

end MixedInteger
