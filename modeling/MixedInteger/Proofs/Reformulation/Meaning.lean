import MixedInteger.Proofs.Linear.Bounds
import MixedInteger.Proofs.Model.Arguments
import MixedInteger.Proofs.Reformulation.CallEffect

/-!
# What a reformulation is to mean

A reformulation stands for something that is not linear: a connective, a magnitude, a product.  This
file says what, for each call, as a condition on the numbers of its operands and of its results, and
what it is that a model with more variables and rows expresses it.

## What is here

* `Value.eval`, `Value.Says` — the number of an operand, and what a constraint says.
* `Model.Call.Meaning` — what a call is to mean.
* `Model.Expresses` — a model allows what another one allows, as far as a condition holds, if the
  variables that are not shown are chosen well.
* `Model.Grown.expresses` — how to prove it.
-/

set_option autoImplicit false

namespace MixedInteger

open Arithmetic

section Meaning

variable {F : Type} [Field F] [LinearOrder F]

namespace Relation

/-- Two numbers stand in the relation. -/
def Holds (r : Relation) (x y : F) : Prop :=
  match r with
  | le => x ≤ y
  | ge => y ≤ x
  | eq => x = y

/-- Two numbers do not stand in the relation, by a margin. -/
def FailsBy (r : Relation) (margin x y : F) : Prop :=
  match r with
  | le => y + margin ≤ x
  | ge => x ≤ y - margin
  | eq => x ≤ y - margin ∨ y + margin ≤ x

end Relation

namespace Constraint

/-- The constraint holds. -/
def Says (c : Constraint (Extended F)) (a : Assignment F) : Prop :=
  c.relation.Holds (c.expr.eval a) c.rhs.number

/-- The constraint fails by a margin. -/
def FailsBy (c : Constraint (Extended F)) (margin : F) (a : Assignment F) : Prop :=
  c.relation.FailsBy margin (c.expr.eval a) c.rhs.number

end Constraint

/-- The exact number of a scalar. -/
def Scalar.number : Scalar (Extended F) → F
  | truth b => if b then 1 else 0
  | integer n => n
  | real x _ => x.number

namespace Value

/-- The number of an operand. -/
def eval (a : Assignment F) : Value (Extended F) → F
  | .var v => a v.id
  | .expr e => e.eval a
  | .scalar s => s.number
  | _ => 0

/-- The constraint of an operand holds. -/
def Says (a : Assignment F) : Value (Extended F) → Prop
  | .constraint c _ => c.Says a
  | _ => False

end Value

variable [FloorRing F] [ToString F] [Extended.Tolerance F]

/-- The margin by which a constraint has to fail: the one that is given, or else one between integers
and a small number otherwise. -/
def Constraint.margin (c : Constraint (Extended F)) : Value (Extended F) → F
  | .scalar s => s.number
  | _ => (Reify.defaultMargin c.expr c.rhs).number

/-- The constraint of an operand fails by its margin, which may be given. -/
def Value.Fails (a : Assignment F) : Value (Extended F) → Value (Extended F) → Prop
  | .constraint c _, given => c.FailsBy (c.margin given) a
  | _, _ => False

/-- What a call is to mean, given the numbers of the variables that it hands over. -/
def Model.Call.Meaning (a : Assignment F) (results : List F) : Model.Call (Extended F) → Prop
  | .conjunction args =>
    (results = [1] ∧ ∀ x ∈ Value.operands args, x.eval a = 1) ∨
      (results = [0] ∧ ∃ x ∈ Value.operands args, x.eval a = 0)
  | .disjunction args =>
    (results = [1] ∧ ∃ x ∈ Value.operands args, x.eval a = 1) ∨
      (results = [0] ∧ ∀ x ∈ Value.operands args, x.eval a = 0)
  | .negation x => results = [1 - x.eval a]
  | .exclusive x y _ =>
    (results = [1] ∧ x.eval a ≠ y.eval a) ∨ (results = [0] ∧ x.eval a = y.eval a)
  | .implication x y => x.eval a = 1 → y.eval a = 1
  | .cardinality r bound args =>
    r.Holds ((Value.operands args).map fun x => x.eval a).sum (bound.eval a)
  | .indicator delta constraint active _ => delta.eval a = active.eval a → constraint.Says a
  | .eitherOr first second _ =>
    (results = [0] ∧ first.Says a) ∨ (results = [1] ∧ second.Says a)
  | .magnitude expr _ => results = [|expr.eval a|]
  | .maximum exprs _ => ∃ t, results = [t] ∧ (∃ x ∈ exprs.parts, t = x.eval a) ∧
      ∀ x ∈ exprs.parts, x.eval a ≤ t
  | .minimum exprs _ => ∃ t, results = [t] ∧ (∃ x ∈ exprs.parts, t = x.eval a) ∧
      ∀ x ∈ exprs.parts, t ≤ x.eval a
  | .product x y _ => results = [x.eval a * y.eval a]
  | .semiContinuous lower upper _ =>
    ∃ x, results = [x] ∧ (x = 0 ∨ (lower.eval a ≤ x ∧ x ≤ upper.eval a))
  | .divide expr divisor => ∃ q r : Int, results = [(q : F), (r : F)] ∧ 0 ≤ r ∧
      (r : F) < divisor.eval a ∧ expr.eval a = divisor.eval a * q + r
  | .reify constraint _ margin =>
    (results = [1] ∧ constraint.Says a) ∨ (results = [0] ∧ constraint.Fails a margin)
  | _ => True

end Meaning

/-! ## Operands -/

section Operands

variable {K : Type}

/-- The variables that a value mentions. -/
def Value.vars : Value K → List (Variable K)
  | .var v => [v]
  | .expr e => e.vars
  | .constraint c _ => c.expr.vars
  | _ => []

namespace Model.Call

/-- The variables that the arguments of a call mention. -/
def vars (c : Call K) : List (Variable K) := c.arguments.flatMap fun x => x.parts.flatMap Value.vars

/-- The constant that a caller gives in place of derived bounds. -/
def bigM : Call K → Value K
  | .indicator _ _ _ k | .eitherOr _ _ k | .magnitude _ k | .maximum _ k | .minimum _ k
  | .product _ _ k | .reify _ k _ => k
  | _ => .none

end Model.Call

end Operands

namespace Value

variable {F : Type}

/-- The numbers in a value are finite, and no coefficient is zero. -/
def IsExact [Field F] : Value (Extended F) → Prop
  | .scalar (.real x _) => ∃ y, x = .finite y
  | .expr e => e.IsFinite ∧ ∀ t ∈ e.terms, t.2 ≠ .finite 0
  | .constraint c _ =>
    (c.expr.IsFinite ∧ ∀ t ∈ c.expr.terms, t.2 ≠ .finite 0) ∧ ∃ b, c.rhs = .finite b
  | _ => True

end Value

/-- The numbers in the arguments of a call are finite. -/
def Model.Call.IsExact {F : Type} [Field F] (c : Model.Call (Extended F)) : Prop :=
  ∀ x ∈ c.arguments, ∀ p ∈ x.parts, p.IsExact

/-! ## Agreement -/

section Agreement

variable {F : Type} [Field F] {a b : Assignment F}

theorem Value.eval_congr {x : Value (Extended F)} (h : ∀ v ∈ x.vars, a v.id = b v.id) :
    x.eval a = x.eval b := by
  cases x with
  | var v => exact h v List.mem_cons_self
  | expr e => exact LinearExpr.eval_congr fun t ht => h t.1 (List.mem_map_of_mem ht)
  | _ => rfl

theorem Constraint.eval_expr_congr {c : Constraint (Extended F)}
    (h : ∀ v ∈ c.expr.vars, a v.id = b v.id) : c.expr.eval a = c.expr.eval b :=
  LinearExpr.eval_congr fun t ht => h t.1 (List.mem_map_of_mem ht)

variable [LinearOrder F]

theorem Value.says_congr {x : Value (Extended F)} (h : ∀ v ∈ x.vars, a v.id = b v.id) :
    x.Says a ↔ x.Says b := by
  cases x with
  | constraint c i => rw [Says, Says, Constraint.Says, Constraint.Says, Constraint.eval_expr_congr h]
  | _ => rfl

variable [FloorRing F] [ToString F] [Extended.Tolerance F]

theorem Value.fails_congr {x given : Value (Extended F)} (h : ∀ v ∈ x.vars, a v.id = b v.id) :
    x.Fails a given ↔ x.Fails b given := by
  cases x with
  | constraint c i =>
    rw [Fails, Fails, Constraint.FailsBy, Constraint.FailsBy, Constraint.eval_expr_congr h]
  | _ => rfl

theorem Variable.mem_vars_of_part {K : Type} {c : Model.Call K} {x p : Value K}
    (hx : x ∈ c.arguments) (hp : p ∈ x.parts) {v : Variable K} (hv : v ∈ p.vars) : v ∈ c.vars :=
  List.mem_flatMap.2 ⟨x, hx, List.mem_flatMap.2 ⟨p, hp, hv⟩⟩

/-- A value that is not run through is its own only part. -/
theorem Value.vars_subset_parts {K : Type} {x : Value K} {v : Variable K} (hv : v ∈ x.vars) :
    ∃ p ∈ x.parts, v ∈ p.vars := by
  cases x with
  | var | expr | constraint => exact ⟨_, List.mem_cons_self, hv⟩
  | _ => cases hv

theorem Value.exists_part_of_operand {K : Type} {args : List (Value K)} {p : Value K}
    (hp : p ∈ operands args) {v : Variable K} (hv : v ∈ p.vars) :
    ∃ x ∈ args, ∃ q ∈ x.parts, v ∈ q.vars := by
  unfold operands at hp
  split at hp
  · exact ⟨_, List.mem_cons_self, p, hp, hv⟩
  · exact ⟨_, List.mem_cons_self, p, hp, hv⟩
  · obtain ⟨q, hq, hvq⟩ := vars_subset_parts hv
    exact ⟨p, hp, q, hq, hvq⟩

/-- **What a call means depends on the variables that its arguments mention.** -/
theorem Model.Call.meaning_congr {c : Model.Call (Extended F)} (h : ∀ v ∈ c.vars, a v.id = b v.id)
    (results : List F) : c.Meaning a results ↔ c.Meaning b results := by
  have part : ∀ x ∈ c.arguments, ∀ p ∈ x.parts, p.eval a = p.eval b := fun x hx p hp =>
    Value.eval_congr fun v hv => h v (Variable.mem_vars_of_part hx hp hv)
  have whole : ∀ x ∈ c.arguments, ∀ v ∈ x.vars, a v.id = b v.id := by
    intro x hx v hv
    obtain ⟨p, hp, hvp⟩ := Value.vars_subset_parts hv
    exact h v (Variable.mem_vars_of_part hx hp hvp)
  have arg : ∀ x ∈ c.arguments, x.eval a = x.eval b := fun x hx => Value.eval_congr (whole x hx)
  have operand : ∀ args : List (Value (Extended F)), (∀ x ∈ args, x ∈ c.arguments) →
      ∀ x ∈ Value.operands args, x.eval a = x.eval b := by
    intro args hargs x hx
    refine Value.eval_congr fun v hv => ?_
    obtain ⟨y, hy, p, hp, hvp⟩ := Value.exists_part_of_operand hx hv
    exact h v (Variable.mem_vars_of_part (hargs y hy) hp hvp)
  have all : ∀ (l : List (Value (Extended F))) (P : F → Prop), (∀ x ∈ l, x.eval a = x.eval b) →
      ((∀ x ∈ l, P (x.eval a)) ↔ ∀ x ∈ l, P (x.eval b)) := fun l P hl =>
    forall₂_congr fun x hx => by rw [hl x hx]
  have any : ∀ (l : List (Value (Extended F))) (P : F → Prop), (∀ x ∈ l, x.eval a = x.eval b) →
      ((∃ x ∈ l, P (x.eval a)) ↔ ∃ x ∈ l, P (x.eval b)) := fun l P hl =>
    exists_congr fun x => and_congr_right fun hx => by rw [hl x hx]
  cases c with
  | addVariable | addVariables | addConstraint | setObjective => rfl
  | conjunction args =>
    have ho := operand args fun x hx => hx
    exact or_congr (and_congr_right' (all _ (· = 1) ho)) (and_congr_right' (any _ (· = 0) ho))
  | disjunction args =>
    have ho := operand args fun x hx => hx
    exact or_congr (and_congr_right' (any _ (· = 1) ho)) (and_congr_right' (all _ (· = 0) ho))
  | negation x => rw [Meaning, Meaning, arg x (by simp [arguments])]
  | exclusive x y encoding =>
    rw [Meaning, Meaning, arg x (by simp [arguments]), arg y (by simp [arguments])]
  | implication x y =>
    rw [Meaning, Meaning, arg x (by simp [arguments]), arg y (by simp [arguments])]
  | cardinality r bound args =>
    have ho := operand args fun x hx => List.mem_cons_of_mem bound hx
    rw [Meaning, Meaning, arg bound (by simp [arguments]), List.map_congr_left ho]
  | indicator delta constraint active bigM =>
    rw [Meaning, Meaning, arg delta (by simp [arguments]), arg active (by simp [arguments]),
      Value.says_congr (whole constraint (by simp [arguments]))]
  | eitherOr first second bigM =>
    rw [Meaning, Meaning, Value.says_congr (whole first (by simp [arguments])),
      Value.says_congr (whole second (by simp [arguments]))]
  | magnitude expr bigM => rw [Meaning, Meaning, arg expr (by simp [arguments])]
  | maximum exprs bigM =>
    have hp := part exprs (by simp [arguments])
    exact exists_congr fun t => and_congr_right' (and_congr (any _ (t = ·) hp) (all _ (· ≤ t) hp))
  | minimum exprs bigM =>
    have hp := part exprs (by simp [arguments])
    exact exists_congr fun t => and_congr_right' (and_congr (any _ (t = ·) hp) (all _ (t ≤ ·) hp))
  | product x y bigM =>
    rw [Meaning, Meaning, arg x (by simp [arguments]), arg y (by simp [arguments])]
  | semiContinuous lower upper name =>
    rw [Meaning, Meaning, arg lower (by simp [arguments]), arg upper (by simp [arguments])]
  | divide expr divisor =>
    rw [Meaning, Meaning, arg expr (by simp [arguments]), arg divisor (by simp [arguments])]
  | reify constraint bigM margin =>
    rw [Meaning, Meaning, Value.says_congr (whole constraint (by simp [arguments])),
      Value.fails_congr (whole constraint (by simp [arguments]))]

end Agreement

/-! ## Hidden variables -/

/-- An identity that a model has beyond the variables of another one and those that are shown. -/
def Model.IsHidden {K : Type} (m n : Model K) (shown : List (Variable K)) (i : VariableId) : Prop :=
  (∃ v ∈ n.vars, v.id = i) ∧ (∀ v ∈ m.vars, v.id ≠ i) ∧ ∀ v ∈ shown, v.id ≠ i

section Feasible

variable {F : Type} [Field F] [LinearOrder F] [FloorRing F] [ToString F] [Extended.Tolerance F]

/-- The second model allows what the first one allows, as far as a condition holds.  The variables
that it has beyond the first model and that are not shown can then be chosen well. -/
structure Model.Expresses (m n : Model (Extended F)) (shown : List (Variable (Extended F)))
    (P : Assignment F → Prop) : Prop where
  sound : ∀ a, n.Feasible a → m.Feasible a ∧ P a
  complete : ∀ a, m.Feasible a → P a →
    ∃ b : Assignment F, n.Feasible b ∧ ∀ i, ¬m.IsHidden n shown i → b i = a i

variable {m n : Model (Extended F)} {vs : List (Variable (Extended F))}
  {cs : List (Constraint (Extended F))} {a b : Assignment F}

theorem Model.Expresses.congr {shown : List (Variable (Extended F))} {P Q : Assignment F → Prop}
    (hPQ : ∀ a, P a ↔ Q a) (h : m.Expresses n shown P) : m.Expresses n shown Q where
  sound a ha := ⟨(h.sound a ha).1, (hPQ a).1 (h.sound a ha).2⟩
  complete a ha hQ := h.complete a ha ((hPQ a).2 hQ)

theorem Constraint.holds_congr {c : Constraint (Extended F)}
    (h : ∀ t ∈ c.expr.terms, a t.1.id = b t.1.id) : c.holds a.lift = c.holds b.lift := by
  have hv : c.expr.value a.lift = c.expr.value b.lift := by
    rw [LinearExpr.value_eq_sum, LinearExpr.value_eq_sum]
    congr 2
    refine List.map_congr_left fun t ht => ?_
    rw [Assignment.lift, Assignment.lift, h t ht]
  rw [holds, holds, hv]

/-- Whether rows hold does not depend on their names. -/
theorem Constraint.forall_holds_iff {ds : List (Constraint (Extended F))}
    (h : (cs.map fun c => c.withName .none) = ds.map fun c => c.withName .none) :
    (∀ c ∈ cs, c.holds a.lift = true) ↔ ∀ c ∈ ds, c.holds a.lift = true := by
  have hmap : ∀ l : List (Constraint (Extended F)), (∀ c ∈ l, c.holds a.lift = true) ↔
      ∀ c ∈ l.map fun c => c.withName .none, c.holds a.lift = true := by
    intro l
    rw [List.forall_mem_map]
    rfl
  rw [hmap cs, hmap ds, h]

namespace Model

/-- What a model allows depends on what it mentions. -/
theorem Feasible.congr (ha : m.Feasible a) (hv : ∀ v ∈ m.vars, b v.id = a v.id)
    (hc : ∀ c ∈ m.constraints, ∀ t ∈ c.expr.terms, b t.1.id = a t.1.id) : m.Feasible b := by
  refine ⟨fun v hmem => ?_, fun c hmem => ?_⟩
  · rw [hv v hmem]
    exact ha.vars v hmem
  · rw [Constraint.holds_congr (hc c hmem)]
    exact ha.rows c hmem

/-- **A model with more variables and rows allows less**, by what these say. -/
theorem Grown.feasible_iff (hg : m.Grown vs cs n) : n.Feasible a ↔ m.Feasible a ∧
    (∀ v ∈ vs, v.Allows (a v.id)) ∧ ∀ c ∈ cs, c.holds a.lift = true := by
  obtain ⟨named, heq, hnamed⟩ := hg.constraints_eq
  have hholds := Constraint.forall_holds_iff (a := a) hnamed
  constructor
  · rintro ⟨hv, hc⟩
    rw [hg.vars_eq, List.forall_mem_append] at hv
    rw [heq, List.forall_mem_append] at hc
    exact ⟨⟨hv.1, hc.1⟩, hv.2, hholds.1 hc.2⟩
  · rintro ⟨⟨hv, hc⟩, hv', hc'⟩
    refine ⟨?_, ?_⟩
    · rw [hg.vars_eq, List.forall_mem_append]
      exact ⟨hv, hv'⟩
    · rw [heq, List.forall_mem_append]
      exact ⟨hc, hholds.2 hc'⟩

omit [LinearOrder F] [FloorRing F] [ToString F] [Extended.Tolerance F] [Field F] in
/-- What a model knows is not hidden in a later one. -/
theorem not_isHidden_of_knows (hid : ∀ v ∈ n.vars, v.id.owner = m.id)
    {v : Variable (Extended F)} (hv : m.Knows v) (shown : List (Variable (Extended F))) :
    ¬m.IsHidden n shown v.id := by
  rintro ⟨⟨w, hw, hwv⟩, hnot, -⟩
  obtain ⟨u, hu, hvu⟩ := hv (hwv ▸ hid w hw)
  exact hnot u hu hvu.id_eq.symm

theorem Grown.owner_eq (hm : m.WellFormed) (hg : m.Grown vs cs n) :
    ∀ v ∈ n.vars, v.id.owner = m.id := by
  intro v hv
  rw [hg.vars_eq, List.mem_append] at hv
  rcases hv with hv | hv
  · exact hm.owner_eq hv
  · obtain ⟨i, hi, rfl⟩ := List.getElem_of_mem hv
    rw [hg.ids]

/-- Hidden variables may take any numbers without a change for the earlier model. -/
theorem Feasible.agree (hm : m.WellFormed) (hid : ∀ v ∈ n.vars, v.id.owner = m.id)
    {shown : List (Variable (Extended F))} (ha : m.Feasible a)
    (hb : ∀ i, ¬m.IsHidden n shown i → b i = a i) : m.Feasible b := by
  refine ha.congr (fun v hv => hb _ ?_) fun c hc t ht => hb _ ?_
  · exact not_isHidden_of_knows hid (knows_of_mem hv) shown
  · exact not_isHidden_of_knows hid ((hm.rows c hc).known t ht) shown

/-- **How to prove that new variables and rows express something.** -/
theorem Grown.expresses (hm : m.WellFormed) (hg : m.Grown vs cs n)
    {shown : List (Variable (Extended F))} {P : Assignment F → Prop}
    (sound : ∀ a, m.Feasible a → (∀ v ∈ vs, v.Allows (a v.id)) →
      (∀ c ∈ cs, c.holds a.lift = true) → P a)
    (complete : ∀ a, m.Feasible a → P a → ∃ b : Assignment F, (∀ i, ¬m.IsHidden n shown i → b i = a i) ∧
      (∀ v ∈ vs, v.Allows (b v.id)) ∧ ∀ c ∈ cs, c.holds b.lift = true) :
    m.Expresses n shown P where
  sound a ha := by
    obtain ⟨hma, hv, hc⟩ := hg.feasible_iff.1 ha
    exact ⟨hma, sound a hma hv hc⟩
  complete a ha hP := by
    obtain ⟨b, hb, hv, hc⟩ := complete a ha hP
    have hmb := ha.agree hm (hg.owner_eq hm) hb
    exact ⟨b, hg.feasible_iff.2 ⟨hmb, hv, hc⟩, hb⟩

/-- Without hidden variables there is nothing to choose. -/
theorem Grown.expresses_iff (hm : m.WellFormed) (hg : m.Grown vs cs n)
    (shown : List (Variable (Extended F))) {P : Assignment F → Prop}
    (h : ∀ a, m.Feasible a → (((∀ v ∈ vs, v.Allows (a v.id)) ∧ ∀ c ∈ cs, c.holds a.lift = true) ↔
      P a)) : m.Expresses n shown P :=
  hg.expresses hm (fun a ha hv hc => (h a ha).1 ⟨hv, hc⟩) fun a ha hP =>
    ⟨a, fun _ _ => rfl, (h a ha).2 hP⟩

/-- The same model expresses what holds anyway. -/
theorem expresses_self (m : Model (Extended F)) (shown : List (Variable (Extended F)))
    {P : Assignment F → Prop} (h : ∀ a, m.Feasible a → P a) : m.Expresses m shown P :=
  ⟨fun a ha => ⟨ha, h a ha⟩, fun a ha _ => ⟨a, ha, fun _ _ => rfl⟩⟩

/-! ## Choosing hidden variables -/

omit [LinearOrder F] [FloorRing F] [ToString F] [Extended.Tolerance F] [Field F] in
theorem Grown.id_ne_of_mem [Arithmetic (Extended F)] (hm : m.WellFormed) (hg : m.Grown vs cs n)
    {v w : Variable (Extended F)} (hv : v ∈ m.vars) (hw : w ∈ vs) : v.id ≠ w.id := by
  obtain ⟨i, hi, rfl⟩ := List.getElem_of_mem hv
  obtain ⟨j, hj, rfl⟩ := List.getElem_of_mem hw
  rw [hm.ids, hg.ids]
  intro h
  have := congrArg VariableId.index h
  simp only at this
  omega

omit [LinearOrder F] [FloorRing F] [ToString F] [Extended.Tolerance F] [Field F] in
theorem Grown.id_ne_of_knows [Arithmetic (Extended F)] (hm : m.WellFormed) (hg : m.Grown vs cs n)
    {v w : Variable (Extended F)} (hv : m.Knows v) (hw : w ∈ vs) : v.id ≠ w.id := by
  intro heq
  have howner : w.id.owner = m.id := by
    obtain ⟨i, hi, rfl⟩ := List.getElem_of_mem hw
    rw [hg.ids]
  obtain ⟨u, hu, hvu⟩ := hv (heq ▸ howner)
  exact hg.id_ne_of_mem hm hu hw (hvu.id_eq.symm.trans heq)

omit [LinearOrder F] [FloorRing F] [ToString F] [Extended.Tolerance F] [Field F] in
theorem Grown.nodup_ids [Arithmetic (Extended F)] (hg : m.Grown vs cs n) :
    (vs.map fun v => v.id).Nodup := by
  rw [List.nodup_iff_getElem?_ne_getElem?]
  intro i j hij hj heq
  rw [List.length_map] at hj
  rw [List.getElem?_map, List.getElem?_map, List.getElem?_eq_getElem (Nat.lt_trans hij hj),
    List.getElem?_eq_getElem hj, Option.map_some, Option.map_some, hg.ids, hg.ids] at heq
  have := congrArg VariableId.index (Option.some.inj heq)
  simp only at this
  omega

end Model

/-- The assignment with given numbers for some variables. -/
def Assignment.override (a : Assignment F) (ids : List VariableId) (xs : List F) : Assignment F :=
  fun i => xs[ids.idxOf i]?.getD (a i)

namespace Assignment

variable {ids : List VariableId} {xs : List F}

omit [LinearOrder F] [FloorRing F] [ToString F] [Extended.Tolerance F] [Field F] in
theorem override_of_notMem (a : Assignment F) (hlen : xs.length = ids.length) {i : VariableId}
    (hi : i ∉ ids) : a.override ids xs i = a i := by
  rw [override, List.idxOf_eq_length_iff.2 hi, ← hlen, List.getElem?_eq_none le_rfl,
    Option.getD_none]

omit [LinearOrder F] [FloorRing F] [ToString F] [Extended.Tolerance F] [Field F] in
theorem map_override (a : Assignment F) (hlen : xs.length = ids.length) (hids : ids.Nodup) :
    ids.map (a.override ids xs) = xs := by
  refine List.ext_getElem (by rw [List.length_map, hlen]) fun j hj hj' => ?_
  rw [List.getElem_map, override, hids.idxOf_getElem, List.getElem?_eq_getElem hj',
    Option.getD_some]

end Assignment

end Feasible

end MixedInteger
