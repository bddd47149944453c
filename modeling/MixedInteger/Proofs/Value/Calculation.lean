import MixedInteger.Proofs.Linear.Slope
import MixedInteger.Proofs.Reformulation.Operands
import MixedInteger.Proofs.Value.Evaluation
import MixedInteger.Proofs.Value.Multiplication

/-!
# Calculations

A calculation puts numbers, variables and expressions together by operators.  What comes out is an
expression that has the value of the calculation under every assignment.

## What is here

* `Calculation`, `Calculation.run` — the trees of operators, and what the operators make of them.
* `Calculation.value` — the number that a calculation stands for.
* `Calculation.IsLinear`, `Calculation.IsRetained` — the trees that are linear, and those in which
  no coefficient is too small to be kept.
* `Value.Means` — an operand stands for a function, with one lemma for each operator.
* `Calculation.run_spec` — **the expression that comes out has the value of the calculation**.
-/

set_option autoImplicit false

namespace MixedInteger

open Arithmetic Extended

/-- An operator on two operands. -/
inductive Operator where
  /-- The sum. -/
  | add
  /-- The difference. -/
  | sub
  /-- The product. -/
  | mul
  /-- The quotient. -/
  | div
  deriving DecidableEq, Repr

/-- Operands that are put together by operators. -/
inductive Calculation (K : Type) where
  /-- A number, a variable or an expression. -/
  | operand (v : Value K)
  /-- A change of sign. -/
  | neg (s : Calculation K)
  /-- An operator on two operands. -/
  | binary (o : Operator) (s t : Calculation K)

namespace Operator

variable {K : Type}

/-- The operator on two numbers. -/
def compute [Add K] [Sub K] [Mul K] [Div K] : Operator → K → K → K
  | add, x, y => x + y
  | sub, x, y => x - y
  | mul, x, y => x * y
  | div, x, y => x / y

/-- The operator on two operands of which not both are numbers. -/
def combine [Arithmetic K] : Operator → Value K → Value K → Except Fault (Value K)
  | add => Value.add
  | sub => Value.sub
  | mul => Value.mul
  | div => Value.div

/-- The operator on any two operands. -/
def apply [Arithmetic K] (o : Operator) (a b : Value K) : Except Fault (Value K) :=
  match a, b with
  | .scalar s, .scalar t => do return .real (o.compute (← s.toNumber) (← t.toNumber))
  | _, _ => o.combine a b

/-- One factor of a product is a number, or the second one is an expression without variables; a
divisor is a number other than zero. -/
def Permits {F : Type} [Field F] [LinearOrder F] [FloorRing F] [ToString F] [Extended.Tolerance F] :
    Operator → Value (Extended F) → Value (Extended F) → Prop
  | add, _, _ | sub, _, _ => True
  | mul, a, b =>
    a.IsScalar ∨ b.IsScalar ∨ ∃ e : LinearExpr (Extended F), b = .expr e ∧ e.isConstant = true
  | div, _, b => ∃ s y, b = .scalar s ∧ s.toNumber = .ok (.finite y) ∧ y ≠ 0

end Operator

/-- An operand with its sign changed, where a number is changed as a number. -/
def Value.opposite {K : Type} [Arithmetic K] : Value K → Except Fault (Value K)
  | scalar s => do return real (-(← s.toNumber))
  | a => neg a

namespace Calculation

section Run

variable {K : Type}

/-- The variables of the operands. -/
def vars : Calculation K → List (Variable K)
  | operand (.var v) => [v]
  | operand (.expr e) => e.vars
  | operand _ => []
  | neg s => s.vars
  | binary _ s t => s.vars ++ t.vars

/-- The calculations that a calculation is made of, itself included. -/
def parts : Calculation K → List (Calculation K)
  | operand v => [operand v]
  | neg s => neg s :: s.parts
  | binary o s t => binary o s t :: (s.parts ++ t.parts)

/-- What the operators make of a calculation, from the left to the right. -/
def run [Arithmetic K] : Calculation K → Except Fault (Value K)
  | operand v => .ok v
  | neg s => do Value.opposite (← s.run)
  | binary o s t => do o.apply (← s.run) (← t.run)

end Run

variable {F : Type} [Field F] [LinearOrder F] [FloorRing F] [ToString F] [Extended.Tolerance F]

/-- The number that a calculation stands for under an assignment. -/
def value (a : Assignment F) : Calculation (Extended F) → F
  | operand v => v.eval a
  | neg s => -s.value a
  | binary o s t => o.compute (s.value a) (t.value a)

/-- The operands are numbers, variables and expressions, and the operators permit what they get. -/
def IsLinear : Calculation (Extended F) → Prop
  | operand (.scalar s) => (Value.scalar s).IsExact
  | operand (.var _) => True
  | operand (.expr e) => e.IsFinite ∧ e.IsOver fun _ => True
  | operand _ => False
  | neg s => s.IsLinear
  | binary o s t => s.IsLinear ∧ t.IsLinear ∧
    ∀ a b, s.run = .ok a → t.run = .ok b → o.Permits a b

/-- How much the number of a calculation changes with a variable. -/
def coefficient (t : Calculation (Extended F)) (i : VariableId) : F := slope (fun a => t.value a) i

/-- No coefficient on the way is too small to be kept, unless it is zero. -/
def IsRetained (t : Calculation (Extended F)) : Prop :=
  ∀ s ∈ t.parts, ∀ i, Retained (s.coefficient i)

end Calculation

/-! ## Operands that stand for functions -/

variable {F : Type} [Field F] [LinearOrder F] [FloorRing F] [ToString F] [Extended.Tolerance F]

namespace LinearExpr

variable {e f : LinearExpr (Extended F)} {P : Variable (Extended F) → Prop}

theorem isRetained_of_isKept [he : e.IsFinite] (h : e.IsKept) : e.IsRetained := by
  intro t ht
  obtain ⟨c, hc⟩ := he.terms t ht
  have hs := h t ht
  rw [hc] at hs ⊢
  exact .inr ((significant_iff_lt c).1 hs)

end LinearExpr

namespace Value

/-- An operand over some variables stands for a function of the assignment: it is a number, or a
variable or an expression with the values of the function. -/
inductive Means (P : Variable (Extended F) → Prop) (f : Assignment F → F) :
    Value (Extended F) → Prop where
  /-- The function is constant. -/
  | number {s : Scalar (Extended F)} {x : F} (hs : s.toNumber = .ok (.finite x))
    (hf : f = fun _ => x) : Means P f (scalar s)
  /-- The function is linear. -/
  | linear {r : Value (Extended F)} {e : LinearExpr (Extended F)} (hr : r.linear? = some e)
    (hfinite : e.IsFinite) (hover : e.IsOver P) (hf : f = fun a => e.eval a) : Means P f r

variable {P : Variable (Extended F) → Prop} {f g : Assignment F → F} {a b : Value (Extended F)}
  {e : LinearExpr (Extended F)}

theorem Means.expr (hfinite : e.IsFinite) (hover : e.IsOver P) (h : ∀ x, e.eval x = f x) :
    Means P f (expr e) :=
  .linear rfl hfinite hover (funext fun x => (h x).symm)

section Apply

variable {K : Type} [Arithmetic K] {a b : Value K} {e : LinearExpr K} {o : Operator}

/-- A variable and an expression are linear, and nothing else is. -/
theorem linear_cases (h : a.linear? = some e) :
    (∃ v, a = var v ∧ LinearExpr.ofVariable v = e) ∨ a = Value.expr e := by
  cases a with
  | var v => exact .inl ⟨v, rfl, Option.some.inj h⟩
  | expr f => exact .inr (congrArg Value.expr (Option.some.inj h))
  | _ => cases h

theorem apply_of_linear_left (h : a.linear? = some e) : o.apply a b = o.combine a b := by
  obtain ⟨v, rfl, rfl⟩ | rfl := linear_cases h <;> rfl

theorem apply_of_linear_right (h : b.linear? = some e) : o.apply a b = o.combine a b := by
  obtain ⟨v, rfl, rfl⟩ | rfl := linear_cases h <;> cases a <;> rfl

theorem apply_scalar {s t : Scalar K} {x y : K} (hs : s.toNumber = .ok x)
    (ht : t.toNumber = .ok y) :
    o.apply (scalar s) (scalar t) = .ok (real (o.compute x y)) :=
  bind_eq_ok.2 ⟨x, hs, bind_eq_ok.2 ⟨y, ht, rfl⟩⟩

theorem combine_of_linear {f : LinearExpr K} (h : b.linear? = some f) (sign : K) :
    combine e sign b = .ok (e.combine sign f) := by
  obtain ⟨v, rfl, rfl⟩ | rfl := linear_cases h <;> rfl

theorem add_of_linear (h : a.linear? = some e) (b : Value K) :
    add a b = (combine e one b).map Value.expr := by
  rw [add, h]

theorem scalar_add_of_linear (h : b.linear? = some e) (s : Scalar K) :
    add (scalar s) b = (combine e one (scalar s)).map Value.expr := by
  rw [add, h]
  rfl

theorem sub_of_linear (h : a.linear? = some e) (b : Value K) :
    sub a b = (combine e (-one) b).map Value.expr := by
  rw [sub, h]

theorem scalar_sub_of_linear (h : b.linear? = some e) (s : Scalar K) :
    sub (scalar s) b = (combine e.negate one (scalar s)).map Value.expr := by
  rw [sub, h]
  rfl

theorem opposite_of_linear (h : a.linear? = some e) : opposite a = .ok (Value.expr e.negate) := by
  obtain ⟨v, rfl, rfl⟩ | rfl := linear_cases h <;> rfl

theorem div_of_linear (h : a.linear? = some e) (s : Scalar K) :
    div a (scalar s) = (quotient e s).map Value.expr := by
  obtain ⟨v, rfl, rfl⟩ | rfl := linear_cases h <;> rfl

end Apply

/-- An expression plus a multiple of an operand. -/
theorem Means.combine [he : e.IsFinite] (hover : e.IsOver P) (hb : b.Means P g) (c : F)
    (h : ∀ i, Retained (slope (fun x => e.eval x + c * g x) i)) :
    ∃ r, (Value.combine e (.finite c) b).map Value.expr = .ok r ∧
      r.Means P fun x => e.eval x + c * g x := by
  cases hb with
  | @number s y hs hg =>
    subst hg
    refine ⟨Value.expr (e.shift (.finite c) (.finite y)), ?_, ?_⟩
    · rw [Value.combine, hs]
      rfl
    · exact .expr (e.isFinite_shift c y) (hover.shift _ _)
        fun x => LinearExpr.eval_shift_of_isKept hover.kept c y x
  | @linear _ f hr hfinite hover' hg =>
    subst hg
    refine ⟨Value.expr (e.combine (.finite c) f), ?_, ?_⟩
    · rw [combine_of_linear hr]
      rfl
    · exact .expr (LinearExpr.isFinite_combine e f c) (hover.combine _ hover')
        fun x => LinearExpr.eval_combine_of_slope hover h x

/-- An expression plus an operand. -/
theorem Means.plus [e.IsFinite] (hover : e.IsOver P) (hb : b.Means P g)
    (h : ∀ i, Retained (slope (fun x => e.eval x + g x) i)) :
    ∃ r, (Value.combine e one b).map Value.expr = .ok r ∧ r.Means P fun x => e.eval x + g x := by
  have hcombine := hb.combine hover 1 (by simpa only [one_mul] using h)
  simp only [one_mul] at hcombine
  exact hcombine

theorem Means.add (ha : a.Means P f) (hb : b.Means P g)
    (h : ∀ i, Retained (slope (fun x => f x + g x) i)) :
    ∃ r, Operator.add.apply a b = .ok r ∧ r.Means P fun x => f x + g x := by
  cases ha with
  | @number s y hs hf =>
    subst hf
    cases hb with
    | number ht hg =>
      subst hg
      exact ⟨_, apply_scalar hs ht, .number rfl rfl⟩
    | linear hr hfinite hover hg =>
      subst hg
      simp only [add_comm y] at h ⊢
      obtain ⟨r, hr', hmeans⟩ := Means.plus hover (.number hs rfl) h
      refine ⟨r, ?_, hmeans⟩
      rw [apply_of_linear_right hr]
      exact (scalar_add_of_linear hr s).trans hr'
  | linear hr hfinite hover hf =>
    subst hf
    obtain ⟨r, hr', hmeans⟩ := Means.plus hover hb h
    refine ⟨r, ?_, hmeans⟩
    rw [apply_of_linear_left hr]
    exact (add_of_linear hr b).trans hr'

/-- The same expression with its signs changed. -/
theorem Means.negate (hfinite : e.IsFinite) (hover : e.IsOver P) :
    e.negate.IsFinite ∧ e.negate.IsOver P ∧ ∀ x, e.negate.eval x = -e.eval x :=
  ⟨e.isFinite_negate, hover.negate, fun _ =>
    LinearExpr.eval_negate_of_isRetained (LinearExpr.isRetained_of_isKept hover.kept)⟩

theorem Means.sub (ha : a.Means P f) (hb : b.Means P g)
    (h : ∀ i, Retained (slope (fun x => f x - g x) i)) :
    ∃ r, Operator.sub.apply a b = .ok r ∧ r.Means P fun x => f x - g x := by
  cases ha with
  | @number s y hs hf =>
    subst hf
    cases hb with
    | @number t z ht hg =>
      subst hg
      exact ⟨_, apply_scalar hs ht, .number (congrArg Except.ok (finite_sub y z)) rfl⟩
    | linear hr hfinite hover hg =>
      -- the number is added to the expression with its signs changed
      subst hg
      obtain ⟨hfinite', hover', heval⟩ := Means.negate hfinite hover
      simp only [sub_eq_neg_add, ← heval] at h ⊢
      obtain ⟨r, hr', hmeans⟩ := Means.plus hover' (.number hs rfl) h
      refine ⟨r, ?_, hmeans⟩
      rw [apply_of_linear_right hr]
      exact (scalar_sub_of_linear hr s).trans hr'
  | linear hr hfinite hover hf =>
    subst hf
    have hsub : ∀ x y : F, x - y = x + -1 * y := fun x y => by ring
    simp only [hsub] at h ⊢
    obtain ⟨r, hr', hmeans⟩ := hb.combine hover (-1) h
    refine ⟨r, ?_, hmeans⟩
    rw [apply_of_linear_left hr]
    exact (sub_of_linear hr b).trans hr'

theorem Means.neg (ha : a.Means P f) : ∃ r, opposite a = .ok r ∧ r.Means P fun x => -f x := by
  cases ha with
  | @number s y hs hf =>
    subst hf
    exact ⟨real (.finite (-y)), bind_eq_ok.2 ⟨_, hs, rfl⟩, .number rfl rfl⟩
  | linear hr hfinite hover hf =>
    subst hf
    obtain ⟨hfinite', hover', heval⟩ := Means.negate hfinite hover
    exact ⟨_, opposite_of_linear hr, .expr hfinite' hover' heval⟩

/-- An expression times a number. -/
theorem Means.scale (hfinite : e.IsFinite) (hover : e.IsOver P) {c : F}
    (hf : f = fun x => c * e.eval x) (h : ∀ i, Retained (slope f i)) :
    (Value.expr (e.scale (.finite c))).Means P f := by
  subst hf
  exact .expr (LinearExpr.isFinite_scale e c) (hover.scale _)
    (LinearExpr.eval_scale_of_slope hover h)

theorem Means.mul (ha : a.Means P f) (hb : b.Means P g)
    (hab : a.IsScalar ∨ b.IsScalar ∨ ∃ e, b = .expr e ∧ e.isConstant = true)
    (h : ∀ i, Retained (slope (fun x => f x * g x) i)) :
    ∃ r, Operator.mul.apply a b = .ok r ∧ r.Means P fun x => f x * g x := by
  cases ha with
  | @number s y hs hf =>
    cases hb with
    | @number t z ht hg =>
      subst hf hg
      exact ⟨_, apply_scalar hs ht, .number rfl rfl⟩
    | linear hr hfinite hover hg =>
      refine ⟨_, (apply_of_linear_right hr).trans (mul_scalar hr hs).1, .scale hfinite hover ?_ h⟩
      rw [hf, hg]
  | @linear _ e hr hfinite hover hf =>
    cases hb with
    | @number t z ht hg =>
      refine ⟨_, (apply_of_linear_left hr).trans (mul_scalar hr ht).2, .scale hfinite hover ?_ h⟩
      rw [hf, hg]
      exact funext fun x => mul_comm _ z
    | @linear _ k hr' hfinite' hover' hg =>
      obtain ⟨f', rfl, hconstant⟩ :
          ∃ e : LinearExpr (Extended F), b = .expr e ∧ e.isConstant = true := by
        rcases hab with hab | hab | hab
        · cases a with
          | scalar => cases hr
          | _ => exact hab.elim
        · cases b with
          | scalar => cases hr'
          | _ => exact hab.elim
        · exact hab
      obtain rfl : f' = k := Option.some.inj hr'
      obtain ⟨c, hc⟩ := hfinite'.constant
      refine ⟨Value.expr (e.scale (.finite c)), ?_, .scale hfinite hover ?_ h⟩
      · refine (apply_of_linear_left hr).trans ((mul_of_linear hr _).trans ?_)
        rw [product, if_pos hconstant, hc]
        rfl
      · have heval : ∀ x, LinearExpr.eval x f' = c := by
          intro x
          rw [LinearExpr.eval, List.isEmpty_iff.1 hconstant, hc, Terms.sum_nil, add_zero,
            number_finite]
        rw [hf, hg]
        exact funext fun x => (congrArg (LinearExpr.eval x e * ·) (heval x)).trans (mul_comm _ c)

theorem Means.div (ha : a.Means P f) {s : Scalar (Extended F)} {y : F}
    (hs : s.toNumber = .ok (.finite y)) (hy : y ≠ 0)
    (h : ∀ i, Retained (slope (fun x => f x / y) i)) :
    ∃ r, Operator.div.apply a (scalar s) = .ok r ∧ r.Means P fun x => f x / y := by
  cases ha with
  | @number t z ht hf =>
    subst hf
    exact ⟨_, apply_scalar ht hs, .number (congrArg Except.ok (finite_div z hy)) rfl⟩
  | @linear _ e hr hfinite hover hf =>
    have hzero : Arithmetic.eq (.finite y : Extended F) zero = false := by simp [hy]
    refine ⟨Value.expr (e.scale (.finite (1 / y))), ?_, .scale hfinite hover ?_ h⟩
    · refine (apply_of_linear_left hr).trans ((div_of_linear hr s).trans ?_)
      rw [quotient, hs]
      change Except.map _ (if Arithmetic.eq (.finite y : Extended F) zero = true then _ else _) = _
      rw [hzero, one_eq, finite_div 1 hy]
      rfl
    · rw [hf]
      exact funext fun x => by rw [one_div, div_eq_inv_mul]

/-- What is a number stands for that number. -/
theorem Means.eq_of_number {s : Scalar (Extended F)} {y : F} (h : (scalar s).Means P f)
    (hs : s.toNumber = .ok (.finite y)) : f = fun _ => y := by
  cases h with
  | number hs' hf =>
    cases hs.symm.trans hs'
    exact hf
  | linear hr => cases hr

/-- What stands for a function can be read as an expression with its values. -/
theorem Means.toExpr (h : a.Means P f) :
    ∃ e, a.toExpr = .ok e ∧ e.IsFinite ∧ e.IsOver P ∧ f = fun x => e.eval x := by
  cases h with
  | @number s y hs hf =>
    refine ⟨.ofConstant (.finite y), ?_, ⟨Terms.isFinite_nil, y, rfl⟩,
      LinearExpr.isOver_ofConstant _, hf.trans (funext fun _ => (add_zero y).symm)⟩
    rw [Value.toExpr, hs]
    rfl
  | @linear _ e hr hfinite hover hf =>
    refine ⟨e, ?_, hfinite, hover, hf⟩
    obtain ⟨v, rfl, rfl⟩ | rfl := linear_cases hr <;> rfl

/-- **What an operator makes of two operands** stands for what it makes of their numbers. -/
theorem Means.apply {o : Operator} (ha : a.Means P f) (hb : b.Means P g) (hab : o.Permits a b)
    (h : ∀ i, Retained (slope (fun x => o.compute (f x) (g x)) i)) :
    ∃ r, o.apply a b = .ok r ∧ r.Means P fun x => o.compute (f x) (g x) := by
  cases o with
  | add => exact ha.add hb h
  | sub => exact ha.sub hb h
  | mul => exact ha.mul hb hab h
  | div =>
    obtain ⟨s, y, rfl, hs, hy⟩ := hab
    obtain rfl := hb.eq_of_number hs
    exact ha.div hs hy h

end Value

/-! ## Trees of operators -/

namespace Calculation

open Value

variable {s t : Calculation (Extended F)}

omit [FloorRing F] [ToString F] in
theorem IsRetained.part (h : t.IsRetained) (hs : ∀ u ∈ s.parts, u ∈ t.parts) : s.IsRetained :=
  fun u hu => h u (hs u hu)

omit [FloorRing F] [ToString F] in
theorem IsRetained.self (h : t.IsRetained) (i : VariableId) : Retained (t.coefficient i) := by
  refine h t ?_ i
  cases t <;> exact List.mem_cons_self

variable [IsStrictOrderedRing F]

/-- An operand stands for its value. -/
theorem means_operand {v : Value (Extended F)} (ht : (operand v).IsLinear)
    (hr : (operand v).IsRetained) {P : Variable (Extended F) → Prop}
    (hP : ∀ w ∈ (operand v).vars, P w) : v.Means P fun a => v.eval a := by
  cases v with
  | scalar s => exact .number ht.toNumber_eq_ok rfl
  | var v =>
    -- a variable occurs with the coefficient one, which is retained like all others
    have hone : Tolerance.tolerance < (1 : F) := by
      have h := hr.self v.id
      simpa [coefficient, slope, Calculation.value, Value.eval, Retained] using h
    exact .linear rfl (LinearExpr.isFinite_ofVariable v)
      (LinearExpr.isOver_ofVariable (hP v (List.mem_singleton_self v)))
      (funext fun a => (LinearExpr.eval_ofVariable_of_lt hone a v).symm)
  | expr e =>
    have hover : e.IsOver P :=
      ⟨ht.2.nodup, fun u hu => hP _ (List.mem_map_of_mem hu), ht.2.kept⟩
    exact .expr ht.1 hover fun _ => rfl
  | _ => exact ht.elim

/-- **What comes out of a calculation stands for its value.** -/
theorem exists_means (ht : t.IsLinear) (hr : t.IsRetained) {P : Variable (Extended F) → Prop}
    (hP : ∀ v ∈ t.vars, P v) : ∃ r, t.run = .ok r ∧ r.Means P fun a => t.value a := by
  induction t with
  | operand v => exact ⟨v, rfl, means_operand ht hr hP⟩
  | neg s ihs =>
    obtain ⟨a, ha, hma⟩ := ihs ht (hr.part fun u hu => by simp [parts, hu]) hP
    obtain ⟨r, hneg, hm⟩ := hma.neg
    exact ⟨r, bind_eq_ok.2 ⟨a, ha, hneg⟩, hm⟩
  | binary o s t ihs iht =>
    obtain ⟨hs, ht, hst⟩ := ht
    obtain ⟨a, ha, hma⟩ := ihs hs (hr.part fun u hu => by simp [parts, hu])
      fun v hv => hP v (List.mem_append_left _ hv)
    obtain ⟨b, hb, hmb⟩ := iht ht (hr.part fun u hu => by simp [parts, hu])
      fun v hv => hP v (List.mem_append_right _ hv)
    obtain ⟨r, hab, hm⟩ := hma.apply hmb (hst a b ha hb) hr.self
    exact ⟨r, bind_eq_ok.2 ⟨a, ha, bind_eq_ok.2 ⟨b, hb, hab⟩⟩, hm⟩

/-- **What comes out of a calculation is an expression with its value.**  Under every table with
numbers for the variables of the calculation, the expression is evaluated to the number that the
calculation stands for.  Each variable occurs at most once, with the coefficient that it has in the
calculation, which is large enough to be kept; and every variable with a coefficient other than zero
occurs.  The evaluation fails for want of a value exactly if one of them has none. -/
theorem run_spec (ht : t.IsLinear) (hr : t.IsRetained) :
    ∃ r e, t.run = .ok r ∧ r.toExpr = .ok e ∧
      (∀ values a, (∀ v ∈ t.vars, values.Gives v (.finite (a v.id))) →
        evaluate e values = .ok (real (.finite (t.value a)))) ∧
      (e.terms.map fun u => u.1.id).Nodup ∧
      (∀ u ∈ e.terms, u.1 ∈ t.vars ∧ u.2 = .finite (t.coefficient u.1.id) ∧
        Tolerance.tolerance < |t.coefficient u.1.id|) ∧
      (∀ i, t.coefficient i ≠ 0 → ∃ v ∈ e.vars, v.id = i) ∧
      ∀ values, (∀ v ∈ t.vars, values.Lacks v ∨ ∃ x, values.Gives v x) →
        (evaluate e values = .error .missingKey ↔ ∃ v ∈ e.vars, values.Lacks v) := by
  obtain ⟨r, hrun, hmeans⟩ := exists_means ht hr (P := fun v => v ∈ t.vars) fun _ hv => hv
  obtain ⟨e, he, hfinite, hover, hvalue⟩ := hmeans.toExpr
  have hmem : ∀ v ∈ e.vars, v ∈ t.vars := List.forall_mem_map.2 hover.vars
  have hcoefficient : ∀ i, t.coefficient i = slope (fun a => e.eval a) i :=
    fun i => congrArg (slope · i) hvalue
  refine ⟨r, e, hrun, he, fun values a h => ?_, hover.nodup, fun u hu => ?_, fun i hi => ?_,
    fun values h => evaluate_eq_missing_iff fun v hv => h v (hmem v hv)⟩
  · rw [evaluate_eq (a := a.lift) fun v hv => h v (hmem v hv), LinearExpr.value_eq_eval e]
    exact congrArg (fun x => Except.ok (real (Extended.finite x))) (congrFun hvalue a).symm
  · obtain ⟨c, hc⟩ := hfinite.terms u hu
    have hkept := hover.kept u hu
    rw [hcoefficient, LinearExpr.slope_eval hover.nodup hu]
    rw [hc] at hkept ⊢
    exact ⟨hover.vars u hu, rfl, (significant_iff_lt c).1 hkept⟩
  · by_contra! hne
    refine hi ((hcoefficient i).trans (LinearExpr.slope_eval_of_forall_ne ?_))
    exact fun u hu => hne u.1 (List.mem_map_of_mem hu)

section Rational

local instance calculationTolerance : Extended.Tolerance ℚ := .standard

/-- A variable that remains in a calculation. -/
def remaining : Variable (Extended ℚ) :=
  ⟨⟨0, 0⟩, .text "x", .continuous, .finite 0, .infinite false⟩

/-- A variable that does not remain in a calculation. -/
def cancelled : Variable (Extended ℚ) :=
  ⟨⟨0, 1⟩, .text "y", .continuous, .finite 0, .infinite false⟩

/-- Five minus a variable times what is left of another one when it is subtracted from itself and
four is added, where the product is divided by two. -/
def reflected : Calculation (Extended ℚ) :=
  .binary .sub (.operand (.int 5)) (.binary .div (.binary .mul (.operand (.var remaining))
    (.binary .add (.binary .sub (.operand (.var cancelled)) (.operand (.var cancelled)))
      (.operand (.int 4)))) (.operand (.int 2)))

/-- The second factor of the product comes to an expression without variables. -/
theorem reflected_isLinear : reflected.IsLinear := by
  have hfour : (binary .add (.binary .sub (.operand (.var cancelled)) (.operand (.var cancelled)))
      (.operand (.int 4))).run = .ok (.expr ⟨[], .finite 4⟩) := by
    cbv
  refine ⟨trivial, ⟨⟨trivial, ⟨⟨trivial, trivial, fun _ _ _ _ => trivial⟩, trivial,
    fun _ _ _ _ => trivial⟩, fun a b _ hb => ?_⟩, trivial, fun a b _ hb => ?_⟩,
    fun _ _ _ _ => trivial⟩
  · cases hfour.symm.trans hb
    exact .inr (.inr ⟨_, rfl, rfl⟩)
  · cases hb
    exact ⟨.integer 2, 2, rfl, rfl, two_ne_zero⟩

theorem reflected_isRetained : reflected.IsRetained := by
  have htolerance : (Tolerance.tolerance : ℚ) = 1 / 10 ^ 15 := rfl
  simp only [IsRetained, reflected, parts, List.cons_append, List.nil_append, List.forall_mem_cons]
  simp only [coefficient, slope, value, Operator.compute, Value.eval, Value.int, Scalar.number,
    Pi.single_apply, Retained, htolerance, Pi.zero_apply]
  refine ⟨?_, ?_, ?_, ?_, ?_, ?_, ?_, ?_, ?_, ?_, ?_, fun _ h => absurd h List.not_mem_nil⟩
  all_goals
    intro i
    by_cases hx : remaining.id = i <;> by_cases hy : cancelled.id = i <;> norm_num [hx, hy, abs_div]

theorem reflected_coefficient :
    reflected.coefficient remaining.id = -2 ∧ reflected.coefficient cancelled.id = 0 := by
  constructor <;>
    norm_num [coefficient, slope, reflected, value, Operator.compute, Value.eval, Value.int,
      Scalar.number, remaining, cancelled, Pi.single_apply]

/-- The value of the variable that is gone is not looked up. -/
theorem run_spec_reflected :
    let both : Value (Extended ℚ) :=
      .table [(.var remaining, .int 3), (.var cancelled, .int 7)] none
    let one : Value (Extended ℚ) := .table [(.var remaining, .int 3)] none
    let other : Value (Extended ℚ) := .table [(.var cancelled, .int 7)] none
    ∃ r e, reflected.run = .ok r ∧ r.toExpr = .ok e ∧
      evaluate e both = .ok (real (.finite (-1))) ∧ evaluate e one ≠ .error .missingKey ∧
      evaluate e other = .error .missingKey := by
  intro both one other
  obtain ⟨r, e, hrun, he, hvalue, -, hterms, hoccurs, hmissing⟩ :=
    run_spec reflected_isLinear reflected_isRetained
  obtain ⟨hremaining, hcancelled⟩ := reflected_coefficient
  have hvars : ∀ v ∈ reflected.vars, v = remaining ∨ v = cancelled := by
    simp [reflected, vars, Value.int]
  have honly : ∀ v ∈ e.vars, v = remaining := by
    intro v hv
    obtain ⟨u, hu, rfl⟩ := List.mem_map.1 hv
    obtain ⟨hmem, -, hlt⟩ := hterms u hu
    refine (hvars _ hmem).resolve_right fun h => ?_
    rw [h, hcancelled, abs_zero] at hlt
    exact absurd hlt (by decide +kernel)
  refine ⟨r, e, hrun, he, ?_, ?_, ?_⟩
  · have hboth := hvalue both (fun i => if i = remaining.id then 3 else 7) (by
      intro v hv
      rcases hvars v hv with rfl | rfl
      · exact ⟨.integer 3, rfl, rfl⟩
      · exact ⟨.integer 7, rfl, rfl⟩)
    rw [hboth]
    norm_num [reflected, value, Operator.compute, Value.eval, Value.int, Scalar.number, remaining,
      cancelled]
  · intro herror
    obtain ⟨v, hv, hlacks⟩ := (hmissing one (by
      intro v hv
      rcases hvars v hv with rfl | rfl
      · exact .inr ⟨.finite 3, .integer 3, rfl, rfl⟩
      · exact .inl rfl)).1 herror
    rw [honly v hv] at hlacks
    cases hlacks
  · obtain ⟨v, hv, -⟩ := hoccurs remaining.id (by rw [hremaining]; norm_num)
    refine (hmissing other ?_).2 ⟨v, hv, by rw [honly v hv]; rfl⟩
    intro v hv
    rcases hvars v hv with rfl | rfl
    · exact .inl rfl
    · exact .inr ⟨.finite 7, .integer 7, rfl, rfl⟩

end Rational

end Calculation

end MixedInteger
