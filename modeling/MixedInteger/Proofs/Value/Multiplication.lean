import MixedInteger.Proofs.Linear.Kept

/-!
# Products of operands

A product is linear if one of its factors is constant.  The factor on the left decides, and an
expression on the left looks for numbers and for other expressions only.  So a constant expression
times a variable fails, although the same two factors the other way round have a product.

## What is here

* `Value.IsFactor`, `Value.IsConstant` — what can be multiplied, and what is constant.
* `Value.product_comm` — two expressions have one product, whichever comes first.
* `Value.mul_spec` — when there is a product, what fails otherwise, and where the order of the
  factors does not matter.
* `Value.exists_constant_mul_error` — a constant factor without a product.
-/

set_option autoImplicit false

namespace MixedInteger

open Arithmetic

/-! ## Commuting numbers -/

namespace Double

open Float.Model (UnpackedFloat Format)
open Float.Model.UnpackedFloat

theorem sign_mul_comm (s t : Sign) : s * t = t * s := by
  cases s <;> cases t <;> rfl

theorem unpacked_mul_comm (f g : UnpackedFloat) :
    UnpackedFloat.mul Format.binary64 f g = UnpackedFloat.mul Format.binary64 g f := by
  rcases f with s | _ | s | ⟨s, m, d, hm⟩ <;> rcases g with t | _ | t | ⟨t, n, e, hn⟩
  case finite.finite =>
    rw [UnpackedFloat.mul, UnpackedFloat.mul, sign_mul_comm s t, Nat.mul_comm m n, Int.add_comm d e]
  all_goals simp only [UnpackedFloat.mul, sign_mul_comm]

/-- The order of two doubles does not matter to their product. -/
instance mulCommutative : Std.Commutative fun x y : Float => x * y :=
  ⟨fun x y => congrArg (fun f => Float.ofModel (.pack f))
    (unpacked_mul_comm x.toModel.unpack y.toModel.unpack)⟩

end Double

namespace LinearExpr

variable {K : Type} [Arithmetic K]

theorem isConstant_ofVariable [KeepsIntegers K] (v : Variable K) :
    (ofVariable v).isConstant = false := by
  have hone : significant (one : K) = true := KeepsIntegers.significant_one
  simp [isConstant, ofVariable, ofTerms, hone]

/-- A multiple of a constant is a constant. -/
theorem scale_of_isConstant {e : LinearExpr K} (h : e.isConstant = true) (s : K) :
    e.scale s = ofConstant (e.constant * s) := by
  rw [scale, List.isEmpty_iff.1 h]
  rfl

end LinearExpr

namespace Value

variable {K : Type}

/-! ## Factors -/

/-- What can be multiplied: a variable, an expression, or a number of the model. -/
def IsFactor [Arithmetic K] : Value K → Prop
  | scalar s => ∃ x, s.toNumber = .ok x
  | var _ | expr _ => True
  | _ => False

/-- A factor without variables: a number, or an expression that has no term. -/
def IsConstant : Value K → Prop
  | scalar _ => True
  | expr e => e.isConstant = true
  | _ => False

/-- A factor that is a number. -/
def IsScalar : Value K → Prop
  | scalar _ => True
  | _ => False

/-- The first factor is an expression and the second one a variable. -/
def IsExprByVar : Value K → Value K → Prop
  | expr _, var _ => True
  | _, _ => False

/-- The factors have a product: one of them is constant, and no expression stands left of a
variable. -/
def Multiplies (a b : Value K) : Prop := (a.IsConstant ∨ b.IsConstant) ∧ ¬a.IsExprByVar b

variable [Arithmetic K]

theorem product_scalar (e : LinearExpr K) {s : Scalar K} {x : K} (h : s.toNumber = .ok x) :
    product e (scalar s) = .ok (e.scale x) := by
  rw [product, h]
  rfl

/-- **Two expressions have one product**, whichever comes first. -/
theorem product_comm [Std.Commutative fun x y : K => x * y] (e f : LinearExpr K) :
    product e (expr f) = product f (expr e) := by
  rw [product, product]
  cases he : e.isConstant <;> cases hf : f.isConstant
  -- only where both are constant do the two orders multiply different numbers
  case true.true =>
    have hcomm : e.constant * f.constant = f.constant * e.constant :=
      (inferInstance : Std.Commutative fun x y : K => x * y).comm _ _
    rw [if_pos rfl, if_pos rfl, LinearExpr.scale_of_isConstant he,
      LinearExpr.scale_of_isConstant hf, hcomm]
  all_goals simp

/-! ## Products -/

variable {a b : Value K}

theorem mul_of_linear {e : LinearExpr K} (h : a.linear? = some e) (b : Value K) :
    mul a b = (product e b).map expr := by
  rw [mul, h]

/-- A number has one product with a factor, whichever comes first. -/
theorem mul_scalar {f : LinearExpr K} (h : b.linear? = some f) {s : Scalar K} {x : K}
    (hx : s.toNumber = .ok x) :
    mul (scalar s) b = .ok (.expr (f.scale x)) ∧ mul b (scalar s) = .ok (.expr (f.scale x)) := by
  have hproduct : (product f (scalar s)).map expr = .ok (.expr (f.scale x)) := by
    rw [product_scalar f hx]
    rfl
  refine ⟨?_, (mul_of_linear h _).trans hproduct⟩
  rw [← hproduct, mul, h]
  rfl

/-- A product with an expression on its right. -/
theorem mul_expr_cases {e : LinearExpr K} (h : a.linear? = some e)
    (he : e.isConstant = true ↔ a.IsConstant) (f : LinearExpr K) :
    (a.Multiplies (expr f) ∧ ∃ g, mul a (expr f) = .ok (.expr g)) ∨
      (¬a.Multiplies (expr f) ∧ mul a (expr f) = .error .quadratic) := by
  have hlinear : a.Multiplies (expr f) ↔ e.isConstant = true ∨ f.isConstant = true := by
    have hnot : ¬a.IsExprByVar (expr f) := by cases a <;> exact id
    rw [Multiplies, ← he]
    exact and_iff_left hnot
  rw [hlinear, mul_of_linear h, product]
  cases e.isConstant <;> cases f.isConstant <;> simp [Except.map]

/-- Two factors have a product if it is linear, and none otherwise. -/
theorem mul_cases [KeepsIntegers K] (ha : a.IsFactor) (hb : b.IsFactor)
    (hab : ¬(a.IsScalar ∧ b.IsScalar)) :
    (a.Multiplies b ∧ ∃ e, mul a b = .ok (.expr e)) ∨
      (¬a.Multiplies b ∧ mul a b = .error .quadratic) := by
  cases a with
  | scalar s =>
    obtain ⟨x, hx⟩ := ha
    cases b with
    | scalar t => exact absurd ⟨trivial, trivial⟩ hab
    | var v => exact .inl ⟨⟨.inl trivial, id⟩, _, (mul_scalar rfl hx).1⟩
    | expr f => exact .inl ⟨⟨.inl trivial, id⟩, _, (mul_scalar rfl hx).1⟩
    | _ => exact hb.elim
  | var v =>
    cases b with
    | scalar t =>
      obtain ⟨x, hx⟩ := hb
      exact .inl ⟨⟨.inr trivial, id⟩, _, (mul_scalar rfl hx).2⟩
    | var w => exact .inr ⟨fun h => h.1.elim id id, rfl⟩
    | expr f =>
      refine mul_expr_cases rfl ?_ f
      rw [LinearExpr.isConstant_ofVariable]
      exact iff_of_false nofun id
    | _ => exact hb.elim
  | expr e =>
    cases b with
    | scalar t =>
      obtain ⟨x, hx⟩ := hb
      exact .inl ⟨⟨.inr trivial, id⟩, _, (mul_scalar rfl hx).2⟩
    | var w => exact .inr ⟨fun h => h.2 trivial, rfl⟩
    | expr f => exact mul_expr_cases rfl Iff.rfl f
    | _ => exact hb.elim
  | _ => exact ha.elim

/-- The order of two factors does not matter, unless an expression meets a variable. -/
theorem mul_comm_of_not_isExprByVar [KeepsIntegers K] [Std.Commutative fun x y : K => x * y]
    (ha : a.IsFactor) (hb : b.IsFactor) (hab : ¬(a.IsScalar ∧ b.IsScalar))
    (h : ¬a.IsExprByVar b) (h' : ¬b.IsExprByVar a) : mul a b = mul b a := by
  cases a with
  | scalar s =>
    obtain ⟨x, hx⟩ := ha
    cases b with
    | scalar t => exact absurd ⟨trivial, trivial⟩ hab
    | var v => exact (mul_scalar rfl hx).1.trans (mul_scalar rfl hx).2.symm
    | expr f => exact (mul_scalar rfl hx).1.trans (mul_scalar rfl hx).2.symm
    | _ => exact hb.elim
  | var v =>
    cases b with
    | scalar t =>
      obtain ⟨x, hx⟩ := hb
      exact (mul_scalar rfl hx).2.trans (mul_scalar rfl hx).1.symm
    | var w => rfl
    | expr f => exact absurd trivial h'
    | _ => exact hb.elim
  | expr e =>
    cases b with
    | scalar t =>
      obtain ⟨x, hx⟩ := hb
      exact (mul_scalar rfl hx).2.trans (mul_scalar rfl hx).1.symm
    | var w => exact absurd trivial h
    | expr f => rw [mul_of_linear rfl, mul_of_linear rfl, product_comm]
    | _ => exact hb.elim
  | _ => exact ha.elim

/-- **Products of operands.**  Of two factors, not both numbers, there is a product if one of them
is constant, except that an expression cannot be multiplied by a variable on its right, even if the
expression is constant.  Without a product the fault is of the kind for wrong operands.  Unless an
expression meets a variable, two factors have the same product, or none, in either order; and where
both orders have one, the two have the same constant and the same coefficient for every
variable. -/
theorem mul_spec [KeepsIntegers K] [Std.Commutative fun x y : K => x * y] (ha : a.IsFactor)
    (hb : b.IsFactor) (hab : ¬(a.IsScalar ∧ b.IsScalar)) :
    ((∃ e, mul a b = .ok (.expr e)) ↔ (a.IsConstant ∨ b.IsConstant) ∧ ¬a.IsExprByVar b) ∧
    ((∃ e, mul a b = .ok (.expr e)) ∨ ∃ f, mul a b = .error f ∧ f.kind = .type) ∧
    (¬a.IsExprByVar b → ¬b.IsExprByVar a → mul a b = mul b a) ∧
    ∀ e f, mul a b = .ok (.expr e) → mul b a = .ok (.expr f) →
      e.constant = f.constant ∧ ∀ v, e.coefficient v = f.coefficient v := by
  have hcases := mul_cases ha hb hab
  refine ⟨⟨?_, ?_⟩, ?_, mul_comm_of_not_isExprByVar ha hb hab, ?_⟩
  · rintro ⟨e, he⟩
    rcases hcases with ⟨h, -⟩ | ⟨-, herror⟩
    · exact h
    · cases he.symm.trans herror
  · intro h
    exact hcases.elim And.right fun h' => absurd h h'.1
  · exact hcases.imp And.right fun h => ⟨_, h.2, rfl⟩
  · intro e f he hf
    have hne : ∀ {c d : Value K} {g : LinearExpr K},
        mul c d = .ok (.expr g) → ¬c.IsExprByVar d := by
      intro c d g hg hmissed
      cases c with
      | expr c =>
        cases d with
        | var w => cases hg
        | _ => exact hmissed
      | _ => exact hmissed
    have heq := mul_comm_of_not_isExprByVar ha hb hab (hne he) (hne hf)
    cases he.symm.trans (heq.trans hf)
    exact ⟨rfl, fun _ => rfl⟩

/-- A variable times what is left of it when it is subtracted from itself and two is added. -/
theorem mul_spec_cancelled :
    let x : Variable Float := ⟨⟨0, 0⟩, .text "x", .continuous, 0, 10⟩
    let two : LinearExpr Float := ((LinearExpr.ofVariable x).minus (.ofVariable x)).shift 1 2
    (∃ e, mul (.var x) (.expr two) = .ok (.expr e)) ∧
      ¬∃ e, mul (.expr two) (.var x) = .ok (.expr e) := by
  intro x two
  have hconstant : two.isConstant = true := by decide +kernel
  have hleft := mul_spec (a := .var x) (b := .expr two) trivial trivial fun h => h.1
  have hright := mul_spec (a := .expr two) (b := .var x) trivial trivial fun h => h.1
  exact ⟨hleft.1.2 ⟨.inr hconstant, id⟩, fun h => (hright.1.1 h).2 trivial⟩

/-- A constant expression does not multiply a variable on its right, which multiplies it. -/
theorem exists_constant_mul_error :
    let two : Value Float := .expr (.ofConstant 2)
    let x : Value Float := .var ⟨⟨0, 0⟩, .text "x", .continuous, 0, 10⟩
    two.IsFactor ∧ x.IsFactor ∧ two.IsConstant ∧ mul two x = .error .quadratic ∧
      ∃ e, mul x two = .ok (.expr e) :=
  ⟨trivial, trivial, rfl, rfl, _, rfl⟩

end Value

end MixedInteger
