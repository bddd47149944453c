import MixedInteger.Proofs.Reformulation.Premises
import MixedInteger.Proofs.Reformulation.ProductExact

/-!
# What a product allows

The variable that is to be the product of a binary variable and another operand is so in every
completion, whatever constant its rows are built with.  The product of numbers within bounds is a
completion as long as the constant is large enough, which it is if it is derived, and wherever zero
is.  The product of two binary variables is their conjunction, which needs no constant.

## What is here

* `Value.isBinary`, `Value.IsBinaryIn` — operands that are zero or one.
* `Value.InReach` — the constant is large enough for an operand.
* `Model.product_multiplies` — the call and its completions.
-/

set_option autoImplicit false

namespace MixedInteger

open Arithmetic Extended

/-! ## Reading the call -/

section Reading

variable {K : Type} [Arithmetic K]

/-- Whether an operand is a binary variable. -/
def Value.isBinary : Value K → Bool
  | .var v => v.isBinary
  | _ => false

namespace Value

variable {x : Value K}

theorem exists_of_isBinary (h : x.isBinary = true) : ∃ v, x = .var v ∧ v.isBinary = true := by
  cases x with
  | var v => exact ⟨v, rfl, h⟩
  | _ => cases h

theorem toBinary_of_isBinary {v : Variable K} (h : v.isBinary = true) (context : String) :
    (var v).toBinary context = .ok v := if_pos h

/-- Other operands are not read as binary variables. -/
theorem exists_toBinary_eq_error (h : x.isBinary = false) (context : String) :
    ∃ f, x.toBinary context = .error f := by
  rcases hv : x.toBinary context with f | v
  · exact ⟨f, rfl⟩
  · obtain ⟨rfl, hb⟩ := toBinary_eq_ok hv
    exact absurd (hb.symm.trans h) (by simp)

end Value

namespace Build

variable {x y bigM : Value K} {v w : Variable K} {e : LinearExpr K} {i : Interval K} {k : Option K}
  {m : Model K} {P : Variable K → Model K → Prop}

theorem productOf_binary (hv : v.isBinary = true) (hw : w.isBinary = true) :
    productOf (.var v) (.var w) bigM = conjunction [v, w] := by
  rw [productOf, Value.toBinary_of_isBinary hv, Value.toBinary_of_isBinary hw]

/-- Unless both operands are binary variables, it makes no difference which one is the first. -/
theorem productOf_comm (hx : x.isBinary = false) (hy : y.isBinary = true) :
    productOf x y bigM = productOf y x bigM := by
  obtain ⟨f, hf⟩ := Value.exists_toBinary_eq_error hx "and_"
  obtain ⟨v, rfl, hv⟩ := Value.exists_of_isBinary hy
  rw [productOf, productOf, hf, Value.toBinary_of_isBinary hv]

/-- The product of a binary variable and an operand that can be read. -/
theorem productOf_succeeds (hv : v.isBinary = true) (hy : y.isBinary = false)
    (he : y.toExpr = .ok e) (hk : bigM.toNumber? = .ok k)
    (hi : e.finiteInterval "product" k = .ok i) (h : Succeeds (gate v e i) m P) :
    Succeeds (productOf (.var v) y bigM) m P := by
  obtain ⟨f, hf⟩ := Value.exists_toBinary_eq_error hy "and_"
  rw [productOf, hf, Value.toBinary_of_isBinary hv]
  simp only [he, hk]
  refine .lift_bind (.lift_bind ?_)
  rw [hi]
  exact .lift_bind h

end Build

end Reading

variable {F : Type} [Field F] [LinearOrder F] [FloorRing F] [ToString F] [Extended.Tolerance F]

/-! ## Operands -/

namespace Value

/-- A binary variable is zero or one. -/
def IsBinaryIn (a : Assignment F) (x : Value (Extended F)) : Prop :=
  x.isBinary = true → x.eval a = 0 ∨ x.eval a = 1

/-- The number that is given bounds the magnitude of the operand, or else its variables keep to their
bounds. -/
def InReach (x : Value (Extended F)) (a : Assignment F) : Value (Extended F) → Prop
  | .scalar s => |x.eval a| ≤ s.number
  | _ => a.Respects x.vars

variable {x bigM : Value (Extended F)} {a b : Assignment F} {e : LinearExpr (Extended F)}

omit [Extended.Tolerance F] in
theorem IsBinaryIn.tolerance {t u : Extended.Tolerance F} (h : letI := t; x.IsBinaryIn a) :
    letI := u; x.IsBinaryIn a := by
  let _ := u
  exact h

omit [Extended.Tolerance F] in
theorem InReach.tolerance {t u : Extended.Tolerance F} (h : letI := t; x.InReach a bigM) :
    letI := u; x.InReach a bigM := by
  cases bigM with
  | scalar s => exact h
  | _ => exact (Assignment.respects_tolerance t u).le _ _ h

theorem isBinaryIn_congr (h : ∀ v ∈ x.vars, a v.id = b v.id) : x.IsBinaryIn a ↔ x.IsBinaryIn b := by
  rw [IsBinaryIn, IsBinaryIn, eval_congr h]

theorem inReach_congr (h : ∀ v ∈ x.vars, a v.id = b v.id) :
    x.InReach a bigM ↔ x.InReach b bigM := by
  cases bigM with
  | scalar s => rw [InReach, InReach, eval_congr h]
  | _ => exact forall₂_congr fun v hv => by rw [h v hv]

/-- The bounds that an operand is read with are finite, and large enough within reach. -/
theorem IsRead.exists_interval [IsStrictOrderedRing F] (h : x.IsRead bigM e) (hbig : bigM.IsExact)
    (hgiven : bigM = .none ∨ ∃ s, bigM = .scalar s) : ∃ k l u, bigM.toNumber? = .ok k ∧
      (∀ context, e.finiteInterval context k = .ok ⟨.finite l, .finite u⟩) ∧
      ∀ a, x.InReach a bigM → l ≤ e.eval a ∧ e.eval a ≤ u := by
  obtain rfl | ⟨s, rfl⟩ := hgiven
  · have hi : ∀ context, e.finiteInterval context Option.none = .ok e.interval :=
      fun context =>
      if_pos (h.bounds rfl)
    obtain ⟨-, l, u, hlu⟩ := LinearExpr.exists_of_finiteInterval (hi "")
    refine ⟨Option.none, l, u, rfl, fun context => hlu ▸ hi context, fun a ha => ?_⟩
    have hcontains := h.contains ha
    rwa [hlu, Interval.contains_finite] at hcontains
  · refine ⟨_, -s.number, s.number, hbig.toNumber?_eq_ok, fun _ => rfl, fun a ha => ?_⟩
    rw [h.eval]
    exact abs_le.1 ha

end Value

namespace Model

variable {m n : Model (Extended F)} {x y bigM : Value (Extended F)} {w : Variable (Extended F)}

/-- A new variable is the product of two operands, whatever constant its rows are built with.  It can
be, as long as each operand is binary or within reach of the constant. -/
structure Multiplies (m n : Model (Extended F)) (x y bigM : Value (Extended F))
    (w : Variable (Extended F)) : Prop where
  mem : w ∈ m.newVars n
  eq_mul : ∀ a b, x.IsBinaryIn a → y.IsBinaryIn a → m.Completes n a b →
    b w.id = x.eval a * y.eval a
  exists_completes : ∀ a, x.IsBinaryIn a → y.IsBinaryIn a →
    (x.isBinary = true ∨ x.InReach a bigM) → (y.isBinary = true ∨ y.InReach a bigM) →
    ∃ b, m.Completes n a b

theorem Multiplies.symm (h : m.Multiplies n x y bigM w) : m.Multiplies n y x bigM w where
  mem := h.mem
  eq_mul a b hy hx hb := (h.eq_mul a b hx hy hb).trans (mul_comm _ _)
  exists_completes a hy hx hry hrx := h.exists_completes a hx hy hrx hry

omit [Extended.Tolerance F] in
theorem Multiplies.tolerance {t u : Extended.Tolerance F}
    (h : letI := t; m.Multiplies n x y bigM w) : letI := u; m.Multiplies n x y bigM w := by
  obtain ⟨hmem, heq, hexists⟩ := h
  rw [completes_tolerance t u] at heq hexists
  let _ := u
  exact ⟨hmem, fun a b hx hy => heq a b hx.tolerance hy.tolerance, fun a hx hy hrx hry =>
    hexists a hx.tolerance hy.tolerance (hrx.imp_right fun h => h.tolerance)
      (hry.imp_right fun h => h.tolerance)⟩

/-- A new variable is a product if its rows say so. -/
theorem Grown.multiplies {cs : List (Constraint (Extended F))} (hm : m.WellFormed)
    (hg : m.Grown [w] cs n) (hx : ∀ v ∈ x.vars, m.Knows v) (hy : ∀ v ∈ y.vars, m.Knows v)
    (hsound : ∀ b : Assignment F, x.IsBinaryIn b → y.IsBinaryIn b → w.Allows (b w.id) →
      (∀ c ∈ cs, c.holds b.lift = true) → b w.id = x.eval b * y.eval b)
    (hcomplete : ∀ b : Assignment F, x.IsBinaryIn b → y.IsBinaryIn b →
      (x.isBinary = true ∨ x.InReach b bigM) → (y.isBinary = true ∨ y.InReach b bigM) →
      b w.id = x.eval b * y.eval b → w.Allows (b w.id) ∧ ∀ c ∈ cs, c.holds b.lift = true) :
    m.Multiplies n x y bigM w := by
  have agree : ∀ {z : Value (Extended F)}, (∀ v ∈ z.vars, m.Knows v) → ∀ {a b : Assignment F},
      (∀ i, (∀ v ∈ [w], v.id ≠ i) → b i = a i) → ∀ v ∈ z.vars, a v.id = b v.id :=
    fun hz a b hagrees v hv =>
      (hagrees v.id fun _ hw heq => hg.id_ne_of_knows hm (hz v hv) hw heq.symm).symm
  refine ⟨?_, fun a b hxa hya hb => ?_, fun a hxa hya hrx hry => ?_⟩
  · rw [hg.newVars_eq]
    exact List.mem_cons_self
  · obtain ⟨hagrees, hallows, hrows⟩ := hg.completes_iff.1 hb
    have hax := agree hx hagrees
    have hay := agree hy hagrees
    rw [Value.eval_congr hax, Value.eval_congr hay]
    exact hsound b ((Value.isBinaryIn_congr hax).1 hxa) ((Value.isBinaryIn_congr hay).1 hya)
      (hallows w List.mem_cons_self) hrows
  · obtain ⟨b, hb, -⟩ := hg.exists_completes (a := a) [x.eval a * y.eval a] rfl
      fun b hagrees hnew => by
      have hax := agree hx hagrees
      have hay := agree hy hagrees
      have hw : b w.id = x.eval b * y.eval b := by
        rw [← Value.eval_congr hax, ← Value.eval_congr hay]
        exact (List.cons.inj hnew).1
      obtain ⟨hallows, hrows⟩ := hcomplete b ((Value.isBinaryIn_congr hax).1 hxa)
        ((Value.isBinaryIn_congr hay).1 hya) (hrx.imp_right (Value.inReach_congr hax).1)
        (hry.imp_right (Value.inReach_congr hay).1) hw
      exact ⟨List.forall_mem_singleton.2 hallows, hrows⟩
    exact ⟨b, hb⟩

variable [IsStrictOrderedRing F] [Extended.Tolerance.IsZero F]

/-- The conjunction of two binary variables is their product. -/
theorem Grown.multiplies_of_conjunction {v₁ v₂ : Variable (Extended F)} (hm : m.WellFormed)
    (h₁ : m.Knows v₁) (h₂ : m.Knows v₂) (hb₁ : v₁.isBinary = true) (hb₂ : v₂.isBinary = true)
    (hw : w.IsOf .binary ⟨zero, one⟩) (hg : m.Grown [w] (Logic.conjunctionRows w [v₁, v₂]) n) :
    m.Multiplies n (.var v₁) (.var v₂) bigM w := by
  have hexact : ∀ b : Assignment F, (Value.var v₁).IsBinaryIn b → (Value.var v₂).IsBinaryIn b →
      ((w.Allows (b w.id) ∧ ∀ c ∈ Logic.conjunctionRows w [v₁, v₂], c.holds b.lift = true) ↔
        b w.id = b v₁.id * b v₂.id) := by
    intro b hx hy
    have hx : b v₁.id = 0 ∨ b v₁.id = 1 := hx hb₁
    have hy : b v₂.id = 0 ∨ b v₂.id = 1 := hy hb₂
    rw [Logic.conjunction_exact Extended.tolerance_lt_one hw
      (List.forall_mem_cons.2 ⟨hx, List.forall_mem_singleton.2 hy⟩)]
    rcases hx with hx | hx <;> rcases hy with hy | hy <;> simp [hx, hy]
  exact hg.multiplies hm (List.forall_mem_singleton.2 h₁) (List.forall_mem_singleton.2 h₂)
    (fun b hx hy hallows hrows => (hexact b hx hy).1 ⟨hallows, hrows⟩)
    fun b hx hy _ _ => (hexact b hx hy).2

/-- An operand that a binary variable gates is their product. -/
theorem Grown.multiplies_of_gate {v : Variable (Extended F)} {e : LinearExpr (Extended F)} {l u : F}
    (hm : m.WellFormed) (hv : m.Knows v) (hy : ∀ v ∈ y.vars, m.Knows v) (hb : v.isBinary = true)
    (hyb : y.isBinary = false) (he : y.IsRead bigM e)
    (hreach : ∀ a, y.InReach a bigM → l ≤ e.eval a ∧ e.eval a ≤ u)
    (hw : w.IsOf .continuous ⟨.finite (min l 0), .finite (max u 0)⟩)
    (hg : m.Grown [w] (Gate.productRows w v e ⟨.finite l, .finite u⟩) n) :
    m.Multiplies n (.var v) y bigM w := by
  have := he.finite
  refine hg.multiplies hm (List.forall_mem_singleton.2 hv) hy (fun b hx _ _ hrows => ?_)
    fun b hx _ _ hry hmul => ?_
  · rw [Gate.eq_mul_of_productRows (hx hb) hrows, he.eval]
    rfl
  · obtain ⟨hl, hu⟩ := hreach b (hry.resolve_left (by rw [hyb]; exact Bool.false_ne_true))
    exact (Gate.product_exact hw (hx hb) hl hu).2 (by rw [hmul, he.eval]; rfl)

/-- A binary variable and an operand with bounds have a product. -/
theorem productOf_multiplies (hm : m.WellFormed) (hknowsx : ∀ v ∈ x.vars, m.Knows v)
    (hknowsy : ∀ v ∈ y.vars, m.Knows v) (hexact : y.IsExact) (hbig : bigM.IsExact)
    (hx : x.isBinary = true) (hy : y.isBinary = true ∨ y.HasBounds bigM) :
    Build.Succeeds (Build.productOf x y bigM) m fun w n => m.Multiplies n x y bigM w := by
  obtain ⟨v, rfl, hv⟩ := Value.exists_of_isBinary hx
  have hknows := hknowsx v List.mem_cons_self
  cases hyb : y.isBinary with
  | true =>
    obtain ⟨v', rfl, hv'⟩ := Value.exists_of_isBinary hyb
    rw [Build.productOf_binary hv hv']
    refine (Build.conjunction_spec [v, v'] m).mono ?_
    rintro w n ⟨hw, hg⟩
    exact hg.multiplies_of_conjunction hm hknows (hknowsy v' List.mem_cons_self) hv hv' hw
  | false =>
    have hbounds := hy.resolve_left (by rw [hyb]; exact Bool.false_ne_true)
    obtain ⟨e, he⟩ := hbounds.exists_isRead hexact
    obtain ⟨k, l, u, hk, hi, hreach⟩ := he.exists_interval hbig hbounds.given
    have hproper : (⟨smaller (.finite l) zero, larger (.finite u) zero⟩ :
        Interval (Extended F)).isProper = true := by
      rw [zero_eq, smaller_finite, larger_finite]
      exact ((Interval.contains_finite _ _ 0).2 ⟨min_le_right l 0, le_max_right u 0⟩).isProper
    refine Build.productOf_succeeds hv hyb he.toExpr hk (hi _)
      ((Build.gate_succeeds v e hproper m).mono ?_)
    rintro w n ⟨hw, hg⟩
    rw [zero_eq, smaller_finite, larger_finite] at hw
    exact hg.multiplies_of_gate hm hknows hknowsy hv hyb he hreach hw

omit [Extended.Tolerance.IsZero F] in
/-- **The product of a binary variable and another operand.**  As long as no coefficient is dropped
that is not zero, the call succeeds; in every completion its variable is the product, for any
constant; and what is within reach of the constant has a completion. -/
theorem product_multiplies (hm : m.Reachable) (hadmissible : (Call.product x y bigM).Admissible m)
    (hexact : (Call.product x y bigM).IsExact) (hdrops : (Call.product x y bigM).DropsNothing m)
    (hbinary : x.isBinary = true ∨ y.isBinary = true)
    (hx : x.isBinary = true ∨ x.HasBounds bigM) (hy : y.isBinary = true ∨ y.HasBounds bigM) :
    ∃ w n, Build.exec (Build.perform (.product x y bigM)) m = (.ok (.var w), n) ∧
      m.Multiplies n x y bigM w := by
  refine hdrops.exists_var (P := fun w n => m.Multiplies n x y bigM w) ?_
  have hexactx := hexact.arg (x := x) (by simp [Call.arguments])
  have hexacty := hexact.arg (x := y) (by simp [Call.arguments])
  have hbig := hexact.arg (x := bigM) (by simp [Call.arguments])
  have hknowsx := (hadmissible x (by simp [Call.arguments])).wellFormed.knows
  have hknowsy := (hadmissible y (by simp [Call.arguments])).wellFormed.knows
  have hm := hm.wellFormed.tolerance (u := .none)
  have hzero := Extended.Tolerance.isZero_none (F := F)
  have hx := hx.imp_right fun h => h.tolerance (u := .none)
  have hy := hy.imp_right fun h => h.tolerance (u := .none)
  let _ : Extended.Tolerance F := .none
  have hbinary : x.isBinary = true ∨ y.isBinary = true := hbinary
  refine .map (Build.Succeeds.mono (R := fun w n => m.Multiplies n x y bigM w) ?_
    fun w n h => ⟨w, rfl, h.tolerance⟩)
  cases hxb : x.isBinary with
  | true => exact productOf_multiplies hm hknowsx hknowsy hexacty hbig hxb hy
  | false =>
    have hyb := hbinary.resolve_left (by rw [hxb]; exact Bool.false_ne_true)
    rw [Build.productOf_comm hxb hyb]
    exact (productOf_multiplies hm hknowsy hknowsx hexactx hbig hyb hx).mono fun _ _ h => h.symm

/-! ## A factor that is never zero -/

section Rational

local instance productTolerance : Extended.Tolerance ℚ := .standard

/-- A model of a variable between zero and ten and a binary variable. -/
def switchedModel : Model (Extended ℚ) := { empty 0 .none with vars := [boundedVariable, switch] }

/-- The first variable minus fourteen, which is between minus fourteen and minus four. -/
def negativeFactor : Value (Extended ℚ) := .expr ⟨[(boundedVariable, .finite 1)], .finite (-14)⟩

theorem switchedModel_reachable : switchedModel.Reachable :=
  boundedModel_reachable.call (.addVariable (.domain .binary) .none .none (.text "d")) (by
    simp [Call.Admissible, Call.arguments, Value.Admissible, Value.parts, Value.WellFormed])

theorem product_multiplies_negativeFactor : ∃ w n,
    Build.exec (Build.perform (.product negativeFactor (.var switch) .none)) switchedModel =
      (.ok (.var w), n) ∧ switchedModel.Multiplies n negativeFactor (.var switch) .none w := by
  refine product_multiplies switchedModel_reachable ?_ ?_ ?_ (.inr (by decide +kernel))
    (.inr ⟨_, rfl, .inl ⟨rfl, by decide +kernel⟩⟩) (.inl (by decide +kernel))
  · have hbounded : switchedModel.Knows boundedVariable := knows_of_mem List.mem_cons_self
    have hswitch : switchedModel.Knows switch :=
      knows_of_mem (List.mem_cons_of_mem _ List.mem_cons_self)
    have hfactor : negativeFactor.WellFormed switchedModel :=
      ⟨List.nodup_singleton _, List.forall_mem_singleton.2 hbounded⟩
    exact List.forall_mem_cons.2 ⟨List.forall_mem_singleton.2 hfactor, List.forall_mem_cons.2
      ⟨List.forall_mem_singleton.2 hswitch, List.forall_mem_singleton.2
        (List.forall_mem_singleton.2 trivial)⟩⟩
  · have hfactor : negativeFactor.IsExact :=
      ⟨⟨List.forall_mem_singleton.2 ⟨1, rfl⟩, -14, rfl⟩, List.forall_mem_singleton.2 (by decide)⟩
    exact List.forall_mem_cons.2 ⟨List.forall_mem_singleton.2 hfactor, List.forall_mem_cons.2
      ⟨List.forall_mem_singleton.2 trivial, List.forall_mem_singleton.2
        (List.forall_mem_singleton.2 trivial)⟩⟩
  · rw [Call.DropsNothing]
    cbv

end Rational

end Model

end MixedInteger
