import MixedInteger.Proofs.Reformulation.LogicExact

/-!
# Products, gated ranges and divisions are exact

A binary factor gates the other one, a binary variable of its own gates a range, and the bounds of a
quotient and a remainder leave only those of the division.

## What is here

* `Gate.product_exact`, `Gate.range_exact` — the rows of a gate.
* `Gate.eq_mul_of_productRows` — the product, whatever the constants in the rows are.
* `Division.row_exact` — the row of a division.
* `Model.product_isExpressed` and its kin — that this is what the calls mean.
-/

set_option autoImplicit false

namespace MixedInteger

open Arithmetic

variable {F : Type} [Field F] [LinearOrder F] [FloorRing F] [ToString F] [Extended.Tolerance F]
  [IsStrictOrderedRing F] [Extended.Tolerance.IsZero F]

/-! ## Gates -/

namespace Gate

variable {a : Assignment F} {w x delta : Variable (Extended F)} {e : LinearExpr (Extended F)}
  {l u : F}

theorem productRows_iff [e.IsFinite] :
    (∀ c ∈ productRows w delta e ⟨.finite l, .finite u⟩, c.holds a.lift = true) ↔
      a w.id ≤ u * a delta.id ∧ l * a delta.id ≤ a w.id ∧
        a w.id - e.eval a - l * a delta.id ≤ -l ∧ -u ≤ a w.id - e.eval a - u * a delta.id := by
  simp [productRows]

theorem rangeRows_iff : (∀ c ∈ rangeRows x delta (.finite l) (.finite u), c.holds a.lift = true) ↔
    l * a delta.id ≤ a x.id ∧ a x.id ≤ u * a delta.id := by
  simp [rangeRows]

/-- The rows leave nothing but the product, whatever the two numbers in them are. -/
theorem eq_mul_of_productRows [e.IsFinite] (hd : a delta.id = 0 ∨ a delta.id = 1)
    (h : ∀ c ∈ productRows w delta e ⟨.finite l, .finite u⟩, c.holds a.lift = true) :
    a w.id = a delta.id * e.eval a := by
  obtain ⟨hupper, hlower, habove, hbelow⟩ := productRows_iff.1 h
  rcases hd with hd | hd <;> rw [hd] at hupper hlower habove hbelow ⊢ <;> linarith

/-- **The product with a binary number is exact.** -/
theorem product_exact [e.IsFinite] (hw : w.IsOf .continuous ⟨.finite (min l 0), .finite (max u 0)⟩)
    (hd : a delta.id = 0 ∨ a delta.id = 1) (hl : l ≤ e.eval a) (hu : e.eval a ≤ u) :
    (w.Allows (a w.id) ∧
      ∀ c ∈ productRows w delta e ⟨.finite l, .finite u⟩, c.holds a.lift = true) ↔
    a w.id = a delta.id * e.eval a := by
  refine ⟨fun h => eq_mul_of_productRows hd h.2, fun h => ?_⟩
  rw [hw.allows_continuous, productRows_iff, h]
  rcases hd with hd | hd <;> rw [hd]
  · rw [zero_mul]
    exact ⟨⟨min_le_right l 0, le_max_right u 0⟩, by linarith, by linarith, by linarith, by linarith⟩
  · rw [one_mul]
    exact ⟨⟨(min_le_left l 0).trans hl, hu.trans (le_max_left u 0)⟩, by linarith, by linarith,
      by linarith, by linarith⟩

/-- **A gated range is exact**, for each value of the binary number. -/
theorem range_exact (hx : x.IsOf .continuous ⟨.finite 0, .finite u⟩) (hl : 0 < l) (hlu : l ≤ u)
    (hd : a delta.id = 0 ∨ a delta.id = 1) :
    (x.Allows (a x.id) ∧
      ∀ c ∈ rangeRows x delta (.finite l) (.finite u), c.holds a.lift = true) ↔
    (a delta.id = 0 ∧ a x.id = 0) ∨ (a delta.id = 1 ∧ l ≤ a x.id ∧ a x.id ≤ u) := by
  rw [hx.allows_continuous, rangeRows_iff]
  rcases hd with hd | hd
  · rw [hd]
    constructor
    · rintro ⟨⟨h₁, -⟩, -, h₂⟩
      exact .inl ⟨rfl, by linarith⟩
    · rintro (⟨-, h⟩ | ⟨h, -⟩)
      · rw [h]
        exact ⟨⟨le_rfl, by linarith⟩, by linarith, by linarith⟩
      · exact absurd h zero_ne_one
  · rw [hd]
    constructor
    · rintro ⟨-, h₁, h₂⟩
      exact .inr ⟨rfl, by linarith, by linarith⟩
    · rintro (⟨h, -⟩ | ⟨-, h₁, h₂⟩)
      · exact absurd h one_ne_zero
      · exact ⟨⟨by linarith, h₂⟩, by linarith, by linarith⟩

end Gate

/-! ## Divisions -/

namespace Division

variable {a : Assignment F} {e : LinearExpr (Extended F)} {d : Int} {r : Division (Extended F)}
  {u : F}

theorem row_iff [e.IsFinite] : (r.row e d).holds a.lift = true ↔
    e.eval a = d * a r.quotient.id + a r.remainder.id := by
  simp [row]
  constructor <;> intro h <;> linarith

/-- **A division is exact**: the bounds of the quotient leave room for every one that occurs. -/
theorem row_exact [e.IsFinite] (hd : 0 < d)
    (hq : r.quotient.IsOf .integer ⟨.finite 0, .finite (⌊u / d⌋ : F)⟩)
    (hr : r.remainder.IsOf .integer ⟨.finite 0, .finite ((d - 1 : Int) : F)⟩) (hl : 0 ≤ e.eval a)
    (hu : e.eval a ≤ u) :
    (r.quotient.Allows (a r.quotient.id) ∧ r.remainder.Allows (a r.remainder.id) ∧
      (r.row e d).holds a.lift = true) ↔
    ∃ q k : Int, a r.quotient.id = q ∧ a r.remainder.id = k ∧ 0 ≤ k ∧ k < d ∧
      e.eval a = d * q + k := by
  have hdF : (0 : F) < d := Int.cast_pos.2 hd
  rw [← Int.cast_zero] at hq hr
  rw [hq.allows_integer, hr.allows_integer, row_iff]
  constructor
  · rintro ⟨⟨q, hq, -, -⟩, ⟨k, hk, hk₀, hk₁⟩, hrow⟩
    exact ⟨q, k, hq, hk, hk₀, by omega, by rw [hrow, hq, hk]⟩
  · rintro ⟨q, k, hq, hk, hk₀, hk₁, hrow⟩
    have hk₀' : (0 : F) ≤ k := Int.cast_nonneg_iff.2 hk₀
    have hk₁' : (k : F) < d := Int.cast_lt.2 hk₁
    have hq₀ : 0 ≤ q := by
      by_contra h
      have h : (q : F) ≤ -1 := by exact_mod_cast (by omega : q ≤ -1)
      have := mul_le_mul_of_nonneg_left h hdF.le
      linarith
    have hq₁ : q ≤ ⌊u / d⌋ := by
      rw [Int.le_floor, le_div_iff₀ hdF]
      linarith [mul_comm (d : F) q]
    exact ⟨⟨q, hq, hq₀, hq₁⟩, ⟨k, hk, hk₀, by omega⟩, by rw [hrow, hq, hk]⟩

/-- There is one quotient and one remainder of an integer, and none of any other number. -/
theorem row_exact_iff [e.IsFinite] (hd : 0 < d)
    (hq : r.quotient.IsOf .integer ⟨.finite 0, .finite (⌊u / d⌋ : F)⟩)
    (hr : r.remainder.IsOf .integer ⟨.finite 0, .finite ((d - 1 : Int) : F)⟩) (hl : 0 ≤ e.eval a)
    (hu : e.eval a ≤ u) :
    (r.quotient.Allows (a r.quotient.id) ∧ r.remainder.Allows (a r.remainder.id) ∧
      (r.row e d).holds a.lift = true) ↔
    ∃ k : Int, e.eval a = k ∧ a r.quotient.id = (k / d : Int) ∧ a r.remainder.id = (k % d : Int) := by
  rw [row_exact hd hq hr hl hu]
  constructor
  · rintro ⟨q, k, hq, hk, hk₀, hk₁, hrow⟩
    obtain ⟨hdiv, hmod⟩ := (Int.ediv_emod_unique hd).2 ⟨add_comm k (d * q), hk₀, hk₁⟩
    exact ⟨d * q + k, by rw [hrow]; push_cast; rfl, by rw [hdiv, hq], by rw [hmod, hk]⟩
  · rintro ⟨k, he, hq, hk⟩
    refine ⟨k / d, k % d, hq, hk, Int.emod_nonneg k hd.ne', Int.emod_lt_of_pos k hd, ?_⟩
    rw [he]
    exact_mod_cast (Int.mul_ediv_add_emod k d).symm

omit [IsStrictOrderedRing F] [Extended.Tolerance.IsZero F] in
/-- The bounds of a quotient and a remainder in numbers. -/
theorem bounds_finite (hd : 0 < d) (hr : Build.DivisionBounds e d r)
    (hu : e.interval.upper = .finite u) :
    r.quotient.IsOf .integer ⟨.finite 0, .finite (⌊u / d⌋ : F)⟩ ∧
      r.remainder.IsOf .integer ⟨.finite 0, .finite ((d - 1 : Int) : F)⟩ := by
  have hdF : (d : F) ≠ 0 := Int.cast_ne_zero.2 hd.ne'
  have hq := hr.quotient
  rw [hu, Extended.ofInt_eq, Extended.finite_div u hdF, Extended.floor_finite,
    Extended.zero_eq] at hq
  exact ⟨hq, hr.remainder⟩

end Division

omit [IsStrictOrderedRing F] [Extended.Tolerance.IsZero F] in
/-- What is between bounds of which the lower one is not negative is not negative. -/
theorem Interval.Contains.nonneg {i : Interval (Extended F)} {x : F}
    (h : i.Contains x) (hlo : lt i.lower zero = false) : 0 ≤ x := by
  rcases Extended.finite_of_le h.lower with hl | ⟨l, hl, hle⟩
  · rw [hl] at hlo
    cases hlo
  · rw [hl, Extended.zero_eq, Extended.lt_finite, decide_eq_false_iff_not, not_lt] at hlo
    exact hlo.trans hle

/-! ## What the calls mean -/

omit [Extended.Tolerance.IsZero F] in
/-- What is an integer is its own integer part. -/
theorem Extended.integerPart_of_isInteger {z : F}
    (h : isInteger (.finite z : Extended F) = true) : (Extended.integerPart z : F) = z := by
  have hz : (⌊z⌋ : F) = z := of_decide_eq_true h
  rw [Extended.integerPart]
  split
  · exact hz
  · rw [← hz, Int.ceil_intCast]

namespace Model

variable {m n : Model (Extended F)} {answer : Value (Extended F)}

theorem product_isExpressed {x y bigM : Value (Extended F)} (hm : m.WellFormed)
    (hc : (Call.product x y bigM).IsOver m.vars) (he : (Call.product x y bigM).Effect m n answer) :
    (Call.product x y bigM).IsExpressed m n answer := by
  obtain ⟨w, rfl, he⟩ := he
  obtain rfl : bigM = .none := hc.bigM
  have hmean : ∀ a : Assignment F, a w.id = x.eval a * y.eval a ↔
      (Call.product x y .none).Meaning a [a w.id] := by
    intro a
    rw [Call.Meaning, List.cons.injEq, and_iff_left rfl]
  refine Expresses.congr hmean ?_
  cases he with
  | binary v₁ v₂ hx hy hw hg =>
    obtain ⟨rfl, hb₁⟩ := Value.toBinary_eq_ok hx
    obtain ⟨rfl, hb₂⟩ := Value.toBinary_eq_ok hy
    refine hg.expresses_iff hm _ fun a ha => ?_
    have h₁ := ha.argument hm hc (v := v₁) (by simp [Call.arguments]) hb₁
    have h₂ := ha.argument hm hc (v := v₂) (by simp [Call.arguments]) hb₂
    rw [List.forall_mem_singleton, Logic.conjunction_exact Extended.tolerance_lt_one hw
      (List.forall_mem_cons.2 ⟨h₁, List.forall_mem_singleton.2 h₂⟩), Value.eval, Value.eval]
    rcases h₁ with h₁ | h₁ <;> rcases h₂ with h₂ | h₂ <;> simp [h₁, h₂]
  | gated delta factor e k i hd he hk hi hw hg =>
    cases hk
    obtain ⟨hdelta, hfactor, hb, hprod⟩ : .var delta ∈ (Call.product x y .none).arguments ∧
        factor ∈ (Call.product x y .none).arguments ∧ delta.isBinary = true ∧
        ∀ a : Assignment F, a delta.id * factor.eval a = x.eval a * y.eval a := by
      rcases hd with ⟨hx, rfl⟩ | ⟨hy, rfl⟩
      · obtain ⟨rfl, hb⟩ := Value.toBinary_eq_ok hx
        exact ⟨by simp [Call.arguments], by simp [Call.arguments], hb, fun a => rfl⟩
      · obtain ⟨rfl, hb⟩ := Value.toBinary_eq_ok hy
        exact ⟨by simp [Call.arguments], by simp [Call.arguments], hb, fun a => mul_comm _ _⟩
    obtain ⟨hfinite, hvars, heval⟩ := (hc.exact_arg hfactor).toExpr he
    obtain ⟨rfl, l, u, hlu⟩ := LinearExpr.exists_of_finiteInterval hi
    rw [hlu] at hw hg
    simp only [Extended.zero_eq, Extended.smaller_finite, Extended.larger_finite] at hw
    refine hg.expresses_iff hm _ fun a ha => ?_
    have hbounds := ha.interval_contains e fun v hv => hc.has hfactor (hvars v hv)
    rw [hlu, Interval.contains_finite] at hbounds
    rw [List.forall_mem_singleton,
      Gate.product_exact hw (ha.argument hm hc hdelta hb) hbounds.1 hbounds.2, heval, hprod]

theorem semiContinuous_isExpressed {lower upper name : Value (Extended F)} (hm : m.WellFormed)
    (hc : (Call.semiContinuous lower upper name).IsOver m.vars)
    (he : (Call.semiContinuous lower upper name).Effect m n answer) :
    (Call.semiContinuous lower upper name).IsExpressed m n answer := by
  obtain ⟨l, u, x, delta, hl, hu, hrange, rfl, hx, hdelta, hg⟩ := he
  obtain ⟨s, t, rfl, rfl, hpos, hle, -⟩ := Build.isGatedRange_eq_ok hrange
  have hs := hc.exact_arg (x := .scalar s) (by simp [Call.arguments])
  have ht := hc.exact_arg (x := .scalar t) (by simp [Call.arguments])
  rw [Scalar.lt_iff (s := .integer 0) trivial hs, Scalar.number, Int.cast_zero] at hpos
  rw [Scalar.le_iff hs ht] at hle
  obtain rfl := hs.toNumber hl
  obtain rfl := ht.toNumber hu
  rw [Extended.ofInt_eq, Int.cast_zero] at hx
  have hmean : ∀ a : Assignment F, (a x.id = 0 ∨ (s.number ≤ a x.id ∧ a x.id ≤ t.number)) ↔
      (Call.semiContinuous (.scalar s) (.scalar t) name).Meaning a [a x.id] := by
    intro a
    constructor
    · exact fun h => ⟨a x.id, rfl, h⟩
    · rintro ⟨_, ⟨⟩, h⟩
      exact h
  refine Expresses.congr hmean (hg.expresses_of_choice hm (fun a ha hall hrows => ?_)
    fun a ha h => ?_)
  · obtain ⟨hxa, hda⟩ := List.forall_mem_cons.1 hall
    rw [List.forall_mem_singleton, hdelta.allows_binary] at hda
    exact ((Gate.range_exact hx hpos hle hda).1 ⟨hxa, hrows⟩).imp And.right And.right
  · refine ⟨[a x.id, if a x.id = 0 then 0 else 1], rfl, fun b hmb hb hnew => ?_⟩
    obtain ⟨hbx, hbd⟩ : b x.id = a x.id ∧ b delta.id = if a x.id = 0 then 0 else 1 := by
      simpa using hnew
    have hd : b delta.id = 0 ∨ b delta.id = 1 := by
      rw [hbd]
      exact ite_eq_or_eq _ _ _
    obtain ⟨hxb, hrows⟩ := (Gate.range_exact hx hpos hle hd).2 (by
      rw [hbd, hbx]
      by_cases hzero : a x.id = 0
      · exact .inl ⟨if_pos hzero, hzero⟩
      · exact .inr ⟨if_neg hzero, h.resolve_left hzero⟩)
    exact ⟨List.forall_mem_singleton.2 hbx, List.forall_mem_cons.2 ⟨hxb,
      List.forall_mem_singleton.2 (hdelta.allows_binary.2 hd)⟩, hrows⟩

omit [Extended.Tolerance.IsZero F] in
/-- The bounds that a division works with are those of the dividend, which is not negative. -/
theorem Feasible.dividend {a : Assignment F} (ha : m.Feasible a) {e : LinearExpr (Extended F)}
    [e.IsFinite] (hv : ∀ v ∈ e.vars, m.Has v) {u : F} (hlo : lt e.interval.lower zero = false)
    (hu : e.interval.upper = .finite u) : 0 ≤ e.eval a ∧ e.eval a ≤ u := by
  have hcontains := ha.interval_contains e hv
  have hr := hcontains.upper
  rw [hu, Extended.le_finite, decide_eq_true_iff] at hr
  exact ⟨hcontains.nonneg hlo, hr⟩

omit [Extended.Tolerance.IsZero F] in
/-- The divisor that is read is the number of the argument. -/
theorem eval_of_toDivisor {x : Value (Extended F)} (hx : x.IsExact) {d : Int}
    (h : Build.toDivisor x = .ok d) (a : Assignment F) : x.eval a = d := by
  unfold Build.toDivisor at h
  split at h
  next b =>
    obtain ⟨_, -, h⟩ := bind_eq_ok.1 h
    cases h
  next s hs =>
    obtain ⟨k, hk, h⟩ := bind_eq_ok.1 h
    split at h
    next =>
      obtain ⟨_, -, h⟩ := bind_eq_ok.1 h
      cases h
    next hc =>
      rw [Bool.or_eq_true, not_or, Bool.not_eq_true', Bool.not_eq_false, Bool.not_eq_true] at hc
      cases s with
      | truth b => exact absurd rfl (hs b)
      | integer n =>
        cases h
        rfl
      | real y mark =>
        obtain ⟨z, rfl⟩ := hx
        cases hk
        cases h
        exact (Extended.integerPart_of_isInteger hc.1).symm
  next =>
    obtain ⟨_, -, h⟩ := bind_eq_ok.1 h
    cases h

theorem divide_isExpressed {expr divisor : Value (Extended F)} (hm : m.WellFormed)
    (hc : (Call.divide expr divisor).IsOver m.vars)
    (he : (Call.divide expr divisor).Effect m n answer) :
    (Call.divide expr divisor).IsExpressed m n answer := by
  obtain ⟨e, d, r, he, hd, rfl, hlo, hup, hr, hg⟩ := he
  obtain ⟨hfinite, hvars, heval⟩ :=
    (hc.exact_arg (x := expr) (by simp [Call.arguments])).toExpr he
  have hv : ∀ v ∈ e.vars, m.Has v := fun v hv =>
    hc.has (x := expr) (by simp [Call.arguments]) (hvars v hv)
  have hdivisor := eval_of_toDivisor (hc.exact_arg (x := divisor) (by simp [Call.arguments])) hd
  have hpos := Build.toDivisor_pos hd
  obtain ⟨u, hu⟩ := Extended.eq_finite_of_isFinite hup
  obtain ⟨hq, hk⟩ := Division.bounds_finite hpos hr hu
  refine hg.expresses_iff hm _ fun a ha => ?_
  obtain ⟨hl, hu⟩ := ha.dividend hv hlo hu
  rw [List.forall_mem_cons, List.forall_mem_singleton, List.forall_mem_singleton, and_assoc,
    Division.row_exact hpos hq hk hl hu, heval]
  simp only [Call.Meaning, hdivisor, Int.cast_lt]
  refine exists_congr fun q => exists_congr fun k => ?_
  constructor
  · rintro ⟨hq, hk, h⟩
    exact ⟨congrArg₂ (fun x y => [x, y]) hq hk, h⟩
  · rintro ⟨hres, h⟩
    obtain ⟨hq, hk⟩ : a r.quotient.id = q ∧ a r.remainder.id = k := by
      simpa [Value.handedOver] using hres
    exact ⟨hq, hk, h⟩

end Model

end MixedInteger
