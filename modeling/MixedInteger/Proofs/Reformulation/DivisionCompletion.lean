import MixedInteger.Proofs.Reformulation.ProductExact
import MixedInteger.Proofs.Reformulation.Premises

/-!
# What a division allows

The bounds of the remainder leave one quotient and one remainder of an integer, and none of a number
that is not one.  The bound of the quotient cuts off none of them: it comes from the upper bound of
the dividend, and every dividend that occurs is below.

## What is here

* `LinearExpr.interval_contains_upper` — a finite upper bound is within the bounds.
* `Value.IsDividend`, `Build.toDivisor_eq_ok` — the arguments that a division accepts.
* `Model.Divides` — what the new variables are.
* `Model.divide_divides` — the call and its completions.
-/

set_option autoImplicit false

namespace MixedInteger

open Arithmetic Extended

variable {F : Type} [Field F] [LinearOrder F] [FloorRing F] [ToString F] [Extended.Tolerance F]

/-! ## A finite upper bound -/

namespace Extended

omit [LinearOrder F] [FloorRing F] [ToString F] [Tolerance F] in
theorem exists_of_add_eq_finite {x y : Extended F} {z : F} (h : x + y = finite z) :
    ∃ a b, x = finite a ∧ y = finite b ∧ a + b = z := by
  rcases x with _ | n | a <;> rcases y with _ | k | b
  · cases h
  · cases h
  · cases h
  · cases h
  · rw [add_infinite] at h
    split at h <;> cases h
  · cases h
  · cases h
  · cases h
  · exact ⟨a, b, rfl, rfl, finite.inj h⟩

omit [FloorRing F] [ToString F] [Tolerance F] in
theorem exists_of_mul_eq_finite {c z : F} {y : Extended F} (h : finite c * y = finite z) :
    ∃ b, y = finite b ∧ c * b = z := by
  rcases y with _ | n | b
  · cases h
  · rw [finite_mul_infinite, scaleInfinity] at h
    split at h <;> cases h
  · exact ⟨b, rfl, finite.inj h⟩

end Extended

namespace Interval

variable {i : Interval (Extended F)}

theorem isProper_finite {l u : F} :
    (⟨.finite l, .finite u⟩ : Interval (Extended F)).isProper = true ↔ l ≤ u := by
  have hl : isNaN (finite l : Extended F) = false := rfl
  have hu : isNaN (finite u : Extended F) = false := rfl
  simp [isProper, hl, hu]

/-- An upper bound that is finite is within the bounds, and so is a lower one. -/
theorem contains_upper {u : F} (h : i.isProper = true) (hu : i.upper = .finite u) :
    i.Contains u := by
  obtain ⟨l, _⟩ := i
  obtain rfl := hu
  rcases l with _ | n | l
  · cases h
  · cases n
    · cases h
    · exact ⟨rfl, by simp⟩
  · exact (contains_finite l u u).2 ⟨isProper_finite.1 h, le_rfl⟩

theorem contains_lower {l : F} (h : i.isProper = true) (hl : i.lower = .finite l) :
    i.Contains l := by
  obtain ⟨_, u⟩ := i
  obtain rfl := hl
  rcases u with _ | n | u
  · cases h
  · cases n
    · exact ⟨by simp, rfl⟩
    · cases h
  · exact (contains_finite l u l).2 ⟨le_rfl, isProper_finite.1 h⟩

variable [IsStrictOrderedRing F]

/-- Bounds whose finite upper bound is within them stay so when they are moved by a term. -/
theorem contains_upper_addTerm {v : Variable (Extended F)} {c u : F}
    (hv : v.interval.isProper = true) (hi : ∀ u, i.upper = .finite u → i.Contains u)
    (hu : (i.addTerm (v, .finite c)).upper = .finite u) :
    (i.addTerm (v, .finite c)).Contains u := by
  have hbounds := hu
  simp only [addTerm, zero_eq, lt_finite, decide_eq_true_iff] at hbounds
  rcases lt_trichotomy c 0 with hc | rfl | hc
  · rw [if_neg hc.not_gt, if_pos hc] at hbounds
    obtain ⟨x, y, hx, hy, rfl⟩ := exists_of_add_eq_finite hbounds
    obtain ⟨l, hl, rfl⟩ := exists_of_mul_eq_finite hy
    exact (hi x hx).addTerm (contains_lower hv hl)
  · rw [if_neg (lt_irrefl 0), if_neg (lt_irrefl 0)] at hbounds
    simpa [addTerm] using hi u hbounds
  · rw [if_pos hc] at hbounds
    obtain ⟨x, y, hx, hy, rfl⟩ := exists_of_add_eq_finite hbounds
    obtain ⟨k, hk, rfl⟩ := exists_of_mul_eq_finite hy
    exact (hi x hx).addTerm (contains_upper hv hk)

end Interval

/-- **A finite upper bound of an expression is within its bounds**, as long as those of its variables
do not cross. -/
theorem LinearExpr.interval_contains_upper [IsStrictOrderedRing F] {e : LinearExpr (Extended F)}
    [he : e.IsFinite] (hv : ∀ v ∈ e.vars, v.interval.isProper = true) {u : F}
    (hu : e.interval.upper = .finite u) : e.interval.Contains u := by
  have hfold : ∀ (ts : Terms (Extended F)) (i : Interval (Extended F)), ts.IsFinite →
      (∀ t ∈ ts, t.1.interval.isProper = true) → (∀ u, i.upper = .finite u → i.Contains u) →
      ∀ u, (ts.foldl Interval.addTerm i).upper = .finite u →
        (ts.foldl Interval.addTerm i).Contains u := by
    intro ts
    induction ts with
    | nil => exact fun i _ _ hi => hi
    | cons t ts ih =>
      intro i hts hv hi
      obtain ⟨v, _⟩ := t
      obtain ⟨⟨c, rfl⟩, hrest⟩ := Terms.isFinite_cons.1 hts
      exact ih _ hrest (fun t ht => hv t (List.mem_cons_of_mem _ ht)) fun u =>
        Interval.contains_upper_addTerm (hv _ List.mem_cons_self) hi
  obtain ⟨c, hc⟩ := he.constant
  rw [interval, hc] at hu ⊢
  refine hfold e.terms _ he.terms (fun t ht => hv t.1 (List.mem_map_of_mem ht)) (fun u hu => ?_) u hu
  exact Interval.contains_upper (Interval.isProper_finite.2 le_rfl) hu

/-! ## Arguments -/

/-- The operand has bounds, of which the lower one is not negative and the upper one is finite. -/
def Value.IsDividend (x : Value (Extended F)) : Prop :=
  ∃ i, x.intervalOf = .ok i ∧ Arithmetic.lt i.lower zero = false ∧ isFinite i.upper = true

omit [Extended.Tolerance F] in
theorem Value.IsDividend.tolerance {t u : Extended.Tolerance F} {x : Value (Extended F)}
    (h : letI := t; x.IsDividend) : letI := u; x.IsDividend := by
  let _ := u
  exact h

namespace Build

variable [IsStrictOrderedRing F]

/-- A number that is a positive integer, and not a truth value, is read as a divisor. -/
theorem toDivisor_eq_ok {s : Scalar (Extended F)} {d : Int} (hexact : (Value.scalar s).IsExact)
    (hs : ∀ b, s ≠ .truth b) (hd : 0 < d) (h : s.number = d) : toDivisor (.scalar s) = .ok d := by
  have hinteger : isInteger (finite s.number : Extended F) = true := by
    rw [h]
    exact decide_eq_true (by rw [Int.floor_intCast])
  have hle : s.le (.integer 0) = false := by
    rw [Bool.eq_false_iff, ne_eq, Scalar.le_iff hexact (t := .integer 0) trivial, h, not_le]
    exact Int.cast_lt.2 hd
  have hread : (Value.scalar s).toInteger = .ok d := by
    cases s with
    | truth b => exact absurd rfl (hs b)
    | integer n => exact congrArg Except.ok (Int.cast_injective (α := F) h)
    | real y mark =>
      obtain ⟨y, rfl⟩ := hexact
      obtain rfl : y = d := h
      have hpart := integerPart_of_isInteger hinteger
      exact congrArg Except.ok (Int.cast_injective (α := F) hpart)
  have hcheck : (!isInteger (finite s.number : Extended F) || s.le (.integer 0)) = false := by
    rw [hinteger, hle]
    rfl
  unfold toDivisor
  split
  next b heq => exact absurd (Value.scalar.inj heq) (hs b)
  next t _ heq =>
    obtain rfl := Value.scalar.inj heq
    rw [hexact.toNumber_eq_ok]
    change (if _ then _ else _) = _
    rw [hcheck, if_neg Bool.false_ne_true, hread]
  next hne => exact absurd rfl (hne s)

end Build

section Reading

variable {K : Type} [Arithmetic K] {x divisor : Value K} {e : LinearExpr K} {d : Int}

/-- A call whose arguments can be read is a division. -/
theorem Build.perform_divide_eq (hdivisor : toDivisor divisor = .ok d) (he : x.toExpr = .ok e) :
    perform (.divide x divisor) = (do
      let r ← divide e d
      return .sequence .division [.var r.quotient, .var r.remainder]) := by
  rw [perform, divideOf, hdivisor, he]
  rfl

/-- With a dividend in range and proper bounds for the quotient, it is added. -/
theorem Build.perform_divide_succeeds [Sensible K] (hdivisor : toDivisor divisor = .ok d)
    (he : x.toExpr = .ok e) (hl : Arithmetic.lt e.interval.lower zero = false)
    (hu : isFinite e.interval.upper = true)
    (hq : (⟨zero, floor (e.interval.upper / ofInt d)⟩ : Interval K).isProper = true) (m : Model K) :
    Succeeds (perform (.divide x divisor)) m fun answer n => ∃ r : Division K,
      answer = .sequence .division [.var r.quotient, .var r.remainder] ∧ DivisionBounds e d r ∧
        m.Grown [r.quotient, r.remainder] [r.row e d] n := by
  rw [perform_divide_eq hdivisor he]
  refine .bind (divide_succeeds (toDivisor_pos hdivisor) hl hu hq m) ?_
  rintro r n ⟨hr, hg⟩
  exact .pure ⟨r, rfl, hr, hg⟩

end Reading

namespace Model

variable {m n : Model (Extended F)} {x : Value (Extended F)} {d : Int} {r : Division (Extended F)}

/-- The new variables are a quotient and a remainder.  Numbers within their bounds can be completed
exactly if the dividend is an integer, and then in one way only. -/
structure Divides (m n : Model (Extended F)) (x : Value (Extended F)) (d : Int)
    (r : Division (Extended F)) : Prop where
  newVars : m.newVars n = [r.quotient, r.remainder]
  exists_completes_iff : ∀ a, a.Respects x.vars →
    ((∃ b, m.Completes n a b) ↔ ∃ k : Int, x.eval a = k)
  determines : ∀ a (k : Int), a.Respects x.vars → x.eval a = k →
    ∃ b, m.Determines n a b ∧ b r.quotient.id = ⌊x.eval a / d⌋ ∧ b r.remainder.id = (k % d : Int)

omit [Extended.Tolerance F] in
theorem Divides.tolerance {t u : Extended.Tolerance F} (h : letI := t; m.Divides n x d r) :
    letI := u; m.Divides n x d r := by
  obtain ⟨hvars, hiff, hdetermines⟩ := h
  rw [completes_tolerance t u, Assignment.respects_tolerance t u] at hiff
  rw [determines_tolerance t u, Assignment.respects_tolerance t u] at hdetermines
  let _ := u
  exact ⟨hvars, hiff, hdetermines⟩

variable [IsStrictOrderedRing F]

/-- The row of a division divides the operand that it is built from. -/
theorem Grown.divides [Extended.Tolerance.IsZero F] {e : LinearExpr (Extended F)} {u : F}
    [e.IsFinite] (hm : m.WellFormed) (hknows : ∀ v ∈ e.vars, m.Knows v) (hd : 0 < d)
    (heval : ∀ a, e.eval a = x.eval a)
    (hrange : ∀ a, a.Respects x.vars → 0 ≤ e.eval a ∧ e.eval a ≤ u)
    (hq : r.quotient.IsOf .integer ⟨.finite 0, .finite (⌊u / d⌋ : F)⟩)
    (hr : r.remainder.IsOf .integer ⟨.finite 0, .finite ((d - 1 : Int) : F)⟩)
    (hg : m.Grown [r.quotient, r.remainder] [r.row e d] n) : m.Divides n x d r := by
  have hrow : ∀ a, a.Respects x.vars → ∀ b : Assignment F,
      (∀ i, (∀ v ∈ [r.quotient, r.remainder], v.id ≠ i) → b i = a i) →
      (((∀ v ∈ [r.quotient, r.remainder], v.Allows (b v.id)) ∧
          ∀ c ∈ [r.row e d], c.holds b.lift = true) ↔
        ∃ k : Int, x.eval a = k ∧ b r.quotient.id = (k / d : Int) ∧
          b r.remainder.id = (k % d : Int)) := by
    intro a ha b hagrees
    have hsame := hg.eval_eq hm hknows hagrees
    obtain ⟨hl, hu⟩ := hrange a ha
    rw [← hsame] at hl hu
    rw [List.forall_mem_cons, List.forall_mem_singleton, List.forall_mem_singleton, and_assoc,
      Division.row_exact_iff hd hq hr hl hu, hsame, heval]
  have hdetermines : ∀ a (k : Int), a.Respects x.vars → x.eval a = k → ∃ b, m.Determines n a b ∧
      b r.quotient.id = ⌊x.eval a / d⌋ ∧ b r.remainder.id = (k % d : Int) := by
    intro a k ha hk
    obtain ⟨b, hb, hnew⟩ := hg.exists_determines (a := a) [((k / d : Int) : F), ((k % d : Int) : F)]
      rfl fun b hagrees => by
        rw [hrow a ha b hagrees, hk]
        simp
    have hfloor : ⌊x.eval a / d⌋ = k / d := by
      rw [hk, Int.floor_div_cast_of_nonneg hd.le, Int.floor_intCast]
    refine ⟨b, hb, ?_⟩
    rw [hfloor]
    simpa using hnew
  refine ⟨hg.newVars_eq, fun a ha => ⟨?_, ?_⟩, hdetermines⟩
  · rintro ⟨b, hb⟩
    obtain ⟨hagrees, hnew⟩ := hg.completes_iff.1 hb
    obtain ⟨k, hk, -⟩ := (hrow a ha b hagrees).1 hnew
    exact ⟨k, hk⟩
  · rintro ⟨k, hk⟩
    obtain ⟨b, hb, -⟩ := hdetermines a k ha hk
    exact ⟨b, hb.completes⟩

omit [IsStrictOrderedRing F] in
/-- The bounds of the variables of a reachable model are in order. -/
theorem WellFormed.isProper_of_knows (hm : m.WellFormed) {v : Variable (Extended F)}
    (hv : m.Knows v) (h : v.id.owner ≠ m.id → v.interval.isProper = true) :
    v.interval.isProper = true := by
  by_cases howner : v.id.owner = m.id
  · obtain ⟨w, hw, hvw⟩ := hv howner
    exact ((hm.proper w hw).alike hvw.symm).interval
  · exact h howner

/-- **The quotient and the remainder of an operand.**  As long as no coefficient is dropped that is
not zero, the call succeeds for every dividend in range and every positive integer; its row can be
completed where the dividend is an integer and nowhere else, and then by its quotient and remainder
only.  The operand may mention variables of other models, if their bounds are in order as well. -/
theorem divide_divides {s : Scalar (Extended F)} (hm : m.Reachable)
    (hadmissible : (Call.divide x (.scalar s)).Admissible m)
    (hexact : (Call.divide x (.scalar s)).IsExact)
    (hdrops : (Call.divide x (.scalar s)).DropsNothing m) (hx : x.IsDividend)
    (hforeign : ∀ v ∈ x.vars, v.id.owner ≠ m.id → v.interval.isProper = true)
    (hs : ∀ b, s ≠ .truth b) (hd : 0 < d) (hsd : s.number = d) :
    ∃ r n, Build.exec (Build.perform (.divide x (.scalar s))) m =
      (.ok (.sequence .division [.var r.quotient, .var r.remainder]), n) ∧ m.Divides n x d r := by
  have hexactx := hexact.arg (x := x) (by simp [Call.arguments])
  have hexacts := hexact.arg (x := .scalar s) (by simp [Call.arguments])
  have hknows := (hadmissible x (by simp [Call.arguments])).wellFormed.knows
  suffices hkept : Build.Succeeds (Build.performKept (.divide x (.scalar s))) m fun answer n =>
      ∃ r : Division (Extended F),
        answer = .sequence .division [.var r.quotient, .var r.remainder] ∧ m.Divides n x d r by
    obtain ⟨_, n, hexec, r, rfl, hr⟩ := hdrops.succeeds hkept
    exact ⟨r, n, hexec, hr⟩
  have hm := hm.wellFormed.tolerance (u := .none)
  have hzero := Extended.Tolerance.isZero_none (F := F)
  have hx := hx.tolerance (u := .none)
  let _ : Extended.Tolerance F := .none
  obtain ⟨_, hi, hlo, hup⟩ := hx
  obtain ⟨e, he, rfl⟩ := Value.exists_toExpr hexactx hi
  obtain ⟨hfinite, hvars, heval⟩ := hexactx.toExpr he
  obtain ⟨u, hu⟩ := eq_finite_of_isFinite hup
  have hproper : ∀ v ∈ e.vars, v.interval.isProper = true := fun v hv =>
    hm.isProper_of_knows (hknows v (hvars v hv)) (hforeign v (hvars v hv))
  have hnonneg : 0 ≤ u := (LinearExpr.interval_contains_upper hproper hu).nonneg hlo
  have hquotient : (⟨zero, floor (e.interval.upper / ofInt d)⟩ :
      Interval (Extended F)).isProper = true := by
    have hdF : (0 : F) < d := Int.cast_pos.2 hd
    rw [hu, ofInt_eq, finite_div u hdF.ne', floor_finite, zero_eq, Interval.isProper_finite]
    exact Int.cast_nonneg_iff.2 (Int.floor_nonneg.2 (div_nonneg hnonneg hdF.le))
  have hdivisor := Build.toDivisor_eq_ok hexacts hs hd hsd
  refine (Build.perform_divide_succeeds hdivisor he hlo hup hquotient m).mono ?_
  rintro _ n ⟨r, rfl, hr, hg⟩
  obtain ⟨hq, hk⟩ := Division.bounds_finite hd hr hu
  refine ⟨r, rfl, (hg.divides hm (fun v hv => hknows v (hvars v hv)) hd heval (fun a ha => ?_) hq
    hk).tolerance⟩
  have hcontains := e.interval_contains (a := a) fun t ht =>
    ha t.1 (hvars t.1 (List.mem_map_of_mem ht))
  have hle := hcontains.upper
  rw [hu, le_finite, decide_eq_true_iff] at hle
  exact ⟨hcontains.nonneg hlo, hle⟩

/-! ## A dividend that need not be an integer -/

section Rational

local instance divisionTolerance : Extended.Tolerance ℚ := .standard

/-- Three times a variable between zero and ten, and one. -/
def tripled : LinearExpr (Extended ℚ) := ⟨[(boundedVariable, .finite 3)], .finite 1⟩

theorem divide_divides_tripled : ∃ r n,
    Build.exec (Build.perform (.divide (.expr tripled) (.int 2))) boundedModel =
      (.ok (.sequence .division [.var r.quotient, .var r.remainder]), n) ∧
    boundedModel.Divides n (.expr tripled) 2 r := by
  refine divide_divides boundedModel_reachable ?_ ?_ ?_
    ⟨_, rfl, by decide +kernel, by decide +kernel⟩
    (List.forall_mem_singleton.2 fun h => absurd rfl h) nofun (by decide) rfl
  · have hwell : (Value.expr tripled).WellFormed boundedModel :=
      ⟨List.nodup_singleton _, List.forall_mem_singleton.2 (knows_of_mem List.mem_cons_self)⟩
    exact List.forall_mem_cons.2 ⟨List.forall_mem_singleton.2 hwell,
      List.forall_mem_singleton.2 (List.forall_mem_singleton.2 trivial)⟩
  · have hoperand : (Value.expr tripled).IsExact :=
      ⟨⟨List.forall_mem_singleton.2 ⟨3, rfl⟩, 1, rfl⟩, List.forall_mem_singleton.2 (by decide)⟩
    exact List.forall_mem_cons.2 ⟨List.forall_mem_singleton.2 hoperand,
      List.forall_mem_singleton.2 (List.forall_mem_singleton.2 trivial)⟩
  · -- the divisor is turned into a number of the field before anything is computed with it
    have hdivide : ∀ [Extended.Tolerance ℚ],
        Build.perform (.divide (.expr tripled) (.scalar (.integer 2))) = (do
          let r ← Build.divide tripled 2
          return .sequence .division [.var r.quotient, .var r.remainder]) :=
      Build.perform_divide_eq (by cbv) rfl
    rw [Call.DropsNothing, Build.performKept, @hdivide .none, hdivide]
    simp only [Build.divide, Division.row, ofInt_eq, Int.cast_ofNat]
    cbv

end Rational

end Model

end MixedInteger
