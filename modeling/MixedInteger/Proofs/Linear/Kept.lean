import MixedInteger.Proofs.Fallible
import MixedInteger.Proofs.Number.Comparison
import MixedInteger.Proofs.Value.Settled
import MixedInteger.Reformulation.Reify
import MixedInteger.Value.Argument

/-!
# Coefficients that are kept

An expression drops the coefficients that are too small when it is made, and no operation brings
them back.

## What is here

* `LinearExpr.IsKept` — all coefficients are large enough to be kept.
* `LinearExpr.IsMade` — an expression that a caller can have, and that all operators answer.
* `LinearExpr.IsMade.isKept` — such an expression has only coefficients that are kept.
* `Value.IsMade` — a value that a caller can have.
-/

set_option autoImplicit false

namespace MixedInteger

variable {K : Type} [Arithmetic K]

open Arithmetic

namespace LinearExpr

/-- All coefficients are large enough to be kept. -/
def IsKept (e : LinearExpr K) : Prop := ∀ t ∈ e.terms, significant t.2 = true

theorem isKept_ofTerms (ts : Terms K) (c : K) : (ofTerms ts c).IsKept := fun _ ht =>
  (List.mem_filter.1 ht).2

/-- An expression that a caller can have: it comes from adding up terms, or from a table of
coefficients, and its names may look different since then. -/
inductive IsMade : LinearExpr K → Prop where
  /-- Terms have been added up. -/
  | ofTerms (ts : Terms K) (c : K) : IsMade (ofTerms ts c)
  /-- The coefficients have been read from a table. -/
  | read {coefficients constant : Value K} {e : LinearExpr K}
    (h : Value.makeExpr coefficients constant = .ok e) : IsMade e
  /-- The names look as they do now. -/
  | repaint {e : LinearExpr K} (h : IsMade e) (look : Look K) : IsMade (Value.repaintExpr look [] e)

end LinearExpr

namespace Value

/-- A scalar that is large enough to be kept still is as a number. -/
theorem significant_toNumber [KeepsIntegers K] {s : Scalar K} {x : K} (hs : s.significant = true)
    (hx : s.toNumber = .ok x) : significant x = true := by
  cases s with
  | truth b =>
    cases hx
    rw [Scalar.significant] at hs
    rw [hs]
    exact KeepsIntegers.significant_one
  | integer n =>
    rw [Scalar.toNumber, Scalar.ofInt?] at hx
    split at hx
    next hfinite =>
      cases hx
      exact KeepsIntegers.significant_ofInt hs hfinite
    next => cases hx
  | real y mark =>
    cases hx
    exact hs

/-- The coefficients that are read from a table are large enough to be kept. -/
theorem significant_of_keptCoefficients [KeepsIntegers K] {entries : List (Value K × Value K)}
    {kept : List (Value K × K)} (h : keptCoefficients entries = .ok kept) :
    ∀ t ∈ kept, significant t.2 = true := by
  induction entries generalizing kept with
  | nil =>
    cases h
    exact fun _ ht => absurd ht List.not_mem_nil
  | cons e entries ih =>
    rw [keptCoefficients, List.filterMapM_cons] at h
    obtain ⟨r, hr, h⟩ := bind_eq_ok.1 h
    cases r with
    | none => exact ih h
    | some t =>
      obtain ⟨rest, hrest, h⟩ := bind_eq_ok.1 h
      cases h
      refine List.forall_mem_cons.2 ⟨?_, ih hrest⟩
      obtain ⟨k, v⟩ := e
      cases v with
      | scalar s =>
        dsimp only at hr
        split at hr
        next hs =>
          obtain ⟨x, hx, hr⟩ := bind_eq_ok.1 hr
          cases hr
          exact significant_toNumber hs hx
        next => cases hr
      | _ => cases hr

/-- An expression that is put together from coefficients that are kept. -/
theorem isKept_of_keptCoefficients [KeepsIntegers K] {entries : List (Value K × Value K)}
    {constant : Value K} {e : LinearExpr K}
    (h : (do
      let kept ← keptCoefficients entries
      let c ← constant.toNumber
      return ⟨← kept.mapM variableTerm, c⟩ : Except Fault (LinearExpr K)) = .ok e) :
    e.IsKept := by
  obtain ⟨kept, hkept, h⟩ := bind_eq_ok.1 h
  obtain ⟨c, -, h⟩ := bind_eq_ok.1 h
  obtain ⟨ts, hts, h⟩ := bind_eq_ok.1 h
  cases h
  intro t ht
  obtain ⟨u, hu, htu⟩ := exists_of_forall₂ (forall₂_of_mapM_eq_ok hts) ht
  have hcoef : t.2 = u.2 := by
    rw [variableTerm] at htu
    split at htu
    · cases htu
      rfl
    · cases htu
  rw [hcoef]
  exact significant_of_keptCoefficients hkept u hu

theorem isKept_of_makeExpr [KeepsIntegers K] {coefficients constant : Value K} {e : LinearExpr K}
    (h : makeExpr coefficients constant = .ok e) : e.IsKept := by
  obtain ⟨b, -, h⟩ := bind_eq_ok.1 h
  dsimp only at h
  split at h
  · obtain ⟨entries, -, h⟩ := bind_eq_ok.1 h
    exact isKept_of_keptCoefficients h
  · obtain ⟨entries, -, h⟩ := bind_eq_ok.1 h
    exact isKept_of_keptCoefficients h
  · cases h

end Value

namespace LinearExpr

theorem isKept_repaintExpr {e : LinearExpr K} (h : e.IsKept) (look : Look K) :
    (Value.repaintExpr look [] e).IsKept := by
  rw [Value.repaintExpr_eq]
  exact List.forall_mem_map.2 h

/-- **An expression that a caller can have has only coefficients that are kept.** -/
theorem IsMade.isKept [KeepsIntegers K] {e : LinearExpr K} (h : e.IsMade) : e.IsKept := by
  induction h with
  | ofTerms ts c => exact isKept_ofTerms ts c
  | read h => exact Value.isKept_of_makeExpr h
  | repaint _ look ih => exact isKept_repaintExpr ih look

theorem isMade_ofVariable (v : Variable K) : (ofVariable v).IsMade := .ofTerms _ _

theorem isMade_ofConstant (c : K) : (ofConstant c).IsMade := .ofTerms [] c

end LinearExpr

/-! ## Operators -/

namespace Value

/-- A value that a caller can have: expressions are made, and so are those of constraints, whose
names have been handed over. -/
def IsMade : Value K → Prop
  | expr e => e.IsMade
  | constraint c _ => c.expr.IsMade ∧ c.name.isSettled = true
  | _ => True

theorem isMade_of_linear? {v : Value K} {e : LinearExpr K} (hv : v.IsMade)
    (h : v.linear? = some e) : e.IsMade := by
  cases v with
  | var w =>
    cases h
    exact .ofTerms _ _
  | expr f =>
    cases h
    exact hv
  | _ => cases h

theorem isMade_of_toExpr {v : Value K} {e : LinearExpr K} (hv : v.IsMade)
    (h : v.toExpr = .ok e) : e.IsMade := by
  cases v with
  | expr f =>
    cases h
    exact hv
  | var w =>
    cases h
    exact .ofTerms _ _
  | scalar s =>
    obtain ⟨c, -, ⟨⟩⟩ := bind_eq_ok.1 h
    exact .ofTerms [] c
  | _ => cases h

theorem isMade_of_map_expr {x : Except Fault (LinearExpr K)} {v : Value K}
    (hx : ∀ e, x = .ok e → e.IsMade) (h : x.map expr = .ok v) : v.IsMade := by
  rcases x with f | e
  · cases h
  · cases h
    exact hx e rfl

theorem isMade_of_combine {e f : LinearExpr K} {sign : K} {v : Value K}
    (h : combine e sign v = .ok f) : f.IsMade := by
  cases v with
  | scalar s =>
    obtain ⟨c, -, ⟨⟩⟩ := bind_eq_ok.1 h
    exact .ofTerms _ _
  | var w =>
    cases h
    exact .ofTerms _ _
  | expr g =>
    cases h
    exact .ofTerms _ _
  | _ => cases h

theorem isMade_of_product {e f : LinearExpr K} {v : Value K} (h : product e v = .ok f) :
    f.IsMade := by
  cases v with
  | scalar s =>
    obtain ⟨c, -, ⟨⟩⟩ := bind_eq_ok.1 h
    exact .ofTerms _ _
  | expr g =>
    rw [product] at h
    split at h
    · cases h
      exact .ofTerms _ _
    · split at h
      · cases h
        exact .ofTerms _ _
      · cases h
  | _ => cases h

theorem isMade_of_quotient {e f : LinearExpr K} {s : Scalar K} (h : quotient e s = .ok f) :
    f.IsMade := by
  obtain ⟨x, -, h⟩ := bind_eq_ok.1 h
  split at h
  · cases h
  · cases h
    exact .ofTerms _ _

/-- **What the operators answer is made.** -/
theorem isMade_of_add {a b v : Value K} (h : add a b = .ok v) : v.IsMade := by
  rw [add] at h
  split at h
  · exact isMade_of_map_expr (fun _ => isMade_of_combine) h
  · exact isMade_of_map_expr (fun _ => isMade_of_combine) h
  · cases h

theorem isMade_of_sub {a b v : Value K} (h : sub a b = .ok v) : v.IsMade := by
  rw [sub] at h
  split at h
  · exact isMade_of_map_expr (fun _ => isMade_of_combine) h
  · exact isMade_of_map_expr (fun _ => isMade_of_combine) h
  · cases h

theorem isMade_of_mul {a b v : Value K} (h : mul a b = .ok v) : v.IsMade := by
  rw [mul] at h
  split at h
  · exact isMade_of_map_expr (fun _ => isMade_of_product) h
  · exact isMade_of_map_expr (fun _ => isMade_of_product) h
  · cases h

theorem isMade_of_div {a b v : Value K} (h : div a b = .ok v) : v.IsMade := by
  rw [div.eq_def] at h
  split at h
  · exact isMade_of_map_expr (fun _ => isMade_of_quotient) h
  · exact isMade_of_map_expr (fun _ => isMade_of_quotient) h
  · cases h
  · cases h
  · cases h

theorem isMade_of_neg {a v : Value K} (h : neg a = .ok v) : v.IsMade := by
  rw [neg] at h
  split at h
  · cases h
    exact .ofTerms _ _
  · cases h

theorem isMade_of_sumOf {vs : List (Value K)} {e : LinearExpr K} (h : sumOf vs = .ok e) :
    e.IsMade := by
  obtain ⟨⟨ts, c⟩, -, ⟨⟩⟩ := bind_eq_ok.1 h
  exact .ofTerms ts c

theorem isMade_of_makeExprFromTerms {pairs constant : Value K} {e : LinearExpr K}
    (h : makeExprFromTerms pairs constant = .ok e) : e.IsMade := by
  obtain ⟨_, -, h⟩ := bind_eq_ok.1 h
  obtain ⟨_, -, h⟩ := bind_eq_ok.1 h
  obtain ⟨_, -, h⟩ := bind_eq_ok.1 h
  exact .read h

/-- A comparison keeps its left-hand side or subtracts from it. -/
theorem isMade_of_relateExpr {e : LinearExpr K} {r : Relation} {name v : Value K}
    {c : Constraint K} (he : e.IsMade) (h : relateExpr e r name v = .ok c) :
    c.expr.IsMade ∧ c.name = name := by
  cases v with
  | scalar s =>
    obtain ⟨x, -, ⟨⟩⟩ := bind_eq_ok.1 h
    exact ⟨he, rfl⟩
  | var w =>
    cases h
    exact ⟨.ofTerms _ _, rfl⟩
  | expr f =>
    cases h
    exact ⟨.ofTerms _ _, rfl⟩
  | _ => cases h

theorem isMade_of_compare? {r : Relation} {a b : Value K} {c : Constraint K} (ha : a.IsMade)
    (hb : b.IsMade) (h : compare? r a b = some (.ok c)) : (made c).IsMade := by
  have hc : c.expr.IsMade ∧ c.name = none := by
    rw [compare?] at h
    split at h
    · exact isMade_of_relateExpr (isMade_of_linear? ha ‹_›) (Option.some.inj h)
    · exact isMade_of_relateExpr (isMade_of_linear? hb ‹_›) (Option.some.inj h)
    · cases h
  exact ⟨hc.1, by rw [hc.2]; rfl⟩

theorem isMade_of_compare {r : Relation} {a b v : Value K} (ha : a.IsMade) (hb : b.IsMade)
    (h : compare r a b = .ok v) : v.IsMade := by
  unfold compare at h
  split at h
  · rename_i x hx
    rcases x with f | c
    · cases h
    · cases h
      exact isMade_of_compare? ha hb hx
  · rcases he : a.isEqual b with f | t <;> rw [he] at h <;> cases h
    trivial
  · cases h

theorem isMade_of_makeConstraint {lhs rhs rel name : Value K} {c : Constraint K}
    (hlhs : lhs.IsMade) (hname : name.isSettled = true)
    (h : makeConstraint lhs rhs rel name = .ok c) : (made c).IsMade := by
  obtain ⟨e, he, h⟩ := bind_eq_ok.1 h
  obtain ⟨d, hd, h⟩ := bind_eq_ok.1 h
  obtain ⟨_, -, ⟨⟩⟩ := bind_eq_ok.1 h
  obtain ⟨hexpr, hn⟩ := isMade_of_relateExpr (isMade_of_toExpr hlhs he) hd
  exact ⟨hexpr, hn ▸ hname⟩

end Value

end MixedInteger
