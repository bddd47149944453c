import MixedInteger.Proofs.Linear.Kept
import MixedInteger.Proofs.Model.WellFormed

/-!
# Proper expressions

An expression has one term for each variable that occurs, and no term whose coefficient is too small
to be kept.  Whatever is made from such expressions is such an expression again.

## What is here

* `LinearExpr.IsOver` — one term for each variable, all variables of a kind, and only coefficients
  that are kept.
* `LinearExpr.IsProper` — such an expression over variables that a model can have.
* `LinearExpr.IsOver.combine`, `LinearExpr.IsOver.scale` and their kin — one lemma for each
  operation.
-/

set_option autoImplicit false

namespace MixedInteger

variable {K : Type} [Arithmetic K]

namespace LinearExpr

/-- No variable occurs twice, all of them are of a kind, and all coefficients are large enough to be
kept. -/
structure IsOver (P : Variable K → Prop) (e : LinearExpr K) : Prop where
  nodup : (e.terms.map fun t => t.1.id).Nodup
  vars : ∀ t ∈ e.terms, P t.1
  kept : e.IsKept

/-- No variable occurs twice, all of them have bounds that a variable can have, and all coefficients
are large enough to be kept. -/
abbrev IsProper (e : LinearExpr K) : Prop := e.IsOver Variable.IsProper

variable {P : Variable K → Prop} {e f : LinearExpr K}

theorem isOver_ofTerms {ts : Terms K} (hn : (ts.map fun t => t.1.id).Nodup)
    (hv : ∀ t ∈ ts, P t.1) (c : K) : (ofTerms ts c).IsOver P where
  nodup := hn.sublist (List.filter_sublist.map _)
  vars t ht := hv t (List.mem_of_mem_filter ht)
  kept := isKept_ofTerms ts c

theorem isOver_ofConstant (c : K) : (ofConstant c).IsOver P := by
  have hnodup : (([] : Terms K).map fun t => t.1.id).Nodup := List.nodup_nil
  exact isOver_ofTerms hnodup (fun _ h => absurd h List.not_mem_nil) c

theorem isOver_ofVariable {v : Variable K} (hv : P v) : (ofVariable v).IsOver P := by
  have hnodup : ([(v, (Arithmetic.one : K))].map fun t => t.1.id).Nodup := List.nodup_singleton _
  exact isOver_ofTerms hnodup (List.forall_mem_singleton.2 hv) _

/-- The terms of two expressions, before the ones that are too small are dropped. -/
theorem IsOver.nodup_combined (he : e.IsOver P) (sign : K) (f : LinearExpr K) :
    ((Terms.addAll e.terms (f.terms.map fun t => (t.1, sign * t.2))).map fun t => t.1.id).Nodup :=
  Terms.nodup_addAll he.nodup _

theorem IsOver.nodup_scaled (he : e.IsOver P) (s : K) :
    ((e.terms.map fun t => (t.1, t.2 * s)).map fun t => t.1.id).Nodup := by
  rw [List.map_map]
  exact he.nodup

theorem IsOver.combine (he : e.IsOver P) (sign : K) (hf : f.IsOver P) :
    (e.combine sign f).IsOver P :=
  isOver_ofTerms (he.nodup_combined sign f)
    (Terms.forall_addAll he.vars (List.forall_mem_map.2 hf.vars)) _

theorem IsOver.shift (he : e.IsOver P) (sign c : K) : (e.shift sign c).IsOver P :=
  isOver_ofTerms he.nodup he.vars _

theorem IsOver.scale (he : e.IsOver P) (s : K) : (e.scale s).IsOver P :=
  isOver_ofTerms (he.nodup_scaled s) (List.forall_mem_map.2 he.vars) _

theorem IsOver.negate (he : e.IsOver P) : e.negate.IsOver P := he.scale _

end LinearExpr

end MixedInteger
