import MixedInteger.Proofs.Fallible
import MixedInteger.Value.Operator

/-!
# Evaluating under a table

A table gives some variables a number.  An expression is evaluated with the numbers of its own
variables, and with nothing else.

## What is here

* `Value.Gives` — a table gives a variable a number.
* `Value.evaluate_eq` — if each variable of an expression has a number, the expression has a value.
* `Value.evaluate_cases`, `Value.evaluate_eq_missing_iff` — if some variable has none, that is what
  the error says.
-/

set_option autoImplicit false

namespace MixedInteger

namespace Value

variable {K : Type} [Arithmetic K]

/-- A table gives a variable a number. -/
def Gives (values : Value K) (v : Variable K) (x : K) : Prop :=
  ∃ s, entryOf values v = .ok (scalar s) ∧ s.toNumber = .ok x

/-- A table has no value for a variable. -/
def Lacks (values : Value K) (v : Variable K) : Prop := entryOf values v = .error .missingKey

theorem Gives.not_lacks {values : Value K} {v : Variable K} {x : K} (h : values.Gives v x) :
    ¬values.Lacks v := by
  obtain ⟨s, hs, -⟩ := h
  intro hlacks
  cases hs.symm.trans hlacks

/-- A running total plus a coefficient times the value of a variable. -/
def addEntry (values total : Value K) (t : Variable K × K) : Except Fault (Value K) := do
  accumulate total (← weigh t.2 (← entryOf values t.1))

theorem addEntry_of_gives {values : Value K} {v : Variable K} {x : K} (h : values.Gives v x)
    (total c : K) : addEntry values (real total) (v, c) = .ok (real (total + c * x)) := by
  obtain ⟨s, hs, hx⟩ := h
  have hweigh : weigh c (scalar s) = .ok (real (c * x)) := by
    rw [weigh, hx]
    rfl
  refine bind_eq_ok.2 ⟨scalar s, hs, ?_⟩
  exact bind_eq_ok.2 ⟨real (c * x), hweigh, rfl⟩

/-- Terms whose variables have numbers are added to a running total. -/
theorem foldlM_of_gives {values : Value K} {a : Variable K → K} {ts : Terms K}
    (h : ∀ t ∈ ts, values.Gives t.1 (a t.1)) (total : K) :
    ts.foldlM (addEntry values) (real total) =
      .ok (real (ts.foldl (fun total t => total + t.2 * a t.1) total)) := by
  induction ts generalizing total with
  | nil => rfl
  | cons t ts ih =>
    obtain ⟨ht, hts⟩ := List.forall_mem_cons.1 h
    rw [List.foldlM_cons]
    exact bind_eq_ok.2 ⟨_, addEntry_of_gives ht total t.2, ih hts _⟩

/-- A variable without a value stops the evaluation. -/
theorem foldlM_of_lacks {values : Value K} {ts : Terms K}
    (h : ∀ t ∈ ts, values.Lacks t.1 ∨ ∃ x, values.Gives t.1 x) (hl : ∃ t ∈ ts, values.Lacks t.1)
    (total : K) : ts.foldlM (addEntry values) (real total) = .error .missingKey := by
  induction ts generalizing total with
  | nil =>
    obtain ⟨t, ht, -⟩ := hl
    exact absurd ht List.not_mem_nil
  | cons t ts ih =>
    obtain ⟨ht | ⟨x, hx⟩, hts⟩ := List.forall_mem_cons.1 h
    · rw [List.foldlM_cons, addEntry, ht]
      rfl
    · rw [List.foldlM_cons, addEntry_of_gives hx]
      refine ih hts ?_ _
      obtain ⟨u, hu, hlacks⟩ := hl
      rcases List.mem_cons.1 hu with rfl | hu
      · exact absurd hlacks hx.not_lacks
      · exact ⟨u, hu, hlacks⟩

variable {e : LinearExpr K} {values : Value K}

/-- **An expression whose variables have numbers has a value.** -/
theorem evaluate_eq {a : Variable K → K} (h : ∀ v ∈ e.vars, values.Gives v (a v)) :
    evaluate e values = .ok (real (e.value a)) :=
  foldlM_of_gives (fun _ ht => h _ (List.mem_map_of_mem ht)) e.constant

/-- **An expression has a missing value or a value**, where each variable has a number or no
value. -/
theorem evaluate_cases (h : ∀ v ∈ e.vars, values.Lacks v ∨ ∃ x, values.Gives v x) :
    evaluate e values = .error .missingKey ∧ (∃ v ∈ e.vars, values.Lacks v) ∨
      ∃ a, (∀ v ∈ e.vars, values.Gives v (a v)) ∧
        evaluate e values = .ok (real (e.value a)) := by
  by_cases hlacks : ∃ v ∈ e.vars, values.Lacks v
  · refine .inl ⟨?_, hlacks⟩
    obtain ⟨v, hv, hlacks⟩ := hlacks
    obtain ⟨t, ht, rfl⟩ := List.mem_map.1 hv
    exact foldlM_of_lacks (fun u hu => h _ (List.mem_map_of_mem hu)) ⟨t, ht, hlacks⟩ e.constant
  · push Not at hlacks
    have hgives : ∀ v, ∃ x, v ∈ e.vars → values.Gives v x := by
      intro v
      by_cases hv : v ∈ e.vars
      · obtain ⟨x, hx⟩ := (h v hv).resolve_left (hlacks v hv)
        exact ⟨x, fun _ => hx⟩
      · exact ⟨Arithmetic.zero, fun h' => absurd h' hv⟩
    choose a ha using hgives
    exact .inr ⟨a, ha, evaluate_eq ha⟩

/-- **The error names a missing value exactly if a variable has none**, where each variable has a
number or no value. -/
theorem evaluate_eq_missing_iff (h : ∀ v ∈ e.vars, values.Lacks v ∨ ∃ x, values.Gives v x) :
    evaluate e values = .error .missingKey ↔ ∃ v ∈ e.vars, values.Lacks v := by
  rcases evaluate_cases h with ⟨herror, hlacks⟩ | ⟨a, hgives, hvalue⟩
  · exact iff_of_true herror hlacks
  · refine iff_of_false (fun herror => ?_) fun ⟨v, hv, hlacks⟩ => (hgives v hv).not_lacks hlacks
    cases herror.symm.trans hvalue

end Value

end MixedInteger
