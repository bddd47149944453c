import MixedInteger.Proofs.Value.Comparison

/-!
# Sums of nested operands

A sum of values, which may stand in lists within lists, collects the coefficients of each variable
in one table and drops the ones that are too small at the end.  An addition drops them at each step,
and a variable that has been dropped may come back later.  As long as no sum on the way leaves a
coefficient that is small but not zero, both ways lead to the same coefficients.

## What is here

* `Value.leaves`, `Value.allLeaves` — what stands in a value, lists within lists flattened.
* `Value.addAllInto_eq_foldlM` — a nested sum takes in one leaf after the other.
* `Terms.Merged`, `Value.Tracks` — a table of coefficients, and an expression that has the same ones,
  with `Value.Tracks.step` for one leaf and `Value.Tracks.run` for a list of leaves.
* `Value.sumOf_eq_ok_iff`, `Value.sumOf_fails_iff` — which values have a sum.
* `Value.sumOf_spec` — **a nested sum is the sum of its leaves, one by one**.
-/

set_option autoImplicit false

namespace MixedInteger

open Arithmetic Extended

/-! ## Leaves -/

namespace Value

section Leaves

variable {K : Type}

mutual

/-- What stands in a value: lists are opened, and of a table its keys are taken.  A matrix cannot be
opened, since its rows are matrices again. -/
def leaves : Value K → List (Value K)
  | sequence .matrix (row :: rows) => [sequence .matrix (row :: rows)]
  | sequence _ items => allLeaves items
  | table entries _ => keyLeaves entries
  | v => [v]

/-- What stands in several values. -/
def allLeaves : List (Value K) → List (Value K)
  | [] => []
  | v :: vs => v.leaves ++ allLeaves vs

/-- What stands in the keys of a table. -/
def keyLeaves : List (Value K × Value K) → List (Value K)
  | [] => []
  | (k, _) :: rest => k.leaves ++ keyLeaves rest

end

/-- What can be summed up: numbers, variables and expressions. -/
def IsTerm : Value K → Prop
  | scalar _ | var _ | expr _ => True
  | _ => False

variable [Arithmetic K]

mutual

theorem addInto_eq_foldlM (acc : Terms K × K) :
    ∀ v : Value K, addInto acc v = v.leaves.foldlM addInto acc
  | sequence shape items => by
    have hitems := addAllInto_eq_foldlM acc items
    cases shape with
    | matrix =>
      cases items with
      | nil => simpa only [addInto, leaves] using hitems
      | cons row rows => simp only [leaves, List.foldlM_cons, List.foldlM_nil, bind_pure]
    | _ => simpa only [addInto, leaves] using hitems
  | table entries id => by
    simpa only [addInto, leaves] using addKeysInto_eq_foldlM acc entries
  | none | scalar _ | text _ | domain _ | direction _ | relation _ | var _ | expr _
  | constraint _ _ | handle _ _ => by
    simp only [leaves, List.foldlM_cons, List.foldlM_nil, bind_pure]

/-- A nested sum takes in one leaf after the other. -/
theorem addAllInto_eq_foldlM (acc : Terms K × K) :
    ∀ vs : List (Value K), addAllInto acc vs = (allLeaves vs).foldlM addInto acc
  | [] => rfl
  | v :: vs => by
    rw [addAllInto, addInto_eq_foldlM acc v, allLeaves, List.foldlM_append]
    exact bind_congr fun next => addAllInto_eq_foldlM next vs

theorem addKeysInto_eq_foldlM (acc : Terms K × K) :
    ∀ es : List (Value K × Value K), addKeysInto acc es = (keyLeaves es).foldlM addInto acc
  | [] => rfl
  | (k, _) :: rest => by
    rw [addKeysInto, addInto_eq_foldlM acc k, keyLeaves, List.foldlM_append]
    exact bind_congr fun next => addKeysInto_eq_foldlM next rest

end

mutual

/-- A leaf is a term, or it cannot be opened, or it cannot be summed up. -/
theorem leaf_cases : ∀ (v : Value K) {l : Value K}, l ∈ v.leaves →
    l.IsTerm ∨ (∃ rows, l = sequence .matrix rows) ∨
      ∀ acc, addInto acc l = .error (.notSummable l.kindName)
  | sequence shape items, l, hl => by
    cases shape with
    | matrix =>
      cases items with
      | nil => cases hl
      | cons row rows => exact .inr (.inl ⟨_, List.mem_singleton.1 hl⟩)
    | _ => exact leaf_cases_all items hl
  | table entries _, l, hl => leaf_cases_keys entries hl
  | scalar _, l, hl | var _, l, hl | expr _, l, hl => by
    rw [List.mem_singleton.1 hl]
    exact .inl trivial
  | none, l, hl | text _, l, hl | domain _, l, hl | direction _, l, hl | relation _, l, hl
  | constraint _ _, l, hl | handle _ _, l, hl => by
    rw [List.mem_singleton.1 hl]
    exact .inr (.inr fun acc => rfl)

theorem leaf_cases_all : ∀ (vs : List (Value K)) {l : Value K}, l ∈ allLeaves vs →
    l.IsTerm ∨ (∃ rows, l = sequence .matrix rows) ∨
      ∀ acc, addInto acc l = .error (.notSummable l.kindName)
  | [], _, hl => absurd hl List.not_mem_nil
  | v :: vs, _, hl => (List.mem_append.1 hl).elim (leaf_cases v) (leaf_cases_all vs)

theorem leaf_cases_keys : ∀ (es : List (Value K × Value K)) {l : Value K}, l ∈ keyLeaves es →
    l.IsTerm ∨ (∃ rows, l = sequence .matrix rows) ∨
      ∀ acc, addInto acc l = .error (.notSummable l.kindName)
  | [], _, hl => absurd hl List.not_mem_nil
  | (k, _) :: rest, _, hl => (List.mem_append.1 hl).elim (leaf_cases k) (leaf_cases_keys rest)

end

end Leaves

end Value

/-! ## Slopes of sums -/

namespace Value

variable {F : Type} [Field F]

/-- How much the sum of several values changes with a variable. -/
def coefficientOf (ls : List (Value (Extended F))) (i : VariableId) : F :=
  slope (fun a => (ls.map fun l => l.eval a).sum) i

theorem coefficientOf_nil (i : VariableId) : coefficientOf (F := F) [] i = 0 := sub_self 0

theorem coefficientOf_cons (l : Value (Extended F)) (ls : List (Value (Extended F)))
    (i : VariableId) : coefficientOf (l :: ls) i = coefficientOf [l] i + coefficientOf ls i := by
  simp only [coefficientOf, slope, List.map_cons, List.sum_cons, List.map_nil, List.sum_nil]
  ring

theorem coefficientOf_of_linear {g : LinearExpr (Extended F)} {l : Value (Extended F)}
    (h : ∀ a, g.eval a = l.eval a) (i : VariableId) :
    coefficientOf [l] i = Terms.sum (Pi.single i 1) g.terms := by
  rw [← slope_add_sum g.constant.number]
  simp only [coefficientOf, List.map_cons, List.map_nil, List.sum_cons, List.sum_nil, add_zero, ← h]
  rfl

end Value

variable {F : Type} [Field F] [LinearOrder F] [FloorRing F] [ToString F] [Extended.Tolerance F]

/-! ## What can be summed up -/

namespace Value

theorem addInto_of_isTerm {l : Value (Extended F)} (h : l.IsTerm)
    (acc : Terms (Extended F) × Extended F) : ∃ next, addInto acc l = .ok next := by
  cases l with
  | scalar s =>
    rw [addInto, toNumber_eq_amount s 0]
    exact ⟨_, rfl⟩
  | var v => exact ⟨_, rfl⟩
  | expr e => exact ⟨_, rfl⟩
  | _ => exact h.elim

/-- Leaves are added up, unless one of them is no term, which the fault then names. -/
theorem foldlM_addInto_cases {ls : List (Value (Extended F))}
    (h : ∀ l ∈ ls, l.IsTerm ∨ ∀ acc, addInto acc l = .error (.notSummable l.kindName))
    (acc : Terms (Extended F) × Extended F) :
    ((∀ l ∈ ls, l.IsTerm) ∧ ∃ last, ls.foldlM addInto acc = .ok last) ∨
      ∃ l ∈ ls, ¬l.IsTerm ∧ ls.foldlM addInto acc = .error (.notSummable l.kindName) := by
  induction ls generalizing acc with
  | nil => exact .inl ⟨fun _ hl => absurd hl List.not_mem_nil, acc, rfl⟩
  | cons l ls ih =>
    obtain ⟨hl, hls⟩ := List.forall_mem_cons.1 h
    rw [List.foldlM_cons]
    by_cases hterm : l.IsTerm
    · obtain ⟨next, hnext⟩ := addInto_of_isTerm hterm acc
      rw [hnext]
      obtain ⟨hall, hlast⟩ | ⟨k, hk, hkterm, hfails⟩ := ih hls next
      · exact .inl ⟨List.forall_mem_cons.2 ⟨hterm, hall⟩, hlast⟩
      · exact .inr ⟨k, List.mem_cons_of_mem l hk, hkterm, hfails⟩
    · rw [hl.resolve_left hterm acc]
      exact .inr ⟨l, List.mem_cons_self, hterm, rfl⟩

theorem sumOf_eq {K : Type} [Arithmetic K] (vs : List (Value K)) :
    sumOf vs = (fun acc => .ofTerms acc.1 acc.2) <$> (allLeaves vs).foldlM addInto ([], zero) := by
  rw [sumOf, addAllInto_eq_foldlM]
  rfl

/-- A nested sum exists, unless a leaf is no term, which the fault then names. -/
theorem sumOf_cases {vs : List (Value (Extended F))}
    (h : ∀ rows, sequence .matrix rows ∉ allLeaves vs) :
    ((∀ l ∈ allLeaves vs, l.IsTerm) ∧ ∃ e, sumOf vs = .ok e) ∨
      ∃ l ∈ allLeaves vs, ¬l.IsTerm ∧ sumOf vs = .error (.notSummable l.kindName) := by
  have hleaf : ∀ l ∈ allLeaves vs, l.IsTerm ∨
      ∀ acc : Terms (Extended F) × Extended F,
        addInto acc l = .error (.notSummable l.kindName) := by
    intro l hl
    obtain hterm | ⟨rows, rfl⟩ | hfails := leaf_cases_all vs hl
    · exact .inl hterm
    · exact absurd hl (h rows)
    · exact .inr hfails
  rw [sumOf_eq]
  obtain ⟨hall, last, hlast⟩ | ⟨l, hl, hterm, hfails⟩ := foldlM_addInto_cases hleaf ([], zero)
  · exact .inl ⟨hall, _, by rw [hlast]; rfl⟩
  · exact .inr ⟨l, hl, hterm, by rw [hfails]; rfl⟩

end Value

/-! ## Tables of coefficients -/

namespace Terms

/-- A table of coefficients: each variable has one, which is a finite number. -/
structure IsMerged {F : Type} (ts : Terms (Extended F)) : Prop where
  finite : ts.IsFinite
  nodup : (ts.map fun t => t.1.id).Nodup

theorem isMerged_nil {F : Type} : IsMerged (F := F) [] := ⟨isFinite_nil, List.nodup_nil⟩

theorem IsMerged.filter {F : Type} {ts : Terms (Extended F)} (h : ts.IsMerged)
    (p : Variable (Extended F) × Extended F → Bool) : IsMerged (ts.filter p) :=
  ⟨fun t ht => h.finite t (List.mem_of_mem_filter ht), h.nodup.sublist (List.filter_sublist.map _)⟩

variable {ts us : Terms (Extended F)}

theorem IsMerged.addAll (h : ts.IsMerged) (hu : us.IsFinite) : (ts.addAll us).IsMerged :=
  ⟨isFinite_addAll h.finite hu, nodup_addAll h.nodup us⟩

/-- Nothing is dropped if all coefficients are zero or large enough. -/
theorem IsMerged.sum_filter (h : ts.IsMerged) (hr : ∀ i, Retained (sum (Pi.single i 1) ts))
    (a : Assignment F) : sum a (ts.filter fun t => significant t.2) = sum a ts := by
  have heval := LinearExpr.eval_ofTerms_of_slope h.finite h.nodup 0
    (fun i => (slope_add_sum 0 ts i).symm ▸ hr i) a
  rwa [LinearExpr.eval, LinearExpr.ofTerms, number_finite, zero_add, zero_add] at heval

end Terms

namespace LinearExpr

/-- The coefficient of a variable is what the terms come to with a one for this variable. -/
theorem coefficient_eq_sum {e : LinearExpr (Extended F)} (h : Terms.IsMerged e.terms)
    (v : Variable (Extended F)) :
    e.coefficient v = .finite (Terms.sum (Pi.single v.id 1) e.terms) := by
  rw [coefficient, Terms.get?]
  cases hfind : e.terms.find? fun t => t.1.id = v.id with
  | none =>
    have hne : ∀ t ∈ e.terms, t.1.id ≠ v.id := fun t ht hid =>
      List.find?_eq_none.1 hfind t ht (decide_eq_true hid)
    rw [Terms.sum_single_of_forall_ne hne]
    rfl
  | some t =>
    have hmem := List.mem_of_find?_eq_some hfind
    have hid : t.1.id = v.id := by simpa using List.find?_some hfind
    obtain ⟨c, hc⟩ := h.finite t hmem
    rw [← hid, Terms.sum_single h.nodup hmem, hc, number_finite]
    exact hc

variable [IsStrictOrderedRing F]

theorem combine_one (e f : LinearExpr (Extended F)) :
    e.combine one f = ofTerms (Terms.addAll e.terms f.terms) (e.constant + f.constant) := by
  simp only [combine, one_eq, finite_one_mul, Prod.mk.eta, List.map_id']

theorem shift_one {e : LinearExpr (Extended F)} (h : e.IsKept) (x : Extended F) :
    e.shift one x = ⟨e.terms, e.constant + x⟩ := by
  have hfilter : (e.terms.filter fun t => significant t.2) = e.terms := List.filter_eq_self.2 h
  rw [shift, ofTerms, hfilter, one_eq, finite_one_mul]

end LinearExpr

/-! ## Both ways to add up -/

namespace Value

variable {acc : Terms (Extended F) × Extended F} {e g : LinearExpr (Extended F)}
  {l : Value (Extended F)} {ls : List (Value (Extended F))}

/-- An expression has the coefficients and the constant of a table, where the coefficients of the
table may be zero. -/
structure Tracks (acc : Terms (Extended F) × Extended F) (e : LinearExpr (Extended F)) : Prop where
  table : acc.1.IsMerged
  terms : Terms.IsMerged e.terms
  kept : e.IsKept
  sum_eq : ∀ a, Terms.sum a e.terms = Terms.sum a acc.1
  constant_eq : e.constant = acc.2

theorem tracks_zero : Tracks (F := F) ([], zero) (.ofConstant zero) where
  table := Terms.isMerged_nil
  terms := Terms.isMerged_nil
  kept _ ht := absurd ht List.not_mem_nil
  sum_eq _ := rfl
  constant_eq := rfl

/-- What tracks a table still does so when the zeros of the table are dropped. -/
theorem Tracks.coefficient_eq (h : Tracks acc e)
    (hr : ∀ i, Retained (Terms.sum (Pi.single i 1) acc.1)) (v : Variable (Extended F)) :
    (LinearExpr.ofTerms acc.1 acc.2).coefficient v = e.coefficient v := by
  rw [LinearExpr.coefficient_eq_sum h.terms, h.sum_eq, ← h.table.sum_filter hr]
  exact LinearExpr.coefficient_eq_sum (h.table.filter _) v

variable [IsStrictOrderedRing F]

theorem addInto_of_linear (ht : (Tolerance.tolerance : F) < 1) (h : l.linear? = some g) :
    addInto acc l = .ok (acc.1.addAll g.terms, acc.2 + g.constant) := by
  obtain ⟨v, rfl, rfl⟩ | rfl := linear_cases h
  · have hzero : acc.2 + finite 0 = acc.2 := add_zero acc.2
    rw [LinearExpr.ofVariable_eq ht, hzero]
    rfl
  · rfl

/-- A number changes the constant on both sides. -/
theorem Tracks.number (h : Tracks acc e) (s : Scalar (Extended F)) :
    ∃ next f, addInto acc (scalar s) = .ok next ∧ add (expr e) (scalar s) = .ok (expr f) ∧
      Tracks next f ∧ next.1 = acc.1 := by
  set x := (scalar s : Value (Extended F)).amount 0
  have hx : s.toNumber = .ok x := toNumber_eq_amount s 0
  refine ⟨(acc.1, acc.2 + x), ⟨e.terms, e.constant + x⟩, ?_, ?_, ?_, rfl⟩
  · rw [addInto, hx]
    rfl
  · rw [← LinearExpr.shift_one h.kept x]
    simp only [add, linear?, combine, hx]
    rfl
  · exact ⟨h.table, h.terms, h.kept, h.sum_eq, congrArg (· + x) h.constant_eq⟩

/-- A variable or an expression changes the coefficients on both sides.  The addition drops some of
them at once, which may be in the table still. -/
theorem Tracks.linear (ht : (Tolerance.tolerance : F) < 1) (h : Tracks acc e)
    (hl : l.linear? = some g) (hg : g.IsFinite)
    (hr : ∀ i, Retained (Terms.sum (Pi.single i 1) acc.1 + Terms.sum (Pi.single i 1) g.terms)) :
    ∃ next f, addInto acc l = .ok next ∧ add (expr e) l = .ok (expr f) ∧ Tracks next f ∧
      ∀ a, Terms.sum a next.1 = Terms.sum a acc.1 + Terms.sum a g.terms := by
  have hsum : ∀ a, Terms.sum a (Terms.addAll e.terms g.terms) =
      Terms.sum a acc.1 + Terms.sum a g.terms := fun a => by
    rw [Terms.sum_addAll a h.terms.finite hg.terms, h.sum_eq]
  have hnext := fun a => Terms.sum_addAll a h.table.finite hg.terms
  have hmerged := h.terms.addAll hg.terms
  refine ⟨_, e.combine one g, addInto_of_linear ht hl, ?_, ?_, hnext⟩
  · obtain ⟨v, rfl, rfl⟩ | rfl := linear_cases hl <;> rfl
  · rw [LinearExpr.combine_one]
    exact
      { table := h.table.addAll hg.terms
        terms := hmerged.filter _
        kept := LinearExpr.isKept_ofTerms _ _
        sum_eq := fun a => by
          rw [hnext, ← hsum]
          exact hmerged.sum_filter (fun i => hsum (Pi.single i 1) ▸ hr i) a
        constant_eq := congrArg (· + g.constant) h.constant_eq }

/-- **One leaf.**  The table and the expression take it in and stay together. -/
theorem Tracks.step (ht : (Tolerance.tolerance : F) < 1) (h : Tracks acc e) (hl : l.IsOperand)
    (hr : ∀ i, Retained (Terms.sum (Pi.single i 1) acc.1 + coefficientOf [l] i)) :
    ∃ next f, addInto acc l = .ok next ∧ add (expr e) l = .ok (expr f) ∧ Tracks next f ∧
      ∀ i, Terms.sum (Pi.single i 1) next.1 =
        Terms.sum (Pi.single i 1) acc.1 + coefficientOf [l] i := by
  have hlinear : ∀ g, l.linear? = some g → ∃ next f, addInto acc l = .ok next ∧
      add (expr e) l = .ok (expr f) ∧ Tracks next f ∧ ∀ i, Terms.sum (Pi.single i 1) next.1 =
        Terms.sum (Pi.single i 1) acc.1 + coefficientOf [l] i := by
    intro g hg
    obtain ⟨hfinite, -, heval⟩ := hl.linear ht hg
    simp only [coefficientOf_of_linear heval] at hr ⊢
    obtain ⟨next, f, hnext, hf, htracks, hsum⟩ := h.linear ht hg hfinite hr
    exact ⟨next, f, hnext, hf, htracks, fun i => hsum _⟩
  cases l with
  | scalar s =>
    obtain ⟨next, f, hnext, hf, htracks, hterms⟩ := h.number s
    have hzero : ∀ i, coefficientOf [scalar s] i = 0 := fun i => sub_self _
    exact ⟨next, f, hnext, hf, htracks, fun i => by rw [hterms, hzero, add_zero]⟩
  | var v => exact hlinear _ rfl
  | expr g => exact hlinear _ rfl
  | _ => exact hl.elim

/-- **A list of leaves.**  The table and the expression stay together to the end, provided that
nothing is dropped on the way that is not zero. -/
theorem Tracks.run (ht : (Tolerance.tolerance : F) < 1) (h : Tracks acc e)
    (hls : ∀ l ∈ ls, l.IsOperand)
    (hr : ∀ p, p <+: ls → ∀ i, Retained (Terms.sum (Pi.single i 1) acc.1 + coefficientOf p i)) :
    ∃ last f, ls.foldlM addInto acc = .ok last ∧ ls.foldlM add (expr e) = .ok (expr f) ∧
      Tracks last f ∧ ∀ i, Terms.sum (Pi.single i 1) last.1 =
        Terms.sum (Pi.single i 1) acc.1 + coefficientOf ls i := by
  -- The prefixes of what remains are prefixes of the whole list once the first leaf is put back.
  induction ls generalizing acc e with
  | nil =>
    refine ⟨acc, e, rfl, rfl, h, fun i => ?_⟩
    rw [coefficientOf_nil, add_zero]
  | cons l ls ih =>
    obtain ⟨hl, hls⟩ := List.forall_mem_cons.1 hls
    have hfirst := hr [l] (List.cons_prefix_cons.2 ⟨rfl, List.nil_prefix⟩)
    obtain ⟨next, f, hnext, hf, htracks, hsum⟩ := h.step ht hl hfirst
    have hrest : ∀ p, p <+: ls → ∀ i,
        Retained (Terms.sum (Pi.single i 1) next.1 + coefficientOf p i) := by
      intro p hp i
      rw [hsum, add_assoc, ← coefficientOf_cons]
      exact hr (l :: p) (List.cons_prefix_cons.2 ⟨rfl, hp⟩) i
    obtain ⟨last, k, hlast, hk, htracked, htotal⟩ := ih htracks hls hrest
    refine ⟨last, k, ?_, ?_, htracked, fun i => ?_⟩
    · rw [List.foldlM_cons, hnext]
      exact hlast
    · rw [List.foldlM_cons, hf]
      exact hk
    · rw [htotal, hsum, add_assoc, ← coefficientOf_cons]

/-- **A nested sum is the sum of its leaves.**  It fails for the kind of a leaf exactly if a leaf is
no number, variable or expression, and exists otherwise.  It has the coefficients and the constant
that come out when its leaves are added one by one, starting from zero, provided that no sum on the
way leaves a coefficient that is small but not zero. -/
theorem sumOf_spec (ht : (Tolerance.tolerance : F) < 1) (vs : List (Value (Extended F))) :
    ((∀ rows, sequence .matrix rows ∉ allLeaves vs) →
      ((∃ f, sumOf vs = .error f ∧ f.kind = .type) ↔ ∃ l ∈ allLeaves vs, ¬l.IsTerm) ∧
      ((∃ e, sumOf vs = .ok e) ↔ ∀ l ∈ allLeaves vs, l.IsTerm)) ∧
    ((∀ l ∈ allLeaves vs, l.IsOperand) →
      (∀ p, p <+: allLeaves vs → ∀ i, Retained (coefficientOf p i)) →
      ∃ e f, sumOf vs = .ok e ∧
        (allLeaves vs).foldlM add (expr (.ofConstant zero)) = .ok (expr f) ∧
        e.constant = f.constant ∧ ∀ v, e.coefficient v = f.coefficient v) := by
  constructor
  · intro hmatrix
    obtain ⟨hall, e, he⟩ | ⟨l, hl, hterm, hfails⟩ := sumOf_cases hmatrix
    · refine ⟨⟨?_, ?_⟩, fun _ => hall, fun _ => ⟨e, he⟩⟩
      · rintro ⟨f, hf, -⟩
        cases he.symm.trans hf
      · rintro ⟨l, hl, hterm⟩
        exact absurd (hall l hl) hterm
    · refine ⟨⟨fun _ => ⟨l, hl, hterm⟩, fun _ => ⟨_, hfails, rfl⟩⟩, ?_, ?_⟩
      · rintro ⟨e, he⟩
        cases he.symm.trans hfails
      · intro hall
        exact absurd (hall l hl) hterm
  · intro hoperands hr
    have hstart : ∀ p, p <+: allLeaves vs → ∀ i,
        Retained (Terms.sum (Pi.single i 1) ([] : Terms (Extended F)) + coefficientOf p i) := by
      intro p hp i
      rw [Terms.sum_nil, zero_add]
      exact hr p hp i
    obtain ⟨last, f, hlast, hf, htracks, hsum⟩ := tracks_zero.run ht hoperands hstart
    refine ⟨.ofTerms last.1 last.2, f, ?_, hf, htracks.constant_eq.symm,
      htracks.coefficient_eq fun i => ?_⟩
    · rw [sumOf_eq, hlast]
      rfl
    · rw [hsum]
      exact hstart _ List.prefix_rfl i

section Rational

local instance summationTolerance : Extended.Tolerance ℚ := .standard

/-- The workers with their sign changed. -/
def absentees : LinearExpr (Extended ℚ) := ⟨[(workers, .finite (-1))], .finite 0⟩

/-- A list within a list, in which the workers cancel and come back. -/
def roster : List (Value (Extended ℚ)) :=
  [var workers, sequence .tuple [var hours, sequence .tuple [expr absentees, var workers]], int 2]

theorem isOperand_absentees : (expr absentees).IsOperand :=
  ⟨⟨List.forall_mem_singleton.2 ⟨-1, rfl⟩, 0, rfl⟩, by decide, fun _ _ => trivial,
    List.forall_mem_singleton.2 (by decide +kernel)⟩

/-- The sum of the roster is the sum of its five leaves, and a text in a list has no sum. -/
theorem sumOf_spec_cancelled :
    (∃ e f, sumOf roster = .ok e ∧
      [var workers, var hours, expr absentees, var workers, int 2].foldlM add
        (expr (.ofConstant zero)) = .ok (expr f) ∧
      e.constant = f.constant ∧ ∀ v, e.coefficient v = f.coefficient v) ∧
    ∃ f, sumOf [var workers, sequence .tuple [.text "idle" (K := Extended ℚ)]] = .error f ∧
      f.kind = .type := by
  have htolerance : (Tolerance.tolerance : ℚ) = 1 / 10 ^ 15 := rfl
  have hvar : ∀ (v : Variable (Extended ℚ)) a, (var v).eval a = a v.id := fun v a => rfl
  have htwo : ∀ a, (int 2 : Value (Extended ℚ)).eval a = 2 := fun a => rfl
  have habsentees : ∀ a, (expr absentees).eval a = -a workers.id := by
    intro a
    simp [Value.eval, LinearExpr.eval, absentees]
  constructor
  · refine (sumOf_spec standard_lt_one roster).2 ?_ fun p hp i => ?_
    · rintro l hl
      fin_cases hl
      · trivial
      · trivial
      · exact isOperand_absentees
      · trivial
      · trivial
    · have hmem := (List.mem_inits p _).2 hp
      fin_cases hmem <;>
        by_cases hx : workers.id = i <;> by_cases hy : hours.id = i <;>
        norm_num [coefficientOf, slope, Retained, htolerance, hvar, habsentees, htwo,
          Pi.single_apply, hx, hy]
  · refine ((sumOf_spec standard_lt_one _).1 fun rows hrows => ?_).1.2
      ⟨.text "idle", List.mem_cons_of_mem _ List.mem_cons_self, id⟩
    have hpair : sequence .matrix rows ∈ [var workers, .text "idle"] := hrows
    simp at hpair

end Rational

end Value

end MixedInteger
