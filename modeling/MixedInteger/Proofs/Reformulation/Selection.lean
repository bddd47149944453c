import MixedInteger.Proofs.Reformulation.Operands

/-!
# The greatest and the least of several operands

A variable is the greatest or the least of several operands if it is at least as good as all of them
and a selector says which one it equals.  Its bounds are the hull of those of the operands, and the
constants of the rows that are not selected leave room for it.

## What is here

* `Extremum.hull_finite`, `Extremum.hull_contains` — the hull of bounds.
* `Direction.rows`, `Direction.slack` — maximum and minimum as one family.
* `Direction.selection_sound`, `Direction.selection_holds` — what selectors say, and how to choose them.
* `Direction.Parts.isBest`, `Direction.Parts.exists_completes` — a variable that is the best one of
  several operands.
-/

set_option autoImplicit false

namespace MixedInteger

open Arithmetic

variable {F : Type} [Field F] [LinearOrder F] [FloorRing F] [ToString F] [Extended.Tolerance F]
  [IsStrictOrderedRing F]

/-! ## Hulls -/

namespace Extremum

omit [IsStrictOrderedRing F] in
theorem smallest_finite (x : F) (xs : List F) : ∃ y,
    smallest (.finite x) (xs.map Extended.finite) = .finite y ∧ y ≤ x ∧ ∀ z ∈ xs, y ≤ z := by
  induction xs generalizing x with
  | nil => exact ⟨x, rfl, le_rfl, fun _ h => absurd h List.not_mem_nil⟩
  | cons z xs ih =>
    obtain ⟨y, hy, hle, hall⟩ := ih (min x z)
    refine ⟨y, ?_, hle.trans (min_le_left x z),
      List.forall_mem_cons.2 ⟨hle.trans (min_le_right x z), hall⟩⟩
    rw [← hy, ← Extended.smaller_finite]
    rfl

omit [IsStrictOrderedRing F] in
theorem largest_finite (x : F) (xs : List F) : ∃ y,
    largest (.finite x) (xs.map Extended.finite) = .finite y ∧ x ≤ y ∧ ∀ z ∈ xs, z ≤ y := by
  induction xs generalizing x with
  | nil => exact ⟨x, rfl, le_rfl, fun _ h => absurd h List.not_mem_nil⟩
  | cons z xs ih =>
    obtain ⟨y, hy, hle, hall⟩ := ih (max x z)
    refine ⟨y, ?_, (le_max_left x z).trans hle,
      List.forall_mem_cons.2 ⟨(le_max_right x z).trans hle, hall⟩⟩
    rw [← hy, ← Extended.larger_finite]
    rfl

end Extremum

/-- An operand is over variables of the model, and its bounds are finite and come from theirs. -/
structure BoundedExpr.IsDerived (m : Model (Extended F)) (o : BoundedExpr (Extended F)) : Prop where
  finite : o.expr.IsFinite
  has : ∀ v ∈ o.expr.vars, m.Has v
  bounds_eq : o.bounds = o.expr.interval
  bounded : ∃ l u, o.bounds = ⟨.finite l, .finite u⟩

/-- An operand is over variables that the model knows, and its numbers are finite. -/
structure BoundedExpr.IsKnown (m : Model (Extended F)) (o : BoundedExpr (Extended F)) : Prop where
  finite : o.expr.IsFinite
  knows : ∀ v ∈ o.expr.vars, m.Knows v

omit [IsStrictOrderedRing F] in
theorem BoundedExpr.IsDerived.isKnown {m : Model (Extended F)} {o : BoundedExpr (Extended F)}
    (h : o.IsDerived m) : o.IsKnown m :=
  ⟨h.finite, fun v hv => (h.has v hv).knows⟩

namespace Extremum

variable {m n : Model (Extended F)}

theorem contains_bounds {o : BoundedExpr (Extended F)} (ho : o.IsDerived m) {a : Assignment F}
    (ha : m.Feasible a) : o.bounds.Contains (o.expr.eval a) := by
  have := ho.finite
  rw [ho.bounds_eq]
  exact ha.interval_contains o.expr ho.has

omit [Field F] [LinearOrder F] [FloorRing F] [ToString F] [Extended.Tolerance F]
  [IsStrictOrderedRing F] in
/-- What is within one of several limits is within the limit that they come to, if no limit excludes
all numbers. -/
theorem foldl_limits {α : Type} {f : α → α → α} {P : α → F → Prop}
    (hf : ∀ {a b x y}, P a x → P b y → P (f a b) x ∧ P (f a b) y) {a : α} {l : List α}
    (ha : ∃ x, P a x) (hl : ∀ b ∈ l, ∃ x, P b x) :
    (∀ x, P a x → P (l.foldl f a) x) ∧ ∀ b ∈ l, ∀ x, P b x → P (l.foldl f a) x := by
  induction l generalizing a with
  | nil => exact ⟨fun x hx => hx, fun b hb => absurd hb List.not_mem_nil⟩
  | cons c l ih =>
    obtain ⟨y, hy⟩ := ha
    obtain ⟨⟨z, hz⟩, hl⟩ := List.forall_mem_cons.1 hl
    obtain ⟨hstep, hrest⟩ := ih (a := f a c) ⟨y, (hf hy hz).1⟩ hl
    exact ⟨fun x hx => hstep x (hf hx hz).1,
      List.forall_mem_cons.2 ⟨fun x hx => hstep x (hf hy hx).2, hrest⟩⟩

omit [IsStrictOrderedRing F] in
theorem smaller_le {l k : Extended F} {x y : F} (hl : le l (.finite x) = true)
    (hk : le k (.finite y) = true) :
    le (smaller l k) (.finite x) = true ∧ le (smaller l k) (.finite y) = true := by
  rcases Extended.finite_of_le hl with rfl | ⟨x', rfl, hx⟩ <;>
    rcases Extended.finite_of_le hk with rfl | ⟨y', rfl, hy⟩
  · exact ⟨rfl, rfl⟩
  · exact ⟨rfl, rfl⟩
  · exact ⟨rfl, rfl⟩
  · simp [hx, hy]

omit [IsStrictOrderedRing F] in
theorem le_larger {u k : Extended F} {x y : F} (hu : le (.finite x) u = true)
    (hk : le (.finite y) k = true) :
    le (.finite x) (larger u k) = true ∧ le (.finite y) (larger u k) = true := by
  rcases Extended.finite_of_ge hu with rfl | ⟨x', rfl, hx⟩ <;>
    rcases Extended.finite_of_ge hk with rfl | ⟨y', rfl, hy⟩
  · exact ⟨rfl, rfl⟩
  · exact ⟨rfl, rfl⟩
  · exact ⟨rfl, rfl⟩
  · simp [hx, hy]

omit [IsStrictOrderedRing F] in
/-- **The hull of bounds contains what one of them does**, if none of them is empty. -/
theorem hull_contains {first : BoundedExpr (Extended F)} {rest : List (BoundedExpr (Extended F))}
    {f : BoundedExpr (Extended F) → F} (h : ∀ o ∈ first :: rest, o.bounds.Contains (f o)) :
    ∀ o ∈ first :: rest, (hull first.bounds (rest.map BoundedExpr.bounds)).Contains (f o) := by
  obtain ⟨hfirst, hrest⟩ := List.forall_mem_cons.1 h
  obtain ⟨hl, hls⟩ := foldl_limits (P := fun l x => le l (Extended.finite x) = true) smaller_le
    (l := (rest.map BoundedExpr.bounds).map Interval.lower) ⟨_, hfirst.lower⟩
    (by simpa using fun o ho => ⟨_, (hrest o ho).lower⟩)
  obtain ⟨hu, hus⟩ := foldl_limits (P := fun u x => le (Extended.finite x) u = true) le_larger
    (l := (rest.map BoundedExpr.bounds).map Interval.upper) ⟨_, hfirst.upper⟩
    (by simpa using fun o ho => ⟨_, (hrest o ho).upper⟩)
  refine List.forall_mem_cons.2 ⟨⟨hl _ hfirst.lower, hu _ hfirst.upper⟩, fun o ho => ?_⟩
  have hbounds := List.mem_map_of_mem (f := BoundedExpr.bounds) ho
  exact ⟨hls _ (List.mem_map_of_mem hbounds) _ (hrest o ho).lower,
    hus _ (List.mem_map_of_mem hbounds) _ (hrest o ho).upper⟩

omit [IsStrictOrderedRing F] in
/-- **The hull of finite bounds is finite, and it contains them.** -/
theorem hull_finite {first : BoundedExpr (Extended F)} {rest : List (BoundedExpr (Extended F))}
    (h : ∀ o ∈ first :: rest, ∃ l u, o.bounds = ⟨.finite l, .finite u⟩) : ∃ L U,
      hull first.bounds (rest.map BoundedExpr.bounds) = ⟨.finite L, .finite U⟩ ∧
      ∀ o ∈ first :: rest, ∃ l u, o.bounds = ⟨.finite l, .finite u⟩ ∧ L ≤ l ∧ u ≤ U := by
  have hlower : ∀ o ∈ first :: rest, o.bounds.lower = .finite o.bounds.lower.number := by
    intro o ho
    obtain ⟨l, u, hlu⟩ := h o ho
    rw [hlu, Extended.number_finite]
  have hupper : ∀ o ∈ first :: rest, o.bounds.upper = .finite o.bounds.upper.number := by
    intro o ho
    obtain ⟨l, u, hlu⟩ := h o ho
    rw [hlu, Extended.number_finite]
  have hmap : ∀ f : BoundedExpr (Extended F) → Extended F,
      (∀ o ∈ first :: rest, f o = .finite (f o).number) →
      rest.map f = (rest.map fun o => (f o).number).map Extended.finite := by
    intro f hf
    rw [List.map_map]
    exact List.map_congr_left fun o ho => hf o (List.mem_cons_of_mem first ho)
  obtain ⟨L, hL, hfirst, hrest⟩ := smallest_finite first.bounds.lower.number
    (rest.map fun o => o.bounds.lower.number)
  obtain ⟨U, hU, hfirst', hrest'⟩ := largest_finite first.bounds.upper.number
    (rest.map fun o => o.bounds.upper.number)
  rw [← hlower first List.mem_cons_self, ← hmap (fun o => o.bounds.lower) hlower] at hL
  rw [← hupper first List.mem_cons_self, ← hmap (fun o => o.bounds.upper) hupper] at hU
  refine ⟨L, U, ?_, fun o ho => ⟨o.bounds.lower.number, o.bounds.upper.number, ?_, ?_⟩⟩
  · rw [hull, List.map_map, List.map_map]
    exact congrArg₂ Interval.mk hL hU
  · rw [← hlower o ho, ← hupper o ho]
  · rcases List.mem_cons.1 ho with rfl | ho
    · exact ⟨hfirst, hfirst'⟩
    · exact ⟨hrest _ (List.mem_map_of_mem ho), hrest' _ (List.mem_map_of_mem ho)⟩

end Extremum

/-! ## Directions -/

namespace Direction

section Rows

variable {K : Type} [Arithmetic K]

/-- The rows of one operand of a maximum or minimum. -/
def rows : Direction → Variable K → LinearExpr K → Variable K → K → List (Constraint K)
  | .maximize => Extremum.maximumRows
  | .minimize => Extremum.minimumRows

/-- The constant of one operand: how far the result can be from it. -/
def constant (i : Interval K) (o : BoundedExpr K) : Direction → K
  | .maximize => i.upper - o.bounds.lower
  | .minimize => o.bounds.upper - i.lower

/-- The constant of one operand in the rows: the one that is given, or how far the result can be from
it. -/
def slack (d : Direction) (first : BoundedExpr K) (rest : List (BoundedExpr K)) (k : Option K)
    (o : BoundedExpr K) : K :=
  k.getD (d.constant (Extremum.hull first.bounds (rest.map BoundedExpr.bounds)) o)

/-- What a maximum or minimum of several operands has added. -/
def Parts (d : Direction) (m : Model K) (first : BoundedExpr K) (rest : List (BoundedExpr K))
    (k : Option K) (t : Variable K) (n : Model K) : Prop :=
  Build.PiecewiseParts m (Extremum.hull first.bounds (rest.map BoundedExpr.bounds)) (first :: rest)
    ((first :: rest).map (d.slack first rest k)) d.rows t n

/-- The rows of all operands with their selectors, of which exactly one is one. -/
def selectionRows (d : Direction) (operands : List (BoundedExpr K)) (selectors : List (Variable K))
    (f : BoundedExpr K → K) (t : Variable K) : List (Constraint K) :=
  exactly (LinearExpr.total selectors) one ::
    (operands.zip selectors).flatMap fun p => d.rows t p.1.expr p.2 (f p.1)

end Rows

/-- The second number is at least as good as the first one. -/
def Orders (d : Direction) (x y : F) : Prop :=
  match d with
  | .maximize => x ≤ y
  | .minimize => y ≤ x

/-- The number is one of several, and at least as good as all of them. -/
def IsBest (d : Direction) (y : F) (xs : List F) : Prop := y ∈ xs ∧ ∀ x ∈ xs, d.Orders x y

omit [Field F] [FloorRing F] [ToString F] [Extended.Tolerance F] [IsStrictOrderedRing F] in
theorem orders_refl (d : Direction) (x : F) : d.Orders x x := by
  cases d <;> exact le_refl x

omit [Field F] [FloorRing F] [ToString F] [Extended.Tolerance F] [IsStrictOrderedRing F] in
theorem isBest_map {d : Direction} {y : F} {ι : Type} {l : List ι} {g : ι → F} :
    d.IsBest y (l.map g) ↔ (∃ i ∈ l, y = g i) ∧ ∀ i ∈ l, d.Orders (g i) y := by
  rw [IsBest, List.mem_map, List.forall_mem_map]
  exact and_congr_left' (exists_congr fun i => and_congr_right' eq_comm)

omit [Field F] [FloorRing F] [ToString F] [Extended.Tolerance F] [IsStrictOrderedRing F] in
theorem isBest_singleton {d : Direction} {y x : F} : d.IsBest y [x] ↔ y = x := by
  rw [IsBest, List.mem_singleton, List.forall_mem_singleton]
  exact and_iff_left_of_imp fun h => h ▸ d.orders_refl y

variable {m n : Model (Extended F)} {a : Assignment F} {t s : Variable (Extended F)}
  {e : LinearExpr (Extended F)} {operands : List (BoundedExpr (Extended F))}
  {selectors : List (Variable (Extended F))} {f : BoundedExpr (Extended F) → Extended F} {k : F}

/-- Between the bounds, the result and an operand are not further apart than its constant. -/
theorem exists_constant (d : Direction) {o : BoundedExpr (Extended F)} {L U l u : F}
    (ho : o.bounds = ⟨.finite l, .finite u⟩) :
    ∃ k, d.constant ⟨.finite L, .finite U⟩ o = .finite k ∧
      ∀ x y, L ≤ y → y ≤ U → l ≤ x → x ≤ u → d.Orders x y → |y - x| ≤ k := by
  cases d with
  | maximize =>
    refine ⟨U - l, by simp [constant, ho], fun x y _ hU hl _ h => ?_⟩
    rw [abs_of_nonneg (sub_nonneg.2 h)]
    exact sub_le_sub hU hl
  | minimize =>
    refine ⟨u - L, by simp [constant, ho], fun x y hL _ _ hu h => ?_⟩
    rw [abs_of_nonpos (sub_nonpos.2 h), neg_sub]
    exact sub_le_sub hu hL

variable [Extended.Tolerance.IsZero F]

/-- **What the rows of one operand say**: the result is at least as good, and equal or close to it. -/
theorem rows_iff (d : Direction) [e.IsFinite] (hs : a s.id = 0 ∨ a s.id = 1) :
    (∀ c ∈ d.rows t e s (.finite k), c.holds a.lift = true) ↔
      d.Orders (e.eval a) (a t.id) ∧ (a s.id = 1 → a t.id = e.eval a) ∧
        (a s.id = 0 → |a t.id - e.eval a| ≤ k) := by
  have hrows : (∀ c ∈ d.rows t e s (.finite k), c.holds a.lift = true) ↔
      d.Orders (e.eval a) (a t.id) ∧ |a t.id - e.eval a| + k * a s.id ≤ k := by
    cases d with
    | maximize =>
      have hiff : (∀ c ∈ rows .maximize t e s (.finite k), c.holds a.lift = true) ↔
          e.eval a ≤ a t.id ∧ a t.id - e.eval a + k * a s.id ≤ k := by
        simp [rows, Extremum.maximumRows]
      rw [hiff]
      exact and_congr_right fun h => by rw [abs_of_nonneg (sub_nonneg.2 h)]
    | minimize =>
      have hiff : (∀ c ∈ rows .minimize t e s (.finite k), c.holds a.lift = true) ↔
          a t.id ≤ e.eval a ∧ -k ≤ a t.id - e.eval a - k * a s.id := by
        simp [rows, Extremum.minimumRows]
      rw [hiff]
      refine and_congr_right fun h => ?_
      rw [abs_of_nonpos (sub_nonpos.2 h)]
      constructor <;> intro h <;> linarith
  rw [hrows]
  refine and_congr_right fun _ => ?_
  rcases hs with hs | hs <;> rw [hs]
  · simp
  · simp [sub_eq_zero]

/-! ## Selection -/

theorem zip_zip_map {α β γ : Type} (l : List α) (r : List β) (f : α → γ) :
    l.zip (r.zip (l.map f)) = (l.zip r).map fun p => (p.1, p.2, f p.1) := by
  induction l generalizing r with
  | nil => rfl
  | cons x l ih =>
    cases r with
    | nil => rfl
    | cons y r => exact congrArg ((x, y, f x) :: ·) (ih r)

omit [FloorRing F] [ToString F] [Extended.Tolerance F] [LinearOrder F] [IsStrictOrderedRing F]
  [Extended.Tolerance.IsZero F] in
/-- Of the numbers that select a position, all but one are zero. -/
theorem sum_select {k j : Nat} (hj : j < k) :
    ((List.range k).map fun i => if i = j then (1 : F) else 0).sum = 1 := by
  rw [List.sum_map_ite_eq, List.count_eq_one_of_mem List.nodup_range (List.mem_range.2 hj)]
  simp

omit [IsStrictOrderedRing F] [Extended.Tolerance.IsZero F] in
/-- The selectors of what has been added, one for each operand. -/
theorem exists_selectors {d : Direction} {i : Interval (Extended F)}
    (hp : Build.PiecewiseParts m i operands (operands.map f) d.rows t n) :
    ∃ selectors, selectors.length = operands.length ∧
      (∀ s ∈ selectors, s.IsOf .binary ⟨zero, one⟩) ∧
      m.Grown (t :: selectors) (d.selectionRows operands selectors f t) n := by
  obtain ⟨-, selectors, hlen, hselectors, hg⟩ := hp
  rw [zip_zip_map, List.flatMap_map] at hg
  exact ⟨selectors, hlen, hselectors, hg⟩

/-- **The selected operand is the result**, which is at least as good as all others. -/
theorem selection_sound {d : Direction} (hlen : selectors.length = operands.length)
    (hbin : ∀ s ∈ selectors, a s.id = 0 ∨ a s.id = 1)
    (hrows : ∀ o ∈ operands, ∀ s : Variable (Extended F), (a s.id = 0 ∨ a s.id = 1) →
      (∀ c ∈ d.rows t o.expr s (f o), c.holds a.lift = true) →
      d.Orders (o.expr.eval a) (a t.id) ∧ (a s.id = 1 → a t.id = o.expr.eval a))
    (h : ∀ c ∈ d.selectionRows operands selectors f t, c.holds a.lift = true) :
    d.IsBest (a t.id) (operands.map fun o => o.expr.eval a) := by
  obtain ⟨htotal, hcs⟩ := List.forall_mem_cons.1 h
  rw [Extended.one_eq, holds_exactly, LinearExpr.eval_total] at htotal
  have hpair : ∀ p ∈ operands.zip selectors, d.Orders (p.1.expr.eval a) (a t.id) ∧
      (a p.2.id = 1 → a t.id = p.1.expr.eval a) := by
    intro p hp
    obtain ⟨ho, hs⟩ := List.of_mem_zip hp
    exact hrows p.1 ho p.2 (hbin p.2 hs) fun c hc => hcs c (List.mem_flatMap_of_mem hp hc)
  refine isBest_map.2 ⟨?_, fun o ho => ?_⟩
  · obtain ⟨hzero, -⟩ | ⟨-, s, hs, hone⟩ := sum_eq_zero_or hbin
    · rw [hzero] at htotal
      exact absurd htotal zero_ne_one
    · rw [← List.map_snd_zip hlen.le] at hs
      obtain ⟨p, hp, rfl⟩ := List.mem_map.1 hs
      exact ⟨p.1, (List.of_mem_zip hp).1, (hpair p hp).2 hone⟩
  · rw [← List.map_fst_zip hlen.ge] at ho
    obtain ⟨p, hp, rfl⟩ := List.mem_map.1 ho
    exact (hpair p hp).1

/-- **How to select an operand**: its selector is one, and all others are zero. -/
theorem selection_holds {d : Direction} {j : Nat} (hj : j < operands.length)
    (hlen : selectors.length = operands.length)
    (hnew : (selectors.map fun s => a s.id) =
      (List.range operands.length).map fun i => if i = j then 1 else 0)
    (hrows : ∀ o ∈ operands, ∀ s : Variable (Extended F),
      a s.id = 0 ∨ (a s.id = 1 ∧ o = operands[j]) →
      ∀ c ∈ d.rows t o.expr s (f o), c.holds a.lift = true) :
    (∀ s ∈ selectors, a s.id = 0 ∨ a s.id = 1) ∧
      ∀ c ∈ d.selectionRows operands selectors f t, c.holds a.lift = true := by
  have hselected : ∀ k (hk : k < selectors.length), a (selectors[k]).id = if k = j then 1 else 0 := by
    intro k hk
    have hget := congrArg (fun l => l[k]?) hnew
    rw [List.getElem?_map, List.getElem?_map, List.getElem?_eq_getElem hk,
      List.getElem?_range (hlen ▸ hk)] at hget
    exact Option.some.inj hget
  refine ⟨fun s hs => ?_, List.forall_mem_cons.2 ⟨?_, fun c hc => ?_⟩⟩
  · obtain ⟨k, hk, rfl⟩ := List.getElem_of_mem hs
    rw [hselected k hk]
    exact (ite_eq_or_eq _ _ _).symm
  · rw [Extended.one_eq, holds_exactly, LinearExpr.eval_total, hnew, sum_select hj]
  · obtain ⟨p, hp, hc⟩ := List.mem_flatMap.1 hc
    obtain ⟨k, hk, rfl⟩ := List.getElem_of_mem hp
    rw [List.length_zip, hlen, min_self] at hk
    rw [List.getElem_zip] at hc
    refine hrows _ (List.getElem_mem hk) _ ?_ c hc
    rw [hselected k (hlen ▸ hk)]
    by_cases h : k = j
    · exact .inr ⟨if_pos h, by simp only [h]⟩
    · exact .inl (if_neg h)

variable {first : BoundedExpr (Extended F)} {rest : List (BoundedExpr (Extended F))}
  {k : Option (Extended F)} {d : Direction} {b : Assignment F} {y : F}

omit [Extended.Tolerance.IsZero F] in
/-- **Derived constants are as large as they have to be**, if all bounds are finite. -/
theorem exists_slack (d : Direction)
    (h : ∀ o ∈ first :: rest, ∃ l u, o.bounds = ⟨.finite l, .finite u⟩) :
    ∀ o ∈ first :: rest, ∃ c, d.slack first rest none o = .finite c ∧ ∀ a : Assignment F,
      (∀ o ∈ first :: rest, o.bounds.Contains (o.expr.eval a)) →
      ∀ y, d.IsBest y ((first :: rest).map fun o => o.expr.eval a) → |y - o.expr.eval a| ≤ c := by
  intro o ho
  obtain ⟨L, U, hLU, hbounds⟩ := Extremum.hull_finite h
  obtain ⟨l, u, hlu⟩ := h o ho
  obtain ⟨c, hc, hclose⟩ := d.exists_constant (L := L) (U := U) hlu
  rw [← hLU] at hc
  refine ⟨c, hc, fun a ha y hy => ?_⟩
  obtain ⟨⟨p, hp, rfl⟩, hord⟩ := isBest_map.1 hy
  have hin := Extremum.hull_contains (f := fun o => o.expr.eval a) ha p hp
  rw [hLU, Interval.contains_finite] at hin
  have hcontains := ha o ho
  rw [hlu, Interval.contains_finite] at hcontains
  exact hclose _ _ hin.1 hin.2 hcontains.1 hcontains.2 (hord o ho)

/-- **The result is the greatest or the least of the operands**, whatever the constants are. -/
theorem Parts.isBest (hm : m.WellFormed) (hos : ∀ o ∈ first :: rest, o.IsKnown m)
    (hslack : ∀ o ∈ first :: rest, ∃ c, d.slack first rest k o = .finite c)
    (hp : d.Parts m first rest k t n) (hb : m.Completes n a b) :
    d.IsBest (b t.id) ((first :: rest).map fun o => o.expr.eval a) := by
  obtain ⟨selectors, hlen, hselectors, hg⟩ := exists_selectors hp
  obtain ⟨hagrees, hallows, hrows⟩ := hg.completes_iff.1 hb
  have hbin : ∀ s ∈ selectors, b s.id = 0 ∨ b s.id = 1 := fun s hs =>
    (hselectors s hs).allows_binary.1 (hallows s (List.mem_cons_of_mem t hs))
  have heval : ∀ o ∈ first :: rest, o.expr.eval b = o.expr.eval a := fun o ho =>
    hg.eval_eq hm (hos o ho).knows hagrees
  rw [← List.map_congr_left heval]
  refine selection_sound hlen hbin (fun o ho s hs hc => ?_) hrows
  obtain ⟨c, hslack⟩ := hslack o ho
  have := (hos o ho).finite
  rw [hslack, rows_iff d hs] at hc
  exact ⟨hc.1, hc.2.1⟩

/-- **The greatest or the least of the operands can be the result**, if the constants are as large as
they have to be. -/
theorem Parts.exists_completes (hm : m.WellFormed) (hos : ∀ o ∈ first :: rest, o.IsKnown m)
    (hp : d.Parts m first rest k t n)
    (hy : d.IsBest y ((first :: rest).map fun o => o.expr.eval a))
    (ha : ∀ o ∈ first :: rest, o.bounds.Contains (o.expr.eval a))
    (hslack : ∀ o ∈ first :: rest, ∃ c, d.slack first rest k o = .finite c ∧
      |y - o.expr.eval a| ≤ c) : ∃ b, m.Completes n a b ∧ b t.id = y := by
  have ht := hp.1
  obtain ⟨selectors, hlen, hselectors, hg⟩ := exists_selectors hp
  -- the selector of an operand that the result equals is one
  obtain ⟨⟨o, ho, hyo⟩, hord⟩ := isBest_map.1 hy
  obtain ⟨j, hj, rfl⟩ := List.getElem_of_mem ho
  have hty : t.Allows y := ht.allows_iff.2
    ⟨hyo ▸ Extremum.hull_contains (f := fun o => o.expr.eval a) ha _ ho, fun h => absurd rfl h⟩
  obtain ⟨b, hb, hnew⟩ := hg.exists_completes (a := a)
    (y :: (List.range (first :: rest).length).map fun i => if i = j then 1 else 0)
    (by simp [hlen]) fun b hagrees hnew => by
    obtain ⟨hbt, hbs⟩ : b t.id = y ∧ selectors.map (fun s => b s.id) =
        (List.range (first :: rest).length).map fun i => if i = j then 1 else 0 :=
      List.cons_eq_cons.1 hnew
    have heval : ∀ o ∈ first :: rest, o.expr.eval b = o.expr.eval a := fun o ho =>
      hg.eval_eq hm (hos o ho).knows hagrees
    have hselect : ∀ o ∈ first :: rest, ∀ s : Variable (Extended F),
        b s.id = 0 ∨ (b s.id = 1 ∧ o = (first :: rest)[j]) →
        ∀ c ∈ d.rows t o.expr s (d.slack first rest k o), c.holds b.lift = true := by
      intro o ho s hs
      obtain ⟨c, hslack, hclose⟩ := hslack o ho
      have := (hos o ho).finite
      rw [hslack, rows_iff d (hs.imp_right And.left), heval o ho, hbt]
      refine ⟨hord o ho, fun hone => ?_, fun _ => hclose⟩
      rcases hs with hzero | ⟨-, rfl⟩
      · rw [hzero] at hone
        exact absurd hone zero_ne_one
      · exact hyo
    obtain ⟨hbin, hholds⟩ := selection_holds hj hlen hbs hselect
    exact ⟨List.forall_mem_cons.2 ⟨hbt ▸ hty, fun s hs =>
      (hselectors s hs).allows_binary.2 (hbin s hs)⟩, hholds⟩
  exact ⟨b, hb, (List.cons_eq_cons.1 hnew).1⟩

/-- **The greatest or the least of several operands.** -/
theorem Parts.expresses (hm : m.WellFormed) (hos : ∀ o ∈ first :: rest, o.IsDerived m)
    (hp : d.Parts m first rest none t n) :
    m.Expresses n [t] fun a => d.IsBest (a t.id) ((first :: rest).map fun o => o.expr.eval a) := by
  obtain ⟨selectors, -, -, hg⟩ := exists_selectors hp
  have hknown : ∀ o ∈ first :: rest, o.IsKnown m := fun o ho => (hos o ho).isKnown
  have hslack := exists_slack d fun o ho => (hos o ho).bounded
  refine hg.expresses_of_completes hm (fun a ha hb => hp.isBest hm hknown ?_ hb)
    fun a ha hbest => ?_
  · intro o ho
    obtain ⟨c, hc, -⟩ := hslack o ho
    exact ⟨c, hc⟩
  · have hbounds : ∀ o ∈ first :: rest, o.bounds.Contains (o.expr.eval a) := fun o ho =>
      Extremum.contains_bounds (hos o ho) ha
    obtain ⟨b, hb, hbt⟩ := hp.exists_completes hm hknown hbest hbounds fun o ho => by
      obtain ⟨c, hc, hclose⟩ := hslack o ho
      exact ⟨c, hc, hclose a hbounds _ hbest⟩
    exact ⟨b, hb, List.forall_mem_singleton.2 hbt⟩

end Direction

end MixedInteger
