import MixedInteger.Proofs.Reformulation.ProductCompletion

/-!
# What a formula allows

A formula of binary variables is built call by call, the innermost first.  An operand is a leaf or
what an earlier call has answered, and either may be an operand several times, in one call or in
several.  Once the operands of a call have their numbers, its rows leave one number for each variable
that it creates.  So the rows of all calls together leave one completion.

## What is here

* `Connective` — one call, with its truth.
* `Formula` — the calls, with their operands and the truth of each.
* `Settles` — variables that rows leave one number for, given the numbers of others.
* `Model.Encodes` — that the rows of calls do so, given the truth of their operands.
* `Connective.perform_encodes`, `Model.Encodes.call`, `Formula.build_encodes` — one call, one more,
  and all calls.
* `Model.Tabulates`, `Model.formula_tabulates` — the completion and the numbers in it.
-/

set_option autoImplicit false

namespace MixedInteger

open Arithmetic

/-! ## Formulas -/

/-- The two connectives of any number of operands. -/
inductive Junction where
  | conjunction
  | disjunction
  deriving DecidableEq, Repr

namespace Junction

variable {K : Type}

/-- Whether all operands are true, or whether some are. -/
def truth : Junction → List Bool → Bool
  | conjunction, ts => ts.all id
  | disjunction, ts => ts.any id

/-- The call with the given arguments. -/
def call : Junction → List (Value K) → Model.Call K
  | conjunction, args => .conjunction args
  | disjunction, args => .disjunction args

/-- The rows that tie a variable to the operands. -/
def rows [Arithmetic K] : Junction → Variable K → List (Variable K) → List (Constraint K)
  | conjunction => Logic.conjunctionRows
  | disjunction => Logic.disjunctionRows

end Junction

/-- A connective and its operands.  The operands of a junction, of which there is one at least, are
given one by one or as one sequence. -/
inductive Connective (α : Type) where
  | junction (kind : Junction) (shape : Option Shape) (first : α) (rest : List α)
  | negation (x : α)
  | exclusive (encoding : ExclusiveEncoding) (x y : α)

namespace Connective

variable {K α β : Type}

/-- The operands in order. -/
def operands : Connective α → List α
  | junction _ _ first rest => first :: rest
  | negation x => [x]
  | exclusive _ x y => [x, y]

/-- The same connective of other operands. -/
def map (g : α → β) : Connective α → Connective β
  | junction kind shape first rest => junction kind shape (g first) (rest.map g)
  | negation x => negation (g x)
  | exclusive encoding x y => exclusive encoding (g x) (g y)

/-- The truth of the connective by that of its operands. -/
def truth : Connective Bool → Bool
  | junction kind _ first rest => kind.truth (first :: rest)
  | negation x => !x
  | exclusive _ x y => x ^^ y

/-- Operands one by one, or as one sequence. -/
def arguments : Option Shape → List (Value K) → List (Value K)
  | none, xs => xs
  | some shape, xs => [.sequence shape xs]

/-- The name of an encoding. -/
def encodingName : ExclusiveEncoding → String
  | .inequalities => "constraints"
  | .compact => "compact"

/-- The call that builds the connective. -/
def call : Connective (Value K) → Model.Call K
  | junction kind shape first rest => kind.call (arguments shape (first :: rest))
  | negation x => .negation x
  | exclusive encoding x y => .exclusive x y (.text (encodingName encoding))

end Connective

/-- An operand in a formula: a leaf, or the answer of an earlier call. -/
inductive Operand (K : Type) (n : Nat) where
  | leaf (v : Variable K)
  | answer (i : Fin n)

namespace Operand

variable {K α β : Type} {n : Nat}

/-- What stands for an operand, given what stands for leaves and answers. -/
def read (p : Variable K → α) (q : Fin n → α) : Operand K n → α
  | leaf v => p v
  | answer i => q i

/-- The leaf that an operand is. -/
def leaf? : Operand K n → Option (Variable K)
  | leaf v => some v
  | answer _ => none

end Operand

/-- A formula, as the calls that build it, each with the operands that are there when it is made.
Nested calls are made innermost first; what stands in two places may be built once or twice. -/
inductive Formula (K : Type) : Nat → Type where
  | empty : Formula K 0
  | call {n : Nat} (f : Formula K n) (c : Connective (Operand K n)) : Formula K (n + 1)

namespace Formula

variable {K : Type}

/-- The leaves in order, as often as they occur. -/
def leaves : {n : Nat} → Formula K n → List (Variable K)
  | _, empty => []
  | _, call f c => f.leaves ++ c.operands.filterMap Operand.leaf?

/-- The truth of every call by that of the leaves. -/
def truth (p : Variable K → Bool) : {n : Nat} → Formula K n → Fin n → Bool
  | _, empty => Fin.elim0
  | _, call f c => Fin.snoc (f.truth p) (c.map (Operand.read p (f.truth p))).truth

/-- Makes the calls, one after the other. -/
def build [Arithmetic K] : {n : Nat} → Formula K n → Build K (Fin n → Value K)
  | _, empty => return Fin.elim0
  | _, call f c => do
    let answers ← f.build
    let z ← Build.perform (c.map (Operand.read .var answers)).call
    return Fin.snoc answers z

end Formula

/-! ## Calls that are accepted -/

namespace Build

section Reading

variable {K : Type} [Arithmetic K] {vs : List (Variable K)} {m : Model K}

theorem toEncoding_encodingName (encoding : ExclusiveEncoding) :
    toEncoding (.text (Connective.encodingName encoding) : Value K) = .ok encoding := by
  cases encoding <;> rfl

omit [Arithmetic K] in
/-- However the operands of a junction are given, they are read as they are. -/
theorem operands_arguments (shape : Option Shape) (vs : List (Variable K)) :
    Value.operands (Connective.arguments shape (vs.map .var)) = vs.map .var := by
  cases shape with
  | some => rfl
  | none => rcases vs with _ | ⟨v, _ | ⟨w, vs⟩⟩ <;> rfl

theorem connective_succeeds (context : String) (shape : Option Shape) (hne : vs ≠ [])
    (hbinary : ∀ v ∈ vs, v.isBinary = true) :
    exec (connective context (Connective.arguments shape (vs.map .var))) m = (.ok vs, m) := by
  have hread : Value.toBinaries context (vs.map .var) = .ok vs := by
    refine mapM_eq_ok_of_forall₂ (List.forall₂_map_left_iff.2 (List.forall₂_same.2 ?_))
    exact fun v hv => Value.toBinary_of_isBinary (hbinary v hv) context
  have hsome : (vs.map Value.var).isEmpty = false := by simpa using hne
  rw [connective, operands_arguments, hread]
  simp [hsome]

variable [Sensible K]

/-- A junction of one operand is the operand; otherwise it has a variable of its own. -/
theorem perform_junction_succeeds (kind : Junction) (shape : Option Shape) (hne : vs ≠ [])
    (hbinary : ∀ v ∈ vs, v.isBinary = true) :
    Succeeds (perform (kind.call (Connective.arguments shape (vs.map .var)))) m fun answer n =>
      (∃ v, vs = [v] ∧ answer = .var v ∧ n = m) ∨
      ∃ z, answer = .var z ∧ z.IsOf .binary ⟨zero, one⟩ ∧ m.Grown [z] (kind.rows z vs) n := by
  have hread : ∀ context, Succeeds (connective context
      (Connective.arguments shape (vs.map .var))) m fun ws n => vs = ws ∧ m = n :=
    fun context => ⟨vs, m, connective_succeeds context shape hne hbinary, rfl, rfl⟩
  have several : ∀ {step : Build K (Variable K)},
      (Succeeds step m fun z n =>
        z.IsOf .binary ⟨zero, one⟩ ∧ m.Grown [z] (kind.rows z vs) n) →
      Succeeds (Value.var <$> step) m fun answer n =>
        (∃ v, vs = [v] ∧ answer = .var v ∧ n = m) ∨
        ∃ z, answer = .var z ∧ z.IsOf .binary ⟨zero, one⟩ ∧ m.Grown [z] (kind.rows z vs) n :=
    fun h => .map (h.mono fun z n hz => .inr ⟨z, rfl, hz⟩)
  cases kind with
  | conjunction =>
    refine .bind (hread "and_") ?_
    rintro _ _ ⟨rfl, rfl⟩
    rcases vs with _ | ⟨v, _ | ⟨w, vs⟩⟩
    · exact absurd rfl hne
    · exact .pure (.inl ⟨v, rfl, rfl, rfl⟩)
    · exact several (conjunction_spec _ m)
  | disjunction =>
    refine .bind (hread "or_") ?_
    rintro _ _ ⟨rfl, rfl⟩
    rcases vs with _ | ⟨v, _ | ⟨w, vs⟩⟩
    · exact absurd rfl hne
    · exact .pure (.inl ⟨v, rfl, rfl, rfl⟩)
    · exact several (disjunction_spec _ m)

end Reading

end Build

/-! ## Numbers of truth values -/

section Bits

variable {F : Type} [Field F]

/-- The number of a truth value. -/
def bit (t : Bool) : F := if t then 1 else 0

theorem bit_eq_zero_or (t : Bool) : (bit t : F) = 0 ∨ (bit t : F) = 1 := by
  cases t
  · exact .inl rfl
  · exact .inr rfl

theorem bit_eq_one_iff {t : Bool} : (bit t : F) = 1 ↔ t = true := by
  cases t <;> simp [bit]

theorem bit_eq_zero_iff {t : Bool} : (bit t : F) = 0 ↔ t = false := by
  cases t <;> simp [bit]

/-- Two conditions that exclude each other make a number the number of a truth value. -/
theorem eq_bit_iff {x : F} {t : Bool} {p q : Prop} (hp : p ↔ t = true) (hq : q ↔ t = false) :
    (x = 1 ∧ p) ∨ (x = 0 ∧ q) ↔ x = bit t := by
  rw [hp, hq]
  cases t <;> simp [bit]

theorem eq_bit_and_iff {x : F} {t u : Bool} :
    (x = 1 ∧ (bit t : F) = 1 ∧ (bit u : F) = 1) ∨ (x = 0 ∧ ((bit t : F) = 0 ∨ (bit u : F) = 0)) ↔
      x = bit (t && u) :=
  eq_bit_iff (by rw [bit_eq_one_iff, bit_eq_one_iff, Bool.and_eq_true])
    (by rw [bit_eq_zero_iff, bit_eq_zero_iff, Bool.and_eq_false_iff])

theorem eq_bit_xor_iff {x : F} {t u : Bool} :
    (x = 1 ∧ (bit t : F) ≠ bit u) ∨ (x = 0 ∧ (bit t : F) = bit u) ↔ x = bit (t ^^ u) := by
  refine eq_bit_iff ?_ ?_ <;> cases t <;> cases u <;> simp [bit]

/-- The variables that stand for some operands have the numbers of their truth values. -/
def Assignment.Reads {α : Type} (b : Assignment F) (os : List α)
    (stands : α → Variable (Extended F)) (t : α → Bool) : Prop :=
  ∀ o ∈ os, b (stands o).id = bit (t o)

variable {b : Assignment F} {α : Type} {os : List α} {stands : α → Variable (Extended F)}
  {t : α → Bool}

theorem Assignment.Reads.eq_zero_or (h : b.Reads os stands t) :
    ∀ v ∈ os.map stands, b v.id = 0 ∨ b v.id = 1 := by
  rw [List.forall_mem_map]
  intro o ho
  rw [h o ho]
  exact bit_eq_zero_or (t o)

end Bits

variable {F : Type} [Field F] [LinearOrder F] [FloorRing F] [ToString F] [Extended.Tolerance F]

/-! ## Rows that leave one number for each variable -/

/-- Under the assignments in question, the variables may take the given numbers and no others. -/
structure Settles (vs : List (Variable (Extended F))) (cs : List (Constraint (Extended F)))
    (P : Assignment F → Prop) (xs : List F) : Prop where
  length_eq : xs.length = vs.length
  allows_iff : ∀ b, P b → (((∀ v ∈ vs, v.Allows (b v.id)) ∧ ∀ c ∈ cs, c.holds b.lift = true) ↔
    (vs.map fun v => b v.id) = xs)

namespace Settles

variable {vs ws : List (Variable (Extended F))} {cs ds : List (Constraint (Extended F))}
  {P : Assignment F → Prop} {xs ys : List F} {z : Variable (Extended F)} {x : F}

theorem nil (P : Assignment F → Prop) : Settles [] [] P [] :=
  ⟨rfl, fun _ _ => iff_of_true ⟨fun _ h => absurd h List.not_mem_nil,
    fun _ h => absurd h List.not_mem_nil⟩ rfl⟩

theorem singleton (h : ∀ b, P b →
    ((z.Allows (b z.id) ∧ ∀ c ∈ cs, c.holds b.lift = true) ↔ b z.id = x)) :
    Settles [z] cs P [x] :=
  ⟨rfl, fun b hb => by
    rw [List.forall_mem_singleton, h b hb, List.map_singleton, List.singleton_inj]⟩

/-- More variables are settled once the first ones are. -/
theorem append (h : Settles vs cs P xs)
    (h' : Settles ws ds (fun b => P b ∧ (vs.map fun v => b v.id) = xs) ys) :
    Settles (vs ++ ws) (cs ++ ds) P (xs ++ ys) where
  length_eq := by rw [List.length_append, List.length_append, h.length_eq, h'.length_eq]
  allows_iff b hb := by
    have hsame : (vs.map fun v => b v.id).length = xs.length :=
      (List.length_map _).trans h.length_eq.symm
    rw [List.forall_mem_append, List.forall_mem_append, and_and_and_comm, h.allows_iff b hb,
      List.map_append]
    constructor
    · rintro ⟨hxs, hrest⟩
      rw [hxs, (h'.allows_iff b ⟨hb, hxs⟩).1 hrest]
    · intro heq
      obtain ⟨hxs, hys⟩ := List.append_inj heq hsame
      exact ⟨hxs, (h'.allows_iff b ⟨hb, hxs⟩).2 hys⟩

theorem mono {Q : Assignment F → Prop} (h : Settles vs cs P xs) (hQ : ∀ b, Q b → P b) :
    Settles vs cs Q xs :=
  ⟨h.length_eq, fun b hb => h.allows_iff b (hQ b hb)⟩

end Settles

/-! ## One call -/

variable [IsStrictOrderedRing F] {m n : Model (Extended F)} {b : Assignment F} {α : Type}
  {os : List α} {stands : α → Variable (Extended F)} {t : α → Bool} {z w : Variable (Extended F)}

section Rows

variable (ht : (Extended.Tolerance.tolerance : F) < 1)
include ht

/-- **The rows of a junction leave the number of its truth.** -/
theorem Junction.exact (kind : Junction) (hz : z.IsOf .binary ⟨zero, one⟩)
    (h : b.Reads os stands t) :
    (z.Allows (b z.id) ∧ ∀ c ∈ kind.rows z (os.map stands), c.holds b.lift = true) ↔
      b z.id = bit (kind.truth (os.map t)) := by
  have hone : ∀ o ∈ os, (b (stands o).id = 1 ↔ t o = true) := fun o ho => by
    rw [h o ho, bit_eq_one_iff]
  have hzero : ∀ o ∈ os, (b (stands o).id = 0 ↔ t o = false) := fun o ho => by
    rw [h o ho, bit_eq_zero_iff]
  cases kind with
  | conjunction =>
    refine (Logic.conjunction_exact ht hz h.eq_zero_or).trans (eq_bit_iff ?_ ?_)
    · simpa [truth] using forall₂_congr hone
    · simpa [truth] using exists_congr fun o => and_congr_right (hzero o)
  | disjunction =>
    refine (Logic.disjunction_exact ht hz h.eq_zero_or).trans (eq_bit_iff ?_ ?_)
    · simpa [truth] using exists_congr fun o => and_congr_right (hone o)
    · simpa [truth] using forall₂_congr hzero

end Rows

/-- A later model encodes connectives of operands: given the truth of the operands, the rows leave
one number for each new variable, and the answers have the numbers of their truth. -/
structure Model.Encodes (m n : Model (Extended F)) (os : List α)
    (stands : α → Variable (Extended F)) {ι : Type} (zs : ι → Variable (Extended F))
    (value : (α → Bool) → ι → Bool) : Prop where
  binary : ∀ i, (zs i).isBinary = true
  exists_settles : ∃ vs cs, m.Grown vs cs n ∧ (∀ v ∈ vs, v.IsOf .binary ⟨zero, one⟩) ∧
    ∀ t, ∃ xs, Settles vs cs (fun b => b.Reads os stands t) xs ∧ ∀ b : Assignment F,
      b.Reads os stands t → (vs.map fun v => b v.id) = xs → ∀ i, b (zs i).id = bit (value t i)

namespace Model.Encodes

variable {value : (α → Bool) → Unit → Bool}

omit [IsStrictOrderedRing F] in
/-- An operand that is the answer itself. -/
theorem of_operand {o : α} (ho : o ∈ os) (hbinary : (stands o).isBinary = true)
    (h : ∀ t, value t () = t o) : m.Encodes m os stands (fun _ : Unit => stands o) value where
  binary _ := hbinary
  exists_settles := by
    refine ⟨[], [], .refl m, List.forall_mem_nil _, fun t => ⟨[], .nil _, fun b hb _ _ => ?_⟩⟩
    rw [hb o ho, h t]

omit [IsStrictOrderedRing F] in
/-- One new variable with rows that leave the number of its truth. -/
theorem of_rows {cs : List (Constraint (Extended F))} (hz : z.IsOf .binary ⟨zero, one⟩)
    (hg : m.Grown [z] cs n) (h : ∀ t (b : Assignment F), b.Reads os stands t →
      ((z.Allows (b z.id) ∧ ∀ c ∈ cs, c.holds b.lift = true) ↔ b z.id = bit (value t ()))) :
    m.Encodes n os stands (fun _ : Unit => z) value where
  binary _ := by rw [Variable.isBinary, hz.domain_eq]
  exists_settles := by
    refine ⟨[z], cs, hg, List.forall_mem_singleton.2 hz, fun t => ?_⟩
    exact ⟨_, .singleton fun b hb => h t b hb, fun b _ hnew _ => List.head_eq_of_cons_eq hnew⟩

end Model.Encodes

section Calls

variable (ht : (Extended.Tolerance.tolerance : F) < 1)
include ht

/-- Either encoding of an exclusive or leaves the number of its truth. -/
theorem Build.ExclusiveParts.encodes {x y : α} {encoding : ExclusiveEncoding}
    (hz : z.IsOf .binary ⟨zero, one⟩)
    (h : Build.ExclusiveParts m (stands x) (stands y) encoding z n) :
    m.Encodes n [x, y] stands (fun _ : Unit => z) fun t _ => t x ^^ t y := by
  have hx : ∀ {t : α → Bool} {b : Assignment F}, b.Reads [x, y] stands t →
      b (stands x).id = bit (t x) := fun hb => hb x List.mem_cons_self
  have hy : ∀ {t : α → Bool} {b : Assignment F}, b.Reads [x, y] stands t →
      b (stands y).id = bit (t y) :=
    fun hb => hb y (List.mem_cons_of_mem _ List.mem_cons_self)
  have hbits : ∀ {t : α → Bool} {b : Assignment F}, b.Reads [x, y] stands t →
      (b (stands x).id = 0 ∨ b (stands x).id = 1) ∧
        (b (stands y).id = 0 ∨ b (stands y).id = 1) := fun hb =>
    ⟨hb.eq_zero_or _ (List.mem_map_of_mem List.mem_cons_self),
      hb.eq_zero_or _ (List.mem_map_of_mem (List.mem_cons_of_mem _ List.mem_cons_self))⟩
  cases encoding with
  | inequalities =>
    refine .of_rows hz h fun t b hb => ?_
    obtain ⟨hx', hy'⟩ := hbits hb
    rw [Logic.exclusive_exact ht hz hx' hy', hx hb, hy hb, eq_bit_xor_iff]
  | compact =>
    -- the conjunction comes first and has a number of its own
    obtain ⟨w, hw, hg⟩ := h
    have hbinary : ∀ v ∈ [w, z], v.IsOf .binary ⟨zero, one⟩ :=
      List.forall_mem_cons.2 ⟨hw, List.forall_mem_singleton.2 hz⟩
    refine ⟨fun _ => by rw [Variable.isBinary, hz.domain_eq], [w, z], _, hg, hbinary, fun t =>
      ⟨[bit (t x && t y), bit (t x ^^ t y)], ⟨rfl, fun b hb => ?_⟩, fun b _ hnew _ => ?_⟩⟩
    · obtain ⟨hx', hy'⟩ := hbits hb
      rw [Logic.compact_exact ht hw hz hx' hy', hx hb, hy hb, eq_bit_and_iff, eq_bit_xor_iff]
      simp
    · simp only [List.map_cons, List.cons.injEq] at hnew
      exact hnew.2.1

/-- **One call of a formula.**  It is accepted, and given the truth of its operands its rows leave
the number of its truth. -/
theorem Connective.perform_encodes (c : Connective α)
    (hbinary : ∀ o ∈ c.operands, (stands o).isBinary = true) (m : Model (Extended F)) :
    Build.Succeeds (Build.perform (c.map fun o => .var (stands o)).call) m fun answer n => ∃ z,
      answer = .var z ∧ m.Encodes n c.operands stands (fun _ : Unit => z)
        fun t _ => (c.map t).truth := by
  cases c with
  | junction kind shape first rest =>
    have hall : ∀ v ∈ (first :: rest).map stands, v.isBinary = true :=
      List.forall_mem_map.2 hbinary
    have hargs : Value.var (stands first) :: rest.map (fun o => Value.var (stands o)) =
        ((first :: rest).map stands).map Value.var := by
      rw [List.map_map]
      rfl
    rw [map, call, hargs]
    refine (Build.perform_junction_succeeds kind shape (List.cons_ne_nil _ _) hall).mono ?_
    rintro _ n (⟨v, hsingle, rfl, rfl⟩ | ⟨z, rfl, hz, hg⟩)
    · obtain ⟨rfl, hrest⟩ := List.cons_eq_cons.1 hsingle
      obtain rfl := List.map_eq_nil_iff.1 hrest
      refine ⟨_, rfl, .of_operand List.mem_cons_self (hbinary _ List.mem_cons_self) fun t => ?_⟩
      cases kind <;> simp [map, truth, Junction.truth]
    · exact ⟨z, rfl, .of_rows hz hg fun t b hb => kind.exact ht hz hb⟩
  | negation x =>
    have hx := hbinary x List.mem_cons_self
    simp only [map, call, Build.perform, Value.toBinary_of_isBinary hx]
    refine .lift_bind (.map ((Build.negation_spec (stands x) m).mono ?_))
    rintro z n ⟨hz, hg⟩
    refine ⟨z, rfl, .of_rows hz hg fun t b hb => ?_⟩
    have hread := hb x List.mem_cons_self
    have hnot : (1 - bit (t x) : F) = bit !t x := by cases t x <;> simp [bit]
    have hnumber := hb.eq_zero_or (stands x) (List.mem_map_of_mem List.mem_cons_self)
    rw [Logic.negation_exact ht hz hnumber, hread, hnot]
    rfl
  | exclusive encoding x y =>
    have hx := hbinary x List.mem_cons_self
    have hy := hbinary y (List.mem_cons_of_mem _ List.mem_cons_self)
    simp only [map, call, Build.perform, Build.toEncoding_encodingName,
      Value.toBinary_of_isBinary hx, Value.toBinary_of_isBinary hy]
    refine .lift_bind (.lift_bind (.lift_bind (.map ?_)))
    refine (Build.exclusive_spec encoding (stands x) (stands y) m).mono ?_
    rintro z n ⟨hz, hparts⟩
    exact ⟨z, rfl, hparts.encodes ht hz⟩

end Calls

/-! ## All calls -/

section Formulas

variable {k : Nat} {l : Model (Extended F)} {f : Formula (Extended F) k}
  {c : Connective (Operand (Extended F) k)} {zs : Fin k → Variable (Extended F)}

omit [IsStrictOrderedRing F] in
/-- **One more call** keeps what the calls before it encode. -/
theorem Model.Encodes.call (h : m.Encodes n f.leaves (fun v => v) zs fun p => f.truth p)
    (h' : n.Encodes l c.operands (Operand.read (fun v => v) zs) (fun _ : Unit => z)
      fun t _ => (c.map t).truth) :
    m.Encodes l (f.call c).leaves (fun v => v) (Fin.snoc zs z) fun p => (f.call c).truth p where
  binary := Fin.lastCases (by simpa using h'.binary ()) fun i => by simpa using h.binary i
  exists_settles := by
    obtain ⟨vs, cs, hg, hvs, hsettles⟩ := h.exists_settles
    obtain ⟨ws, ds, hg', hws, hsettles'⟩ := h'.exists_settles
    refine ⟨vs ++ ws, cs ++ ds, hg.trans hg', List.forall_mem_append.2 ⟨hvs, hws⟩, fun p => ?_⟩
    obtain ⟨xs, hxs, hanswers⟩ := hsettles p
    obtain ⟨ys, hys, hanswer⟩ := hsettles' (Operand.read p (f.truth p))
    have hleaves : ∀ b : Assignment F, b.Reads (f.call c).leaves (fun v => v) p →
        b.Reads f.leaves (fun v => v) p :=
      fun b hb v hv => hb v (List.mem_append_left _ hv)
    -- the operands of the call are leaves, or they are settled by the calls before
    have hoperands : ∀ b : Assignment F, b.Reads (f.call c).leaves (fun v => v) p →
        (vs.map fun v => b v.id) = xs →
        b.Reads c.operands (Operand.read (fun v => v) zs) (Operand.read p (f.truth p)) := by
      intro b hb hnew o ho
      cases o with
      | leaf v => exact hb v (List.mem_append_right _ (List.mem_filterMap.2 ⟨_, ho, rfl⟩))
      | answer i => exact hanswers b (hleaves b hb) hnew i
    refine ⟨xs ++ ys, (hxs.mono hleaves).append (hys.mono fun b hb => hoperands b hb.1 hb.2), ?_⟩
    intro b hb hnew
    rw [List.map_append] at hnew
    obtain ⟨hnew, hnew'⟩ := List.append_inj hnew ((List.length_map _).trans hxs.length_eq.symm)
    refine Fin.lastCases ?_ fun i => ?_
    · simpa [Formula.truth] using hanswer b (hoperands b hb hnew) hnew' ()
    · simpa [Formula.truth] using hanswers b (hleaves b hb) hnew i

/-- **The calls of a formula.**  All of them are accepted, and given the truth of the leaves their
rows leave the number of the truth of each. -/
theorem Formula.build_encodes (ht : (Extended.Tolerance.tolerance : F) < 1)
    (f : Formula (Extended F) k) (hbinary : ∀ v ∈ f.leaves, v.isBinary = true)
    (m : Model (Extended F)) :
    Build.Succeeds f.build m fun answers n => ∃ zs, (answers = fun i => .var (zs i)) ∧
      m.Encodes n f.leaves (fun v => v) zs fun p => f.truth p := by
  induction f with
  | empty =>
    refine .pure ⟨Fin.elim0, funext fun i => i.elim0, fun i => i.elim0, [], [], .refl m,
      List.forall_mem_nil _, fun p => ⟨[], .nil _, fun _ _ _ i => i.elim0⟩⟩
  | call f c ih =>
    obtain ⟨hleaves, hrest⟩ := List.forall_mem_append.1 hbinary
    refine .bind (ih hleaves) ?_
    rintro _ n ⟨zs, rfl, hf⟩
    have hoperands : ∀ o ∈ c.operands, (o.read (fun v => v) zs).isBinary = true := by
      intro o ho
      cases o with
      | leaf v => exact hrest v (List.mem_filterMap.2 ⟨_, ho, rfl⟩)
      | answer i => exact hf.binary i
    have hread : (Operand.read Value.var fun i => Value.var (zs i)) =
        fun o => Value.var (o.read (fun v => v) zs) := by
      funext o
      cases o <;> rfl
    rw [hread]
    refine .bind (c.perform_encodes ht hoperands n) ?_
    rintro _ l ⟨z, rfl, hz⟩
    refine .pure ⟨Fin.snoc zs z, funext ?_, hf.call hz⟩
    exact Fin.lastCases (by simp) fun i => by simp

end Formulas

/-! ## Completions -/

/-- Which variables are true. -/
def Assignment.truth (a : Assignment F) (v : Variable (Extended F)) : Bool := decide (a v.id = 1)

namespace Model

/-- The new variables are binary.  Numbers of the leaves that are zero or one have one completion,
and there the answers have the numbers of their truth. -/
structure Tabulates (m n : Model (Extended F)) {k : Nat} (f : Formula (Extended F) k)
    (zs : Fin k → Variable (Extended F)) : Prop where
  binary : ∀ v ∈ m.newVars n, v.IsOf .binary ⟨zero, one⟩
  determines : ∀ a : Assignment F, (∀ v ∈ f.leaves, a v.id = 0 ∨ a v.id = 1) →
    ∃ b, m.Determines n a b ∧ ∀ i, b (zs i).id = bit (f.truth a.truth i)

variable {k : Nat} {f : Formula (Extended F) k} {zs : Fin k → Variable (Extended F)}

omit [IsStrictOrderedRing F] in
/-- What is encoded over known leaves is tabulated. -/
theorem Encodes.tabulates (hm : m.WellFormed) (hknows : ∀ v ∈ f.leaves, m.Knows v)
    (h : m.Encodes n f.leaves (fun v => v) zs fun p => f.truth p) : m.Tabulates n f zs := by
  obtain ⟨vs, cs, hg, hvs, hsettles⟩ := h.exists_settles
  refine ⟨fun v hv => hvs v (hg.newVars_eq ▸ hv), fun a ha => ?_⟩
  obtain ⟨xs, hxs, hanswers⟩ := hsettles a.truth
  have hreads : ∀ b : Assignment F, (∀ i, (∀ v ∈ vs, v.id ≠ i) → b i = a i) →
      b.Reads f.leaves (fun v => v) a.truth := by
    intro b hb v hv
    have hleaf : b v.id = a v.id := hb v.id fun w hw heq =>
      hg.id_ne_of_knows hm (hknows v hv) hw heq.symm
    rw [hleaf, Assignment.truth]
    rcases ha v hv with h | h <;> simp [bit, h]
  obtain ⟨b, hb, hnew⟩ := hg.exists_determines (a := a) xs hxs.length_eq fun b hb =>
    hxs.allows_iff b (hreads b hb)
  exact ⟨b, hb, hanswers b (hreads b (hg.completes_iff.1 hb.completes).1) hnew⟩

/-- **The truth table of a formula** over binary variables of a reachable model.  All calls are
accepted; zeros and ones of the leaves have one completion by the variables that the calls create,
and in it the variable of each call is one exactly where the connective is true. -/
theorem formula_tabulates (ht : (Extended.Tolerance.tolerance : F) < 1) (hm : m.Reachable)
    (hleaves : ∀ v ∈ f.leaves, m.Knows v ∧ v.isBinary = true) :
    ∃ zs n, Build.exec f.build m = (.ok fun i => .var (zs i), n) ∧ m.Tabulates n f zs := by
  obtain ⟨_, n, hexec, zs, rfl, h⟩ := f.build_encodes ht (fun v hv => (hleaves v hv).2) m
  exact ⟨zs, n, hexec, h.tabulates hm.wellFormed fun v hv => (hleaves v hv).1⟩

/-! ## A formula with operands that occur several times -/

section Rational

local instance formulaTolerance : Extended.Tolerance ℚ := .standard

/-- An integer variable between zero and one. -/
def integerFlag : Variable (Extended ℚ) := ⟨⟨0, 2⟩, .text "e", .integer, .finite 0, .finite 1⟩

/-- A model of a binary variable and this one, and of one that is not binary. -/
def flaggedModel : Model (Extended ℚ) :=
  { empty 0 .none with vars := [boundedVariable, switch, integerFlag] }

theorem flaggedModel_reachable : flaggedModel.Reachable :=
  switchedModel_reachable.call (.addVariable (.domain .integer) (.int 0) (.int 1) (.text "e")) (by
    simp [Call.Admissible, Call.arguments, Value.Admissible, Value.parts, Value.WellFormed,
      Value.int])

/-- A disjunction, the conjunction of it with a negation, and what excludes the conjunction from one
leaf and from itself. -/
def flagFormula : Formula (Extended ℚ) 5 :=
  Formula.empty
    |>.call (.junction .disjunction none (.leaf switch) [.leaf integerFlag, .leaf switch])
    |>.call (.negation (.leaf integerFlag))
    |>.call (.junction .conjunction (some (.list none)) (.answer 0) [.answer 1, .answer 0])
    |>.call (.exclusive .compact (.answer 2) (.leaf switch))
    |>.call (.exclusive .inequalities (.answer 2) (.answer 2))

theorem formula_tabulates_flagFormula : ∃ zs n, Build.exec flagFormula.build flaggedModel =
    (.ok fun i => .var (zs i), n) ∧ flaggedModel.Tabulates n flagFormula zs := by
  refine formula_tabulates Extended.standard_lt_one flaggedModel_reachable ?_
  have hleaves : flagFormula.leaves = [switch, integerFlag, switch, integerFlag, switch] := rfl
  have hswitch : flaggedModel.Knows switch ∧ switch.isBinary = true :=
    ⟨knows_of_mem (List.mem_cons_of_mem _ List.mem_cons_self), rfl⟩
  have hflag : flaggedModel.Knows integerFlag ∧ integerFlag.isBinary = true :=
    ⟨knows_of_mem (by simp [flaggedModel]), by decide +kernel⟩
  rw [hleaves]
  simp [hswitch, hflag]

/-- Where only the binary leaf is true, the conjunction is, and both that exclude it are not. -/
example : (fun i => flagFormula.truth (fun v => v.id == switch.id) i) =
    ![true, true, true, false, false] := by decide

end Rational

end Model

end MixedInteger
