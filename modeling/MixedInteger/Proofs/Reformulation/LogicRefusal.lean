import MixedInteger.Proofs.Reformulation.Reasons

/-!
# Which connectives are refused

A connective, an implication and a bound on the number of ones want binary operands.  Nothing else is
a reason to refuse them, but a conjunction or disjunction without operands and an encoding that does
not exist.

## What is here

* `Build.toBinary_failsIf`, `Build.toBinaries_failsIf`, `Build.connective_failsIf` — reading operands.
* `Build.conjunction_failsIf` and its kin — one lemma for each call.
-/

set_option autoImplicit false

namespace MixedInteger

open Arithmetic Extended

variable {F : Type} [Field F] [LinearOrder F] [FloorRing F] [ToString F] [Extended.Tolerance F]
  {m : Model (Extended F)}

/-! ## Operands -/

namespace Value

variable {x : Value (Extended F)} {args : List (Value (Extended F))}

theorem IsOrdinary.toBinary_eq_error (hx : x.IsOrdinary) (h : x.isBinary = false)
    (context : String) : ∃ f, x.toBinary context = .error f ∧ f.kind = .invalidVariableKind := by
  obtain ⟨s, hs⟩ := hx.exists_shown
  cases x with
  | var v =>
    obtain ⟨s, hs⟩ := Variable.IsOrdinary.exists_text hx
    have hv : v.isBinary = false := h
    refine ⟨.notBinary context s, ?_, rfl⟩
    rw [toBinary, hv, hs, display_text]
    rfl
  | scalar _ | expr _ =>
    refine ⟨.notBinary context s, ?_, rfl⟩
    simp only [toBinary, hs]
    rfl
  | _ => exact hx.elim

theorem exists_toBinary (h : x.isBinary = true) (context : String) :
    ∃ v, x.toBinary context = .ok v := by
  obtain ⟨v, rfl, hv⟩ := exists_of_isBinary h
  exact ⟨v, toBinary_of_isBinary hv context⟩

theorem exists_toBinaries (h : ∀ x ∈ args, x.isBinary = true) (context : String) :
    ∃ vs, toBinaries context args = .ok vs := by
  obtain ⟨vs, hvs⟩ := exists_forall₂ fun x hx => exists_toBinary (h x hx) context
  exact ⟨vs, mapM_eq_ok_of_forall₂ hvs⟩

theorem exists_toBinaries_eq_error (hargs : ∀ x ∈ args, x.IsOrdinary)
    (h : ∃ x ∈ args, x.isBinary = false) (context : String) :
    ∃ f, toBinaries context args = .error f ∧ f.kind = .invalidVariableKind :=
  Build.exists_mapM_eq_error (fun _ _ hb => exists_toBinary hb context)
    (fun x hx hb => (hargs x hx).toBinary_eq_error hb context) h

end Value

namespace Build

section Logic

variable {x y : Value (Extended F)} {args : List (Value (Extended F))} {R : Fault.Kind → Prop}

/-- The reading of a binary operand is the reason if the operand is not binary. -/
theorem toBinary_failsIf (hx : x.IsOrdinary) {context : String}
    {g : Variable (Extended F) → Build (Extended F) (Value (Extended F))}
    (hR : x.isBinary = false → ∀ k, R k ↔ k = .invalidVariableKind)
    (hg : ∀ v, x = .var v → v.isBinary = true → FailsIf (g v) m R) :
    FailsIf (liftM (x.toBinary context) >>= g) m R := by
  cases hb : x.isBinary with
  | false => exact (FailsWith.bind (.lift (hx.toBinary_eq_error hb context))).failsIf (hR hb)
  | true =>
    obtain ⟨v, rfl, hv⟩ := Value.exists_of_isBinary hb
    rw [Value.toBinary_of_isBinary hv]
    exact .lift_bind (hg v rfl hv)

/-- The reading of several binary operands is the reason if one of them is not binary. -/
theorem toBinaries_failsIf (hargs : ∀ x ∈ args, x.IsOrdinary) {context : String}
    {g : List (Variable (Extended F)) → Build (Extended F) (Value (Extended F))}
    (hR : (∃ x ∈ args, x.isBinary = false) → ∀ k, R k ↔ k = .invalidVariableKind)
    (hg : (∀ x ∈ args, x.isBinary = true) → ∀ vs, FailsIf (g vs) m R) :
    FailsIf (liftM (Value.toBinaries context args) >>= g) m R := by
  by_cases hb : ∃ x ∈ args, x.isBinary = false
  · exact (FailsWith.bind (.lift (Value.exists_toBinaries_eq_error hargs hb context))).failsIf (hR hb)
  · have hall : ∀ x ∈ args, x.isBinary = true := fun x hx =>
      eq_true_of_ne_false fun h => hb ⟨x, hx, h⟩
    obtain ⟨vs, hvs⟩ := Value.exists_toBinaries hall context
    rw [hvs]
    exact .lift_bind (hg hall vs)

/-- A connective is refused for its operands only. -/
theorem connective_failsIf {context : String} (hargs : ∀ x ∈ Value.operands args, x.IsOrdinary)
    {g : List (Variable (Extended F)) → Build (Extended F) (Value (Extended F))}
    (hg : ∀ vs, Succeeds (g vs) m fun _ _ => True) :
    FailsIf (connective context args >>= g) m fun k =>
      (Value.operands args = [] ∧ k = .invalidArity) ∨
        ((∃ x ∈ Value.operands args, x.isBinary = false) ∧ k = .invalidVariableKind) := by
  cases hn : Value.operands args with
  | nil =>
    refine FailsWith.failsIf (k := .invalidArity) (.bind ?_) fun k' => by simp
    rw [connective, hn]
    exact .throw (.noOperands context)
  | cons z zs =>
    have hread : connective context args = liftM (Value.toBinaries context (z :: zs)) := by
      rw [connective, hn]
      rfl
    rw [hn] at hargs
    rw [hread]
    refine toBinaries_failsIf hargs (fun hb k => ?_) fun hall vs => (hg vs).failsIf fun k => ?_
    · simp only [reduceCtorEq, false_and, false_or]
      exact and_iff_right hb
    · rintro (⟨h, -⟩ | ⟨⟨x, hx, hb⟩, -⟩)
      · cases h
      · exact Bool.false_ne_true (hb.symm.trans (hall x hx))

variable [IsStrictOrderedRing F]

theorem conjunction_failsIf (hargs : ∀ x ∈ Value.operands args, x.IsOrdinary) :
    FailsIf (perform (.conjunction args)) m ((Model.Call.conjunction args).Refuses m) := by
  refine connective_failsIf hargs fun vs => ?_
  -- A single operand is the answer itself, and only several ones make a new variable.
  rcases vs with _ | ⟨v, _ | ⟨w, vs⟩⟩
  · exact .map ((conjunction_spec [] m).mono fun _ _ _ => trivial)
  · exact .pure trivial
  · exact .map ((conjunction_spec _ m).mono fun _ _ _ => trivial)

theorem disjunction_failsIf (hargs : ∀ x ∈ Value.operands args, x.IsOrdinary) :
    FailsIf (perform (.disjunction args)) m ((Model.Call.disjunction args).Refuses m) := by
  refine connective_failsIf hargs fun vs => ?_
  rcases vs with _ | ⟨v, _ | ⟨w, vs⟩⟩
  · exact .map ((disjunction_spec [] m).mono fun _ _ _ => trivial)
  · exact .pure trivial
  · exact .map ((disjunction_spec _ m).mono fun _ _ _ => trivial)

theorem negation_failsIf (hx : x.IsOrdinary) :
    FailsIf (perform (.negation x)) m ((Model.Call.negation x).Refuses m) := by
  refine toBinary_failsIf hx (fun hb k => and_iff_right hb) ?_
  rintro v rfl hv
  exact .map ((negation_spec v m).failsIf fun k h => Bool.false_ne_true (h.1.symm.trans hv))

omit [IsStrictOrderedRing F] in
theorem implication_failsIf (hx : x.IsOrdinary) (hy : y.IsOrdinary) :
    FailsIf (perform (.implication x y)) m ((Model.Call.implication x y).Refuses m) := by
  refine toBinary_failsIf hx (fun hb k => and_iff_right (.inl hb)) ?_
  rintro v rfl hv
  refine toBinary_failsIf hy (fun hb k => and_iff_right (.inr hb)) ?_
  rintro w rfl hw
  refine Succeeds.failsIf (P := fun _ _ => True) (.bind (implication_spec v w m) fun c n _ => ?_)
    fun k h => ?_
  · exact (lastRow_spec c n).mono fun _ _ _ => trivial
  · rcases h.1 with h | h
    · exact Bool.false_ne_true (h.symm.trans hv)
    · exact Bool.false_ne_true (h.symm.trans hw)

omit [IsStrictOrderedRing F] in
theorem cardinality_failsIf {r : Relation} {bound : Value (Extended F)} (hbound : bound.IsNumber)
    (hargs : ∀ x ∈ Value.operands args, x.IsOrdinary) :
    FailsIf (perform (.cardinality r bound args)) m
      ((Model.Call.cardinality r bound args).Refuses m) := by
  obtain ⟨s, rfl, hs⟩ := hbound
  rw [perform, cardinality, hs.toNumber_eq_ok, bind_assoc]
  refine toBinaries_failsIf hargs (fun hb k => and_iff_right hb) fun hall vs => ?_
  refine Succeeds.failsIf (P := fun _ _ => True) ?_ fun k => ?_
  · rw [bind_assoc]
    refine .lift_bind (.bind (register_spec rfl m) fun c n _ => ?_)
    exact (lastRow_spec c n).mono fun _ _ _ => trivial
  · rintro ⟨⟨x, hx, hb⟩, -⟩
    exact Bool.false_ne_true (hb.symm.trans (hall x hx))

omit [IsStrictOrderedRing F] in
/-- Two texts name an encoding. -/
theorem toEncoding_cases {s : String} :
    ((Value.text s : Value (Extended F)).IsEncoding ∧
      ∃ e, toEncoding (.text s : Value (Extended F)) = .ok e) ∨
    (¬(Value.text s : Value (Extended F)).IsEncoding ∧
      ∃ f, toEncoding (.text s : Value (Extended F)) = .error f ∧ f.kind = .value) := by
  have heq : ∀ t, (Value.text s : Value (Extended F)).isEqual (.text t) = .ok (s == t) := by
    intro t
    simp [Value.isEqual, Value.compare?, Value.linear?, Value.sameKey_text]
  have hencoding : (Value.text s : Value (Extended F)).IsEncoding ↔
      s = "constraints" ∨ s = "compact" := by
    simp [Value.IsEncoding]
  rw [hencoding, toEncoding, heq, heq]
  by_cases h₁ : s = "constraints"
  · exact .inl ⟨.inl h₁, .inequalities, by rw [h₁]; rfl⟩
  · by_cases h₂ : s = "compact"
    · exact .inl ⟨.inr h₂, .compact, by rw [h₂]; rfl⟩
    · refine .inr ⟨not_or.2 ⟨h₁, h₂⟩, .unknownEncoding (quoted s), ?_, rfl⟩
      rw [beq_false_of_ne h₁, beq_false_of_ne h₂]
      rfl

theorem exclusive_failsIf {encoding : Value (Extended F)} (hx : x.IsOrdinary) (hy : y.IsOrdinary)
    (hencoding : ∃ s, encoding = .text s) :
    FailsIf (perform (.exclusive x y encoding)) m
      ((Model.Call.exclusive x y encoding).Refuses m) := by
  obtain ⟨s, rfl⟩ := hencoding
  obtain ⟨hs, e, he⟩ | ⟨hs, hread⟩ := toEncoding_cases (F := F) (s := s)
  · have hrefuses : ∀ k, (Model.Call.exclusive x y (.text s)).Refuses m k ↔
        (x.isBinary = false ∨ y.isBinary = false) ∧ k = .invalidVariableKind := by
      intro k
      simp [Model.Call.Refuses, hs]
    rw [perform, he]
    -- The encoding has been read, and the operands are read one after the other.
    refine .lift_bind (toBinary_failsIf hx (fun hb k => ?_) ?_)
    · rw [hrefuses]
      exact and_iff_right (.inl hb)
    rintro v rfl hv
    refine toBinary_failsIf hy (fun hb k => ?_) ?_
    · rw [hrefuses]
      exact and_iff_right (.inr hb)
    rintro w rfl hw
    refine .map ((exclusive_spec e v w m).failsIf fun k h => ?_)
    rcases ((hrefuses k).1 h).1 with h | h
    · exact Bool.false_ne_true (h.symm.trans hv)
    · exact Bool.false_ne_true (h.symm.trans hw)
  · refine (FailsWith.bind (.lift hread)).failsIf fun k => ?_
    simp [Model.Call.Refuses, hs]

end Logic

end Build

end MixedInteger
