import MixedInteger.Proofs.Fallible
import MixedInteger.Model.Build

/-!
# Running building steps

A building step reads and changes a model and may fail.  This file says what the combinators of
steps do to a model, so that no later proof has to look behind `Build`.

## What is here

* `Build.exec` — the answer of a step on a model, and the model after it, with one equation for each
  combinator.
* `Build.exec_bind_eq_ok`, `Build.exec_bind_eq_error` — what a sequence of two steps that succeeds or
  fails says about the two.
* `Model.SameContent` — two models that say the same.
* `Build.Succeeds`, `Build.AllOrNothing` — a step that cannot fail, and one that changes nothing when
  it fails, with the rules by which they are put together.
-/

set_option autoImplicit false

namespace MixedInteger

variable {K α β : Type}

namespace Build

/-- What a step answers on a model, and the model after it. -/
def exec (x : Build K α) (m : Model K) : Except Fault α × Model K := (ExceptT.run x).run m

@[simp] theorem exec_pure (a : α) (m : Model K) : exec (pure a) m = (.ok a, m) := rfl

@[simp] theorem exec_throw (f : Fault) (m : Model K) :
    exec (throw f : Build K α) m = (.error f, m) := rfl

@[simp] theorem exec_liftM (x : Except Fault α) (m : Model K) : exec (liftM x) m = (x, m) := rfl

@[simp] theorem exec_get (m : Model K) : exec get m = (.ok m, m) := rfl

@[simp] theorem exec_set (m n : Model K) : exec (set n) m = (.ok ⟨⟩, n) := rfl

@[simp] theorem exec_modify (g : Model K → Model K) (m : Model K) :
    exec (modify g) m = (.ok ⟨⟩, g m) := rfl

theorem exec_bind (x : Build K α) (f : α → Build K β) (m : Model K) :
    exec (x >>= f) m = match exec x m with
      | (.ok a, n) => exec (f a) n
      | (.error e, n) => (.error e, n) := by
  simp only [exec, ExceptT.run_bind, StateT.run_bind]
  rcases (ExceptT.run x).run m with ⟨_ | _, _⟩ <;> rfl

theorem exec_bind_of_ok {x : Build K α} {m n : Model K} {a : α} (h : exec x m = (.ok a, n))
    (f : α → Build K β) : exec (x >>= f) m = exec (f a) n :=
  Fallible.exec_bind_of_ok h f

theorem exec_bind_of_error {x : Build K α} {m n : Model K} {e : Fault}
    (h : exec x m = (.error e, n)) (f : α → Build K β) : exec (x >>= f) m = (.error e, n) :=
  Fallible.exec_bind_of_error h f

theorem exec_bind_eq_ok {x : Build K α} {f : α → Build K β} {m m' : Model K} {b : β} :
    exec (x >>= f) m = (.ok b, m') ↔ ∃ a n, exec x m = (.ok a, n) ∧ exec (f a) n = (.ok b, m') :=
  Fallible.exec_bind_eq_ok

theorem exec_bind_eq_error {x : Build K α} {f : α → Build K β} {m m' : Model K} {e : Fault} :
    exec (x >>= f) m = (.error e, m') ↔ exec x m = (.error e, m') ∨
      ∃ a n, exec x m = (.ok a, n) ∧ exec (f a) n = (.error e, m') :=
  Fallible.exec_bind_eq_error

/-- Reading the elements of a list one after the other changes nothing. -/
theorem exec_mapM_lift (f : α → Except Fault β) (l : List α) (m : Model K) :
    exec (l.mapM fun x => (liftM (f x) : Build K β)) m = (l.mapM f, m) :=
  Fallible.exec_mapM_lift f l m

theorem exec_map (g : α → β) (x : Build K α) (m : Model K) :
    exec (g <$> x) m = ((exec x m).1.map g, (exec x m).2) :=
  Fallible.exec_map g x m

theorem exec_map_eq_error {g : α → β} {x : Build K α} {m m' : Model K} {e : Fault} :
    exec (g <$> x) m = (.error e, m') ↔ exec x m = (.error e, m') :=
  Fallible.exec_map_eq_error

end Build

namespace Model

/-- Two models say the same: they may differ in their counters only. -/
structure SameContent (m m' : Model K) : Prop where
  id_eq : m'.id = m.id
  name_eq : m'.name = m.name
  vars_eq : m'.vars = m.vars
  constraints_eq : m'.constraints = m.constraints
  rowNames_eq : m'.rowNames = m.rowNames
  objective_eq : m'.objective = m.objective
  direction_eq : m'.direction = m.direction

theorem SameContent.refl (m : Model K) : m.SameContent m := ⟨rfl, rfl, rfl, rfl, rfl, rfl, rfl⟩

theorem SameContent.trans {m n k : Model K} (h : m.SameContent n) (h' : n.SameContent k) :
    m.SameContent k :=
  ⟨h'.id_eq.trans h.id_eq, h'.name_eq.trans h.name_eq, h'.vars_eq.trans h.vars_eq,
   h'.constraints_eq.trans h.constraints_eq, h'.rowNames_eq.trans h.rowNames_eq,
   h'.objective_eq.trans h.objective_eq, h'.direction_eq.trans h.direction_eq⟩

end Model

namespace Build

/-! ## All or nothing -/

/-- The step succeeds on a model, with an answer and a model after it as described. -/
def Succeeds (x : Build K α) (m : Model K) (P : α → Model K → Prop) : Prop :=
  ∃ a m', exec x m = (.ok a, m') ∧ P a m'

/-- The step succeeds as described, or it fails and the model says what it said before. -/
def AllOrNothing (x : Build K α) (m : Model K) (P : α → Model K → Prop) : Prop :=
  Succeeds x m P ∨ ∃ e m', exec x m = (.error e, m') ∧ m.SameContent m'

variable {x : Build K α} {f : α → Build K β} {m : Model K} {R : α → Model K → Prop}
  {P : β → Model K → Prop}

namespace Succeeds

theorem pure {a : α} (h : R a m) : Succeeds (pure a) m R := ⟨a, m, rfl, h⟩

theorem mono {R' : α → Model K → Prop} (hx : Succeeds x m R) (h : ∀ a n, R a n → R' a n) :
    Succeeds x m R' := by
  obtain ⟨a, n, ha, hR⟩ := hx
  exact ⟨a, n, ha, h a n hR⟩

theorem bind (hx : Succeeds x m R) (hf : ∀ a n, R a n → Succeeds (f a) n P) :
    Succeeds (x >>= f) m P := by
  obtain ⟨a, n, ha, hR⟩ := hx
  obtain ⟨b, m', hb, hP⟩ := hf a n hR
  exact ⟨b, m', by rw [exec_bind_of_ok ha, hb], hP⟩

theorem lift_bind {a : α} (hf : Succeeds (f a) m P) :
    Succeeds (liftM (Except.ok a : Except Fault α) >>= f) m P := by
  obtain ⟨b, m', hb, hP⟩ := hf
  exact ⟨b, m', by rw [exec_bind_of_ok (exec_liftM _ m), hb], hP⟩

/-- A list that can be read is read first. -/
theorem mapM_lift_bind {γ : Type} {l : List γ} {g : γ → Except Fault α} {as : List α}
    {f : List α → Build K β} (h : l.mapM g = .ok as) (hf : Succeeds (f as) m P) :
    Succeeds ((l.mapM fun x => (liftM (g x) : Build K α)) >>= f) m P := by
  obtain ⟨b, m', hb, hP⟩ := hf
  exact ⟨b, m', by rw [exec_bind_of_ok (by rw [exec_mapM_lift, h]), hb], hP⟩

theorem map {g : α → β} (hx : Succeeds x m fun a n => P (g a) n) : Succeeds (g <$> x) m P := by
  obtain ⟨a, n, ha, hP⟩ := hx
  exact ⟨g a, n, by rw [exec_map, ha]; rfl, hP⟩

theorem discard {P : PUnit → Model K → Prop} (hx : Succeeds x m fun _ n => P ⟨⟩ n) :
    Succeeds (discard x) m P :=
  map hx

theorem allOrNothing (hx : Succeeds x m R) : AllOrNothing x m R := .inl hx

end Succeeds

namespace AllOrNothing

theorem throw (e : Fault) : AllOrNothing (throw e : Build K α) m R := .inr ⟨e, m, rfl, .refl m⟩

theorem lift {r : Except Fault α} (h : ∀ a, r = .ok a → R a m) :
    AllOrNothing (liftM r : Build K α) m R := by
  rcases r with e | a
  · exact .inr ⟨e, m, rfl, .refl m⟩
  · exact .inl ⟨a, m, rfl, h a rfl⟩

theorem mono {R' : α → Model K → Prop} (hx : AllOrNothing x m R) (h : ∀ a n, R a n → R' a n) :
    AllOrNothing x m R' :=
  hx.imp_left fun hx => hx.mono h

/-- After a step that changes nothing, another one may still fail. -/
theorem bind (hx : AllOrNothing x m R) (hR : ∀ a n, R a n → m.SameContent n)
    (hf : ∀ a n, R a n → AllOrNothing (f a) n P) : AllOrNothing (x >>= f) m P := by
  rcases hx with ⟨a, n, ha, h⟩ | ⟨e, n, he, hs⟩
  · rcases hf a n h with ⟨b, m', hb, hP⟩ | ⟨e, m', he, hs⟩
    · exact .inl ⟨b, m', by rw [exec_bind_of_ok ha, hb], hP⟩
    · exact .inr ⟨e, m', by rw [exec_bind_of_ok ha, he], (hR a n h).trans hs⟩
  · exact .inr ⟨e, n, exec_bind_of_error he f, hs⟩

theorem lift_bind {r : Except Fault α} (hf : ∀ a, r = .ok a → AllOrNothing (f a) m P) :
    AllOrNothing (liftM r >>= f) m P := by
  refine bind (lift (R := fun a n => r = .ok a ∧ n = m) fun a ha => ⟨ha, rfl⟩) ?_ ?_
  · rintro a n ⟨-, rfl⟩
    exact .refl n
  · rintro a n ⟨ha, rfl⟩
    exact hf a ha

theorem mapM_lift_bind {γ : Type} {l : List γ} {g : γ → Except Fault α} {f : List α → Build K β}
    (hf : ∀ as, l.mapM g = .ok as → AllOrNothing (f as) m P) :
    AllOrNothing ((l.mapM fun x => (liftM (g x) : Build K α)) >>= f) m P := by
  rcases h : l.mapM g with e | as
  · exact .inr ⟨e, m, exec_bind_of_error (by rw [exec_mapM_lift, h]) f, .refl m⟩
  · refine bind (R := fun bs n => bs = as ∧ n = m) (.inl ⟨as, m, ?_, rfl, rfl⟩) ?_ ?_
    · rw [exec_mapM_lift, h]
    · rintro _ n ⟨-, rfl⟩
      exact .refl n
    · rintro _ n ⟨rfl, rfl⟩
      exact hf _ h

/-- After a step that changes something, all others have to succeed. -/
theorem bind_succeeds (hx : AllOrNothing x m R) (hf : ∀ a n, R a n → Succeeds (f a) n P) :
    AllOrNothing (x >>= f) m P := by
  rcases hx with hx | ⟨e, n, he, hs⟩
  · exact .inl (hx.bind hf)
  · exact .inr ⟨e, n, exec_bind_of_error he f, hs⟩

theorem map {g : α → β} (hx : AllOrNothing x m fun a n => P (g a) n) :
    AllOrNothing (g <$> x) m P := by
  rcases hx with hx | ⟨e, n, he, hs⟩
  · exact .inl hx.map
  · exact .inr ⟨e, n, exec_map_eq_error.2 he, hs⟩

/-- What is known of a step that has succeeded. -/
theorem of_ok (hx : AllOrNothing x m R) {a : α} {m' : Model K} (h : exec x m = (.ok a, m')) :
    R a m' := by
  rcases hx with ⟨b, n, hb, hR⟩ | ⟨e, n, he, -⟩
  · rw [h] at hb
    cases hb
    exact hR
  · rw [h] at he
    cases he

/-- What is known of a step that has failed. -/
theorem of_error (hx : AllOrNothing x m R) {e : Fault} {m' : Model K}
    (h : exec x m = (.error e, m')) : m.SameContent m' := by
  rcases hx with ⟨b, n, hb, -⟩ | ⟨e, n, he, hs⟩
  · rw [h] at hb
    cases hb
  · rw [h] at he
    cases he
    exact hs

/-- Whether it succeeds or not, such a step takes a model to a related one. -/
theorem moves {S : Model K → Model K → Prop} (hsame : ∀ {m n : Model K}, m.SameContent n → S m n)
    {x : Build K α} {P : Model K → α → Model K → Prop} (h : ∀ m, AllOrNothing x m (P m))
    (hP : ∀ m a n, P m a n → S m n) : Fallible.Moves S x := by
  intro m
  change S m (exec x m).2
  rcases h m with ⟨a, n, hx, ha⟩ | ⟨e, n, hx, hs⟩
  · rw [hx]
    exact hP m a n ha
  · rw [hx]
    exact hsame hs

end AllOrNothing

end Build

end MixedInteger
