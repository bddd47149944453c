import MixedInteger.Fault
import Mathlib

/-!
# Fallible steps

A step that changes a state and may fail keeps what it has changed when it fails.  Building a model,
asking an engine and acting in a session are such steps.  This file says what the combinators of
steps do to a state, whatever the state is.

## What is here

* `bind_eq_ok`, `forall₂_of_mapM_eq_ok` — what a reading of several things that succeeds says about
  each of them.
* `Fallible.exec` — the answer of a step in a state, and the state after it, with one equation for
  each combinator.
* `Fallible.Moves` — every state is related to the one after it, whether the step fails or not, with
  the rules by which such steps are put together.
* `Fallible.Commutes` — a change of the state does not matter to a step.
* `Fallible.Answers` — what a step answers has a property.
-/

set_option autoImplicit false

namespace MixedInteger

variable {σ α β : Type}

/-- A reading in two steps that succeeds. -/
theorem bind_eq_ok {x : Except Fault α} {f : α → Except Fault β} {b : β} :
    (x >>= f) = .ok b ↔ ∃ a, x = .ok a ∧ f a = .ok b := by
  rcases x with e | a
  · constructor
    · intro h
      cases h
    · rintro ⟨_, ⟨⟩, -⟩
  · constructor
    · intro h
      exact ⟨a, rfl, h⟩
    · rintro ⟨_, ⟨⟩, h⟩
      exact h

/-- What has been read from the elements of a list, one by one. -/
theorem forall₂_of_mapM_eq_ok {f : α → Except Fault β} {l : List α} {bs : List β}
    (h : l.mapM f = .ok bs) : List.Forall₂ (fun a b => f a = .ok b) l bs := by
  induction l generalizing bs with
  | nil =>
    cases h
    exact .nil
  | cons a l ih =>
    rw [List.mapM_cons] at h
    obtain ⟨b, hb, h⟩ := bind_eq_ok.1 h
    obtain ⟨cs, hcs, h⟩ := bind_eq_ok.1 h
    cases h
    exact .cons hb (ih hcs)

/-- Elements that can be read one by one can be read as a list. -/
theorem mapM_eq_ok_of_forall₂ {f : α → Except Fault β} {l : List α} {bs : List β}
    (h : List.Forall₂ (fun a b => f a = .ok b) l bs) : l.mapM f = .ok bs := by
  induction h with
  | nil => rfl
  | cons hab _ ih =>
    rw [List.mapM_cons, hab, ih]
    rfl

/-- If everything on the left has a partner, there is a list of partners. -/
theorem exists_forall₂ {R : α → β → Prop} {as : List α} (h : ∀ a ∈ as, ∃ b, R a b) :
    ∃ bs, List.Forall₂ R as bs := by
  induction as with
  | nil => exact ⟨[], .nil⟩
  | cons a as ih =>
    obtain ⟨⟨b, hab⟩, has⟩ := List.forall_mem_cons.1 h
    obtain ⟨bs, hbs⟩ := ih has
    exact ⟨b :: bs, .cons hab hbs⟩

/-- Everything on the right of a relation between two lists has a partner on the left. -/
theorem exists_of_forall₂ {R : α → β → Prop} {as : List α} {bs : List β}
    (h : List.Forall₂ R as bs) {b : β} (hb : b ∈ bs) : ∃ a ∈ as, R a b := by
  induction h with
  | nil => cases hb
  | @cons a c as bs hac _ ih =>
    rcases List.mem_cons.1 hb with rfl | hb
    · exact ⟨a, List.mem_cons_self, hac⟩
    · obtain ⟨d, hd, hdb⟩ := ih hb
      exact ⟨d, List.mem_cons_of_mem a hd, hdb⟩

/-- A step that changes a state and may fail. -/
abbrev Fallible (σ α : Type) := ExceptT Fault (StateM σ) α

namespace Fallible

/-- What a step answers in a state, and the state after it. -/
def exec (x : Fallible σ α) (s : σ) : Except Fault α × σ := (ExceptT.run x).run s

@[simp] theorem exec_pure (a : α) (s : σ) : exec (pure a) s = (.ok a, s) := rfl

@[simp] theorem exec_throw (f : Fault) (s : σ) :
    exec (throw f : Fallible σ α) s = (.error f, s) := rfl

@[simp] theorem exec_liftM (x : Except Fault α) (s : σ) :
    exec (liftM x : Fallible σ α) s = (x, s) := rfl

@[simp] theorem exec_get (s : σ) : exec get s = (.ok s, s) := rfl

@[simp] theorem exec_set (s t : σ) : exec (set t) s = (.ok ⟨⟩, t) := rfl

@[simp] theorem exec_modify (g : σ → σ) (s : σ) : exec (modify g) s = (.ok ⟨⟩, g s) := rfl

@[simp] theorem exec_ite {p : Prop} [Decidable p] (x y : Fallible σ α) (s : σ) :
    exec (if p then x else y) s = if p then exec x s else exec y s := by
  split <;> rfl

theorem exec_bind (x : Fallible σ α) (f : α → Fallible σ β) (s : σ) :
    exec (x >>= f) s = match exec x s with
      | (.ok a, t) => exec (f a) t
      | (.error e, t) => (.error e, t) := by
  simp only [exec, ExceptT.run_bind, StateT.run_bind]
  rcases (ExceptT.run x).run s with ⟨_ | _, _⟩ <;> rfl

theorem exec_bind_of_ok {x : Fallible σ α} {s t : σ} {a : α} (h : exec x s = (.ok a, t))
    (f : α → Fallible σ β) : exec (x >>= f) s = exec (f a) t := by
  rw [exec_bind, h]

theorem exec_bind_of_error {x : Fallible σ α} {s t : σ} {e : Fault}
    (h : exec x s = (.error e, t)) (f : α → Fallible σ β) :
    exec (x >>= f) s = (.error e, t) := by
  rw [exec_bind, h]

theorem exec_bind_eq_ok {x : Fallible σ α} {f : α → Fallible σ β} {s u : σ} {b : β} :
    exec (x >>= f) s = (.ok b, u) ↔ ∃ a t, exec x s = (.ok a, t) ∧ exec (f a) t = (.ok b, u) := by
  rw [exec_bind]
  rcases exec x s with ⟨e | a, t⟩
  · simp
  · constructor
    · intro h
      exact ⟨a, t, rfl, h⟩
    · rintro ⟨_, _, ⟨⟩, h⟩
      exact h

theorem exec_bind_eq_error {x : Fallible σ α} {f : α → Fallible σ β} {s u : σ} {e : Fault} :
    exec (x >>= f) s = (.error e, u) ↔ exec x s = (.error e, u) ∨
      ∃ a t, exec x s = (.ok a, t) ∧ exec (f a) t = (.error e, u) := by
  rw [exec_bind]
  rcases exec x s with ⟨d | a, t⟩
  · simp
  · constructor
    · intro h
      exact .inr ⟨a, t, rfl, h⟩
    · rintro (h | ⟨_, _, ⟨⟩, h⟩)
      · cases h
      · exact h

theorem exec_map (g : α → β) (x : Fallible σ α) (s : σ) :
    exec (g <$> x) s = ((exec x s).1.map g, (exec x s).2) := by
  rw [map_eq_pure_bind, exec_bind]
  rcases exec x s with ⟨_ | _, _⟩ <;> rfl

theorem exec_map_eq_ok {g : α → β} {x : Fallible σ α} {s t : σ} {b : β} :
    exec (g <$> x) s = (.ok b, t) ↔ ∃ a, exec x s = (.ok a, t) ∧ g a = b := by
  rw [exec_map]
  rcases exec x s with ⟨e | a, u⟩
  · simp [Except.map]
  · constructor
    · rintro ⟨⟩
      exact ⟨a, rfl, rfl⟩
    · rintro ⟨_, ⟨⟩, rfl⟩
      rfl

theorem exec_map_eq_error {g : α → β} {x : Fallible σ α} {s t : σ} {e : Fault} :
    exec (g <$> x) s = (.error e, t) ↔ exec x s = (.error e, t) := by
  rw [exec_map]
  rcases exec x s with ⟨d | a, u⟩
  · simp [Except.map]
  · simp [Except.map]

/-- What is made of an answer does not matter to whether there is one. -/
theorem exec_bind_pure_isOk (g : α → β) (x : Fallible σ α) (s : σ) :
    (exec (x >>= fun a => pure (g a)) s).1.isOk = (exec x s).1.isOk := by
  rw [exec_bind]
  rcases exec x s with ⟨_ | _, _⟩ <;> rfl

/-- A handler sees the state that the failed step has left. -/
theorem exec_tryCatch (x : Fallible σ α) (f : Fault → Fallible σ α) (s : σ) :
    exec (tryCatch x f) s = match exec x s with
      | (.ok a, t) => (.ok a, t)
      | (.error e, t) => exec (f e) t := by
  change (ExceptT.run (tryCatch x f)).run s = _
  simp only [exec, ExceptT.run_tryCatch, StateT.run_bind]
  rcases (ExceptT.run x).run s with ⟨_ | _, _⟩ <;> rfl

/-- What is done finally is done in any case; its own failure wins. -/
theorem exec_tryFinally (x : Fallible σ α) (y : Fallible σ β) (s : σ) :
    exec (tryFinally x y) s = match exec y (exec x s).2 with
      | (.ok _, t) => ((exec x s).1, t)
      | (.error e, t) => (.error e, t) := by
  simp only [exec, tryFinally, tryFinally', ExceptT.run, StateT.run, Functor.map, ExceptT.map,
    ExceptT.mk, bind, StateT.bind]
  rcases x s with ⟨_ | _, t⟩ <;> rcases hy : y t with ⟨_ | _, u⟩
  all_goals
    simp only [hy]
    rfl

/-- Reading the elements of a list one after the other changes nothing. -/
theorem exec_mapM_lift (f : α → Except Fault β) (l : List α) (s : σ) :
    exec (l.mapM fun x => (liftM (f x) : Fallible σ β)) s = (l.mapM f, s) := by
  induction l with
  | nil => rfl
  | cons x l ih =>
    rw [List.mapM_cons, List.mapM_cons, exec_bind, exec_liftM]
    rcases f x with e | b
    · rfl
    · simp only [exec_bind, ih]
      rcases l.mapM f with e | bs
      · rfl
      · rfl

/-- Reading one thing after the other changes nothing. -/
theorem exec_liftM_bind {x : Except Fault α} {f : α → Fallible σ β} {g : α → Except Fault β} {s : σ}
    (h : ∀ a, exec (f a) s = (g a, s)) : exec (liftM x >>= f) s = (x >>= g, s) := by
  rw [exec_bind, exec_liftM]
  rcases x with e | a
  · rfl
  · exact h a

/-- A step that begins with reading something and succeeds. -/
theorem exec_liftM_bind_eq_ok {x : Except Fault α} {f : α → Fallible σ β} {s u : σ} {b : β} :
    exec (liftM x >>= f) s = (.ok b, u) ↔ ∃ a, x = .ok a ∧ exec (f a) s = (.ok b, u) := by
  rw [exec_bind, exec_liftM]
  rcases x with e | a
  · simp
  · simp

/-- Steps that only read answer for all elements of a list. -/
theorem exec_mapM_of_ok {f : α → Fallible σ β} {g : α → β} {s : σ} {l : List α}
    (h : ∀ a ∈ l, exec (f a) s = (.ok (g a), s)) : exec (l.mapM f) s = (.ok (l.map g), s) := by
  induction l with
  | nil => rfl
  | cons a l ih =>
    rw [List.forall_mem_cons] at h
    rw [List.mapM_cons, exec_bind_of_ok h.1, exec_bind_of_ok (ih h.2)]
    rfl

/-- Whether the step fails or not, the state is related to the one after it. -/
def Moves (R : σ → σ → Prop) (x : Fallible σ α) : Prop := ∀ s, R s (exec x s).2

namespace Moves

variable {R : σ → σ → Prop}

theorem modify {g : σ → σ} (h : ∀ s, R s (g s)) : Moves R (modify g : Fallible σ PUnit) := h

theorem map (g : α → β) {x : Fallible σ α} (hx : Moves R x) : Moves R (g <$> x) := by
  intro s
  rw [exec_map]
  exact hx s

theorem ite {p : Prop} [Decidable p] {x y : Fallible σ α} (hx : Moves R x) (hy : Moves R y) :
    Moves R (if p then x else y) := by
  split
  · exact hx
  · exact hy

variable [IsPreorder σ R]

theorem pure (a : α) : Moves R (pure a : Fallible σ α) := fun s => refl_of R s

theorem throw (f : Fault) : Moves R (throw f : Fallible σ α) := fun s => refl_of R s

theorem lift (x : Except Fault α) : Moves R (liftM x : Fallible σ α) := fun s => refl_of R s

theorem get : Moves R (MonadState.get : Fallible σ σ) := fun s => refl_of R s

theorem bind {x : Fallible σ α} {f : α → Fallible σ β} (hx : Moves R x)
    (hf : ∀ a, Moves R (f a)) : Moves R (x >>= f) := by
  intro s
  have hs := hx s
  rw [exec_bind]
  rcases h : exec x s with ⟨e | a, t⟩ <;> rw [h] at hs
  · exact hs
  · exact trans_of R hs (hf a t)

theorem lift_bind {x : Except Fault α} {f : α → Fallible σ β}
    (hf : ∀ a, x = .ok a → Moves R (f a)) : Moves R (liftM x >>= f) := by
  rcases x with e | a
  · exact fun s => refl_of R s
  · exact hf a rfl

theorem tryFinally {x : Fallible σ α} {y : Fallible σ β} (hx : Moves R x) (hy : Moves R y) :
    Moves R (tryFinally x y) := by
  intro s
  have hs := trans_of R (hx s) (hy (exec x s).2)
  rw [exec_tryFinally]
  rcases h : exec y (exec x s).2 with ⟨_ | _, t⟩ <;> rw [h] at hs
  · exact hs
  · exact hs

theorem mapM {f : α → Fallible σ β} {l : List α} (hf : ∀ a ∈ l, Moves R (f a)) :
    Moves R (l.mapM f) := by
  induction l with
  | nil => exact .pure _
  | cons a l ih =>
    rw [List.mapM_cons]
    exact .bind (hf a List.mem_cons_self) fun b =>
      .bind (ih fun c hc => hf c (List.mem_cons_of_mem a hc)) fun bs => .pure _

theorem forIn {f : α → β → Fallible σ (ForInStep β)} {l : List α}
    (hf : ∀ a ∈ l, ∀ b, Moves R (f a b)) (b : β) : Moves R (forIn l b f) := by
  induction l generalizing b with
  | nil => exact .pure _
  | cons a l ih =>
    rw [List.forIn_cons]
    refine .bind (hf a List.mem_cons_self b) fun r => ?_
    cases r with
    | done => exact .pure _
    | yield c => exact ih (fun d hd => hf d (List.mem_cons_of_mem a hd)) c

end Moves

/-- A change of the state does not matter to a step: it answers the same, and the change is still
there afterwards. -/
def Commutes (g : σ → σ) (x : Fallible σ α) : Prop :=
  ∀ s, exec x (g s) = ((exec x s).1, g (exec x s).2)

namespace Commutes

variable {g : σ → σ}

theorem pure (a : α) : Commutes g (pure a : Fallible σ α) := fun _ => rfl

theorem throw (f : Fault) : Commutes g (throw f : Fallible σ α) := fun _ => rfl

theorem lift (x : Except Fault α) : Commutes g (liftM x : Fallible σ α) := fun _ => rfl

theorem modify {h : σ → σ} (hg : ∀ s, h (g s) = g (h s)) :
    Commutes g (modify h : Fallible σ PUnit) :=
  fun s => Prod.ext rfl (hg s)

theorem ite {p : Prop} [Decidable p] {x y : Fallible σ α} (hx : Commutes g x)
    (hy : Commutes g y) : Commutes g (if p then x else y) := by
  split
  · exact hx
  · exact hy

theorem bind {x : Fallible σ α} {f : α → Fallible σ β} (hx : Commutes g x)
    (hf : ∀ a, Commutes g (f a)) : Commutes g (x >>= f) := by
  intro s
  rw [exec_bind, exec_bind, hx s]
  rcases exec x s with ⟨e | a, t⟩
  · rfl
  · exact hf a t

/-- A step may look at the state, as long as the change is not seen. -/
theorem get_bind {f : σ → Fallible σ α} (hf : ∀ s, Commutes g (f s))
    (hg : ∀ s, f (g s) = f s) : Commutes g (MonadState.get >>= f) := by
  intro s
  rw [exec_bind_of_ok (exec_get _), exec_bind_of_ok (exec_get s), hg s]
  exact hf s s

theorem forIn {f : α → β → Fallible σ (ForInStep β)} {l : List α}
    (hf : ∀ a ∈ l, ∀ b, Commutes g (f a b)) (b : β) : Commutes g (forIn l b f) := by
  induction l generalizing b with
  | nil => exact .pure _
  | cons a l ih =>
    rw [List.forIn_cons]
    refine .bind (hf a List.mem_cons_self b) fun r => ?_
    cases r with
    | done => exact .pure _
    | yield c => exact ih (fun d hd => hf d (List.mem_cons_of_mem a hd)) c

end Commutes

/-- Whatever a step answers has a property. -/
def Answers (P : β → Prop) (x : Fallible σ β) : Prop := ∀ s b t, exec x s = (.ok b, t) → P b

namespace Answers

variable {P : β → Prop}

theorem pure {b : β} (h : P b) : Answers P (pure b : Fallible σ β) := by
  rintro s _ _ ⟨⟩
  exact h

theorem map {g : α → β} (h : ∀ a, P (g a)) (x : Fallible σ α) : Answers P (g <$> x) := by
  intro s b t hb
  obtain ⟨a, -, rfl⟩ := exec_map_eq_ok.1 hb
  exact h a

theorem bind {x : Fallible σ α} {f : α → Fallible σ β} (hf : ∀ a, Answers P (f a)) :
    Answers P (x >>= f) := by
  intro s b t hb
  obtain ⟨a, u, -, hb⟩ := exec_bind_eq_ok.1 hb
  exact hf a u b t hb

/-- The property may follow from one of what the first step answers. -/
theorem bind_of {Q : α → Prop} {x : Fallible σ α} (hx : Answers Q x) {f : α → Fallible σ β}
    (hf : ∀ a, Q a → Answers P (f a)) : Answers P (x >>= f) := by
  intro s b t hb
  obtain ⟨a, u, ha, hb⟩ := exec_bind_eq_ok.1 hb
  exact hf a (hx s a u ha) u b t hb

theorem throw (f : Fault) : Answers P (throw f : Fallible σ β) := by
  rintro s _ _ ⟨⟩

end Answers

end Fallible

end MixedInteger
