import MixedInteger.Proofs.Fallible
import MixedInteger.Session.State

/-!
# Steps of a session

## What is here

* `Session.settingsGiven` — the settings that an argument refers to.
* `Run.exec_onWorld`, `Run.exec_onModel` — steps of a part of the session as steps of the session.
* `Session.SameWorld` — nothing happens around the engines, as when records and solutions are made.
-/

set_option autoImplicit false

namespace MixedInteger

variable {K : Type} [Arithmetic K]

open Fallible

/-- The settings that an optional argument refers to, or the fault of reading something else as
settings. -/
def Session.settingsGiven (s : Session K) : Value K → Except Fault (Settings K)
  | .none => .ok Settings.standard
  | .handle h _ =>
    match s.record? h with
    | some r => .ok r
    | none => .error .missingProperty
  | _ => .error .missingProperty

namespace Run

/-- Looking for settings cannot fail, and changes nothing. -/
theorem exec_settingsOf (v : Value K) (s : Session K) :
    exec (settingsOf v) s = (.ok (s.settingsGiven v), s) := by
  cases v with
  | handle h p =>
    simp only [settingsOf, exec_bind, exec_get, Session.settingsGiven]
    cases s.record? h <;> rfl
  | _ => rfl

omit [Arithmetic K] in
theorem exec_model (id : Nat) (s : Session K) : exec (model id) s =
    match s.models[id]? with
      | some m => (.ok m, s)
      | none => (.error .missingProperty, s) := by
  rw [model, exec_bind_of_ok (exec_get s)]
  cases s.models[id]? <;> rfl

omit [Arithmetic K] in
theorem exec_onWorld {α : Type} (step : Ask K α) (s : Session K) :
    exec (onWorld step) s = ((exec step s.world).1, { s with world := (exec step s.world).2 }) :=
  rfl

omit [Arithmetic K] in
/-- A step on a model that is not there changes nothing. -/
theorem exec_onModel {α : Type} (id : Nat) (step : Build K α) (s : Session K) :
    exec (onModel id step) s = match s.models[id]? with
      | some m => ((exec step m).1, { s with models := s.models.set id (exec step m).2 })
      | none => (.error .missingProperty, s) := by
  simp only [onModel, model, exec_bind, exec_get]
  cases s.models[id]? <;> rfl

end Run

/-! ## Steps that do not reach the engines -/

/-- Nothing happens around the engines. -/
def Session.SameWorld (s s' : Session K) : Prop := s'.world = s.world

omit [Arithmetic K] in
instance : IsPreorder (Session K) Session.SameWorld where
  refl _ := rfl
  trans _ _ _ h h' := h'.trans h

namespace Run

omit [Arithmetic K] in
theorem part_moves {α : Type} (x : Option α) :
    Moves Session.SameWorld (part x : Run K α) := by
  cases x with
  | none => exact .throw _
  | some a => exact .pure a

theorem handleTo_moves (h : Handle) : Moves Session.SameWorld (handleTo h : Run K (Value K)) :=
  .bind .get fun _ => .pure _

theorem record_moves (h : Handle) : Moves Session.SameWorld (record h : Run K (Record K)) :=
  .bind .get fun _ => part_moves _

theorem nameOf_moves (v : Value K) : Moves Session.SameWorld (nameOf v) := by
  cases v with
  | handle h p =>
    cases h with
    | model id => exact .bind (.bind .get fun _ => part_moves _) fun _ => .pure _
    | _ => exact .bind .get fun _ => .pure _
  | _ => exact .pure _

theorem keepFields_moves (r : Record K) : Moves Session.SameWorld (keepFields r) :=
  fun _ => rfl

theorem addRecord_moves (start : Record K) (filling : Filling K Unit) :
    Moves Session.SameWorld (addRecord start filling) := by
  refine .bind (keepFields_moves _) fun table => .bind (.lift _) fun _ => .bind .get fun s =>
    .bind (.modify fun _ => rfl) fun _ => ?_
  split
  · exact handleTo_moves _
  · exact handleTo_moves _

theorem addOutcome_moves (o : Outcome K) : Moves Session.SameWorld (addOutcome o) :=
  addRecord_moves _ _

theorem addSolution_moves (report : Handle) (vars : Value K) :
    Moves Session.SameWorld (addSolution report vars) := by
  have hkeep : ∀ values : List (Value K × Value K), Moves Session.SameWorld (do
      let id := (← get).solutions.length
      modify fun s => { s with solutions := s.solutions ++ [⟨report, values⟩] }
      handleTo (.solution id) : Run K (Value K)) := fun values =>
    .bind .get fun _ => .bind (.modify fun _ => rfl) fun _ => handleTo_moves _
  have hname : ∀ v : Value K, Moves Session.SameWorld (do return (v, ← nameOf v) : Run K _) :=
    fun v => .bind (nameOf_moves v) fun name => .pure _
  exact .bind (record_moves report) fun r => .bind (.lift _) fun raw => .ite
    (.bind (.lift _) fun vs => .bind (.mapM fun v _ => hname v) fun named => .bind (.lift _) hkeep)
    (.bind (.pure _) hkeep)

omit [Arithmetic K] in
/-- What happens around the engines happens in the step that reaches them. -/
theorem world_onWorld_bind {α β : Type} {rest : α → Run K β}
    (hrest : ∀ a, Moves Session.SameWorld (rest a)) (x : Ask K α) (s : Session K) :
    (exec (onWorld x >>= rest) s).2.world = (exec x s.world).2 := by
  rw [exec_bind, exec_onWorld]
  rcases exec x s.world with ⟨f | a, w⟩
  · rfl
  · exact hrest a _

omit [Arithmetic K] in
theorem exec_onWorld_bind_of_error {α β : Type} {x : Ask K α} {s : Session K} {f : Fault}
    {w : World K} (h : exec x s.world = (.error f, w)) (rest : α → Run K β) :
    exec (onWorld x >>= rest) s = (.error f, { s with world := w }) := by
  rw [exec_bind, exec_onWorld, h]

end Run

end MixedInteger
