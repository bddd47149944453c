import MixedInteger.Proofs.Fallible
import MixedInteger.Engine.Solve

/-!
# Requests to an engine

What the steps on a loaded engine do to the world around it: as long as the engine is live they only
send it requests, and once it is released they do nothing at all.

## What is here

* `World.isReleased`, `World.requestsTo` — the state of one engine, and what it has been asked.
* `World.Asked` — nothing has happened but requests to one engine, none of which releases it.
* `Ask.parse_moves_of` and its kin — what each step on an engine may do, in terms of its requests.
* `Ask.exec_requireLive_bind` — a released engine lets no step begin.
* `Ask.exec_release` — the end of an engine.
-/

set_option autoImplicit false

namespace MixedInteger

variable {K : Type}

open Fallible

namespace World

/-- Whether an engine has been released; one that was never loaded counts as released. -/
def isReleased (w : World K) (engine : Nat) : Bool := w.released.getD engine true

/-- The requests that an engine has got so far. -/
def requestsTo (w : World K) (engine : Nat) : List (Event K) :=
  w.trace.filter fun e => e.engine? == some engine

/-- The world with one more engine. -/
def withEngine (w : World K) : World K := { w with released := w.released ++ [false] }

/-- From one world to another, nothing happens but requests to an engine that do not release it, and
files. -/
structure Asked (engine : Nat) (w w' : World K) : Prop where
  reply_eq : w'.reply = w.reply
  released_eq : w'.released = w.released
  exists_trace_eq : ∃ es, w'.trace = w.trace ++ es ∧
    ∀ e ∈ es, e.engine? = some engine ∧ e ≠ .clear engine

namespace Asked

variable {engine : Nat} {w w' w'' : World K}

theorem of_trace_eq (hreply : w'.reply = w.reply) (hreleased : w'.released = w.released)
    (htrace : w'.trace = w.trace) : w.Asked engine w' :=
  ⟨hreply, hreleased, [], by rw [htrace, List.append_nil], fun _ h => absurd h List.not_mem_nil⟩

theorem refl (w : World K) : w.Asked engine w := of_trace_eq rfl rfl rfl

theorem trans (h : w.Asked engine w') (h' : w'.Asked engine w'') : w.Asked engine w'' := by
  obtain ⟨es, hes, hmem⟩ := h.exists_trace_eq
  obtain ⟨fs, hfs, hmem'⟩ := h'.exists_trace_eq
  refine ⟨h'.reply_eq.trans h.reply_eq, h'.released_eq.trans h.released_eq, es ++ fs, ?_, ?_⟩
  · rw [hfs, hes, List.append_assoc]
  · exact List.forall_mem_append.2 ⟨hmem, hmem'⟩

instance : IsPreorder (World K) (Asked engine) where
  refl := refl
  trans _ _ _ := trans

theorem isReleased_eq (h : w.Asked engine w') : w'.isReleased engine = w.isReleased engine := by
  rw [isReleased, isReleased, h.released_eq]

/-- The requests to the engine are more than before by some that do not release it. -/
theorem exists_requestsTo_eq (h : w.Asked engine w') :
    ∃ es, w'.requestsTo engine = w.requestsTo engine ++ es ∧ ∀ e ∈ es, e ≠ .clear engine := by
  obtain ⟨es, hes, hmem⟩ := h.exists_trace_eq
  refine ⟨es, ?_, fun e he => (hmem e he).2⟩
  have hall : es.filter (fun e => e.engine? == some engine) = es :=
    List.filter_eq_self.2 fun e he => by simp [(hmem e he).1]
  rw [requestsTo, hes, List.filter_append, hall]
  rfl

end Asked

end World

namespace Ask

variable [Arithmetic K] {engine : Nat}

/-! ## Steps on an engine -/

section

variable {R : World K → World K → Prop} [IsPreorder (World K) R]

omit [Arithmetic K] in
theorem requireLive_moves_of : Moves R (requireLive engine : Ask K Unit) :=
  .bind (.bind .get fun _ => .pure _) fun _ => .ite (.throw _) (.pure _)

/-- Nothing happens when an option is set but the request. -/
theorem setOption_moves_of (hoption : ∀ name value, Moves R (record (.option engine name value)))
    (name value : Value K) : Moves R (setOption engine name value) := by
  refine .bind requireLive_moves_of fun _ => .bind (hoption name value) fun _ =>
    .bind .get fun w => .ite ?_ (.pure _)
  exact .bind (.lift _) fun _ => .bind (.lift _) fun _ => .throw _

/-- Nothing happens when settings are applied but requests to set options. -/
theorem applySettings_moves_of
    (hoption : ∀ name value, Moves R (record (.option engine name value))) (s : Settings K) :
    Moves R (applySettings engine s) := by
  rw [applySettings]
  refine .bind (.lift _) fun os => .bind (.forIn (fun o _ _ => ?_) _) fun _ => .pure _
  exact .bind (setOption_moves_of hoption (.text o.1) o.2) fun _ => .pure _

omit [Arithmetic K] in
/-- Nothing happens when a file is read but the request. -/
theorem readFile_moves_of (hread : ∀ path content, Moves R (record (.read engine path content)))
    (path content : String) : Moves R (readFile engine path content : Ask K Unit) :=
  .bind (hread path content) fun _ => .bind .get fun _ => .ite (.throw _) (.pure _)

omit [Arithmetic K] in
/-- Nothing happens when a text is read but the request, and a file that comes and goes. -/
theorem parse_moves_of (hread : ∀ path content, Moves R (record (.read engine path content)))
    (hmake : ∀ (w : World K) path content, R w (w.makeTemporary path content))
    (hremove : ∀ w : World K, R w w.removeTemporary) (text format : Value K) :
    Moves R (parse engine text format) := by
  refine .bind requireLive_moves_of fun _ => .bind (.lift _) fun fmt => .ite (.throw _) ?_
  cases text with
  | text content =>
    refine .bind (.modify fun w => hmake w _ _) fun _ => .tryFinally ?_ (.modify hremove)
    exact .bind .get fun w => readFile_moves_of hread _ _
  | _ => exact .throw _

omit [Arithmetic K] in
/-- Nothing happens when a problem is read from a file but the request. -/
theorem readProblem_moves_of (hread : ∀ path content, Moves R (record (.read engine path content)))
    (filename : Value K) : Moves R (readProblem engine filename) := by
  refine .bind requireLive_moves_of fun _ => ?_
  cases filename with
  | text name =>
    refine .ite (.throw _) (.bind .get fun w => .ite (.throw _) ?_)
    cases Path.suffix? name with
    | none => exact .throw _
    | some s => exact .ite (.bind .get fun w => readFile_moves_of hread _ _) (.throw _)
  | _ => exact .throw _

/-- Nothing happens when a problem is solved but the request. -/
theorem run_moves_of (hrun : Moves R (record (.run engine))) :
    Moves R (run engine : Ask K (Outcome K)) :=
  .bind requireLive_moves_of fun _ => .bind hrun fun _ => .bind .get fun _ =>
    .bind (.lift _) fun _ => .bind (.lift _) fun _ => .lift _

end

omit [Arithmetic K] in
theorem record_moves {e : Event K} (h : e.engine? = some engine) (hclear : e ≠ .clear engine) :
    Moves (World.Asked engine) (record e) := by
  refine .modify fun w => ⟨rfl, rfl, [e], rfl, ?_⟩
  intro f hf
  obtain rfl := List.mem_singleton.1 hf
  exact ⟨h, hclear⟩

theorem setOption_moves (name value : Value K) :
    Moves (World.Asked engine) (setOption engine name value) :=
  setOption_moves_of (fun _ _ => record_moves rfl nofun) name value

theorem applySettings_moves (s : Settings K) :
    Moves (World.Asked engine) (applySettings engine s) :=
  applySettings_moves_of (fun _ _ => record_moves rfl nofun) s

omit [Arithmetic K] in
theorem parse_moves (text format : Value K) :
    Moves (World.Asked engine) (parse engine text format) :=
  parse_moves_of (fun _ _ => record_moves rfl nofun) (fun _ _ _ => .of_trace_eq rfl rfl rfl)
    (fun _ => .of_trace_eq rfl rfl rfl) text format

omit [Arithmetic K] in
theorem readProblem_moves (filename : Value K) :
    Moves (World.Asked engine) (readProblem engine filename) :=
  readProblem_moves_of (fun _ _ => record_moves rfl nofun) filename

theorem run_moves : Moves (World.Asked engine) (run engine : Ask K (Outcome K)) :=
  run_moves_of (record_moves rfl nofun)

/-! ## Released engines -/

omit [Arithmetic K] in
/-- **Nothing begins on a released engine.** -/
theorem exec_requireLive_bind {α : Type} {w : World K} (h : w.isReleased engine)
    (f : PUnit → Ask K α) : exec (requireLive engine >>= f) w = (.error .handleReleased, w) := by
  refine exec_bind_of_error ?_ f
  rw [World.isReleased] at h
  simp only [requireLive, isReleased, exec_bind, exec_get, exec_pure, h, if_true, exec_throw]

omit [Arithmetic K] in
theorem exec_requireLive {w : World K} (h : w.isReleased engine = false) :
    exec (requireLive engine) w = (.ok (), w) := by
  rw [World.isReleased] at h
  simp only [requireLive, isReleased, exec_bind, exec_get, exec_pure, h]
  rfl

omit [Arithmetic K] in
/-- **An engine is released without a failure**, even if it fails to give up its resources. -/
theorem exec_release (w : World K) :
    exec (release engine) w = (.ok (), if w.isReleased engine then w else
      { w with released := w.released.set engine true, trace := w.trace ++ [.clear engine] }) := by
  rw [World.isReleased]
  cases h : w.released.getD engine true with
  | true =>
    simp only [release, isReleased, exec_bind, exec_get, h, exec_pure, exec_ite]
    rfl
  | false =>
    simp only [release, isReleased, exec_bind, exec_get, h, exec_pure, exec_ite, exec_modify,
      exec_tryCatch, clear, record]
    cases hfails : w.reply.clearFails <;> rfl

/-! ## Loading -/

/-- Without an engine to load nothing happens. -/
theorem exec_load_of_missing {w : World K} {reason : String} (h : w.reply.missing = some reason)
    (given : Except Fault (Settings K)) :
    exec (load given) w = (.error (.engineMissing reason), w) := by
  simp only [load, exec_bind, exec_get, h, exec_throw]

/-- The settings are looked at once the engine is there. -/
theorem exec_load {w : World K} (h : w.reply.missing = none) (given : Except Fault (Settings K)) :
    exec (load given) w = exec (do
      applySettings w.released.length (← given)
      return w.released.length) w.withEngine := by
  simp only [load, exec_bind, exec_get, h, exec_set]
  rfl

/-- Nothing happens when an engine is loaded but requests to set options, once it is there. -/
theorem load_moves_of {R : World K → World K → Prop} [IsPreorder (World K) R] {w : World K}
    (hoption : ∀ name value, Moves R (record (.option w.released.length name value)))
    (h : w.reply.missing = none) (given : Except Fault (Settings K)) :
    R w.withEngine (exec (load given) w).2 := by
  rw [exec_load h]
  have hmoves : Moves R (do
      applySettings w.released.length (← given)
      return w.released.length : Ask K Nat) :=
    .bind (.lift _) fun s => .bind (applySettings_moves_of hoption s) fun _ => .pure _
  exact hmoves _

/-- While an engine is loaded it is only asked to set options. -/
theorem load_asked {w : World K} (h : w.reply.missing = none)
    (given : Except Fault (Settings K)) :
    w.withEngine.Asked w.released.length (exec (load given) w).2 :=
  load_moves_of (fun _ _ => record_moves rfl nofun) h given

/-- The engine that has been loaded is the new one. -/
theorem load_eq_ok {given : Except Fault (Settings K)} {w w' : World K}
    (h : exec (load given) w = (.ok engine, w')) :
    engine = w.released.length ∧ w.withEngine.Asked engine w' := by
  cases hmissing : w.reply.missing with
  | some reason =>
    rw [exec_load_of_missing hmissing] at h
    cases h
  | none =>
    have hasked := load_asked hmissing given
    rw [h] at hasked
    rw [exec_load hmissing] at h
    obtain ⟨s, w₁, -, h⟩ := exec_bind_eq_ok.1 h
    obtain ⟨_, w₂, -, h⟩ := exec_bind_eq_ok.1 h
    cases h
    exact ⟨rfl, hasked⟩

end Ask

end MixedInteger
