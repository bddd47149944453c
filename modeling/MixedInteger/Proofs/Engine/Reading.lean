import MixedInteger.Proofs.Engine.Cleanup
import MixedInteger.Proofs.Session.Coherence

/-!
# What an engine reads

A text reaches an engine by way of a file that is there only while the engine reads it.  The format
is spelled in any case of letters, and it is looked at twice when a model is solved: by the writer
of the text and for the engine.  Whatever the spelling, the engine reads the text that was written,
from a file with the suffix of its format, and no file is left behind.

## What is here

* `World.Reads` — what the engines are asked to read from one world to another; the files stay.
* `Ask.exec_parse` — the answer to a text, and the one request that it takes.
* `Ask.within_reads` — what is read by an engine of its own.
* `Run.reading_spec` — what is read when a text is parsed or solved, and when a model is solved.
-/

set_option autoImplicit false

namespace MixedInteger

variable {K : Type}

open Fallible

/-- Whether a request is one to read a file. -/
def Event.isRead : Event K → Bool
  | .read _ _ _ => true
  | _ => false

/-- The answer to the request to read a file. -/
def Reply.readAnswer (r : Reply K) (path : String) : Except Fault PUnit :=
  if r.read = .error then .error (.unreadable path) else .ok ⟨⟩

theorem Reply.readAnswer_eq_error_iff {r : Reply K} {path : String} :
    (∃ e, r.readAnswer path = .error e ∧ e.kind = .value) ↔ r.read = .error := by
  rw [readAnswer]
  constructor
  · rintro ⟨e, he, -⟩
    by_contra hread
    rw [if_neg hread] at he
    cases he
  · intro hread
    exact ⟨.unreadable path, if_pos hread, rfl⟩

theorem Reply.readAnswer_eq_ok_iff {r : Reply K} {path : String} :
    r.readAnswer path = .ok ⟨⟩ ↔ r.read ≠ .error := by
  rw [readAnswer]
  constructor
  · intro h hread
    rw [if_pos hread] at h
    cases h
  · exact fun hread => if_neg hread

namespace World

/-- The requests to read a file. -/
def reads (w : World K) : List (Event K) := w.trace.filter Event.isRead

/-- The world after one more request. -/
def withRequest (w : World K) (e : Event K) : World K := { w with trace := w.trace ++ [e] }

/-- From one world to another, exactly these are the requests to read a file, and the files are the
ones that were there before. -/
structure Reads (es : List (Event K)) (w w' : World K) : Prop where
  files_eq : w'.files = w.files
  temporaries_eq : w'.temporaries = w.temporaries
  reads_eq : w'.reads = w.reads ++ es

namespace Reads

variable {es fs : List (Event K)} {w w' w'' : World K}

theorem of_trace_eq (hfiles : w'.files = w.files) (htemporaries : w'.temporaries = w.temporaries)
    (htrace : w'.trace = w.trace) : w.Reads [] w' :=
  ⟨hfiles, htemporaries, by rw [reads, htrace, List.append_nil, reads]⟩

theorem trans (h : w.Reads es w') (h' : w'.Reads fs w'') : w.Reads (es ++ fs) w'' := by
  refine ⟨h'.files_eq.trans h.files_eq, h'.temporaries_eq.trans h.temporaries_eq, ?_⟩
  rw [h'.reads_eq, h.reads_eq, List.append_assoc]

instance : IsPreorder (World K) (Reads []) where
  refl _ := of_trace_eq rfl rfl rfl
  trans _ _ _ h h' := h.trans h'

/-- Steps that read nothing may come afterwards. -/
theorem trans_nil (h : w.Reads es w') (h' : w'.Reads [] w'') : w.Reads es w'' := by
  have htrans := h.trans h'
  rwa [List.append_nil] at htrans

theorem bind {α β : Type} {x : Ask K α} (hx : w.Reads es (exec x w).2) {f : α → Ask K β}
    (hf : ∀ a, Moves (Reads []) (f a)) : w.Reads es (exec (x >>= f) w).2 := by
  rw [exec_bind]
  rcases h : exec x w with ⟨e | a, w₁⟩ <;> rw [h] at hx
  · exact hx
  · exact hx.trans_nil (hf a w₁)

end Reads

/-- A request to read a file is the only one of its kind. -/
theorem reads_withRequest (w : World K) {e : Event K} (h : e.isRead = true) :
    w.Reads [e] (w.withRequest e) := by
  refine ⟨rfl, rfl, ?_⟩
  rw [reads, withRequest, List.filter_append, List.filter_singleton, h]
  rfl

/-- Another request reads nothing. -/
theorem reads_nil_withRequest (w : World K) {e : Event K} (h : e.isRead = false) :
    w.Reads [] (w.withRequest e) := by
  refine ⟨rfl, rfl, ?_⟩
  rw [reads, withRequest, List.filter_append, List.filter_singleton, h]
  rfl

theorem withRequest_ne (w : World K) (e : Event K) : w.withRequest e ≠ w := by
  intro h
  have hlength : w.trace.length + 1 = w.trace.length := by
    simpa [withRequest] using congrArg (fun w : World K => w.trace.length) h
  omega

end World

/-- The request that a text in a format makes to an engine. -/
def Event.reading (engine : Nat) (text format : String) : Event K :=
  .read engine (Ask.temporaryPath (lowerCase format)) text

/-- What is read when an engine gets a text in a format: the text, if there is such a format. -/
def Event.readings (engine : Nat) (text format : String) : List (Event K) :=
  if lowerCase format ∈ problemFormats then [.reading engine text format] else []

/-- What a new engine with the given settings reads of a text in a format: nothing, if the engine
cannot be loaded. -/
def World.readings [Arithmetic K] (w : World K) (given : Except Fault (Settings K))
    (text format : String) : List (Event K) :=
  if w.reply.missing.isNone && w.reply.accepts given then
    Event.readings w.released.length text format
  else []

variable [Arithmetic K]

namespace Ask

variable {engine : Nat} {w : World K}

omit [Arithmetic K] in
theorem exec_readFile (w : World K) (path content : String) :
    exec (readFile engine path content) w =
      (w.reply.readAnswer path, w.withRequest (.read engine path content)) := by
  have hrecord : exec (record (.read engine path content)) w =
      (.ok ⟨⟩, w.withRequest (.read engine path content)) := rfl
  rw [readFile, exec_bind_of_ok hrecord, exec_bind_of_ok (exec_get _), exec_ite, Reply.readAnswer]
  change (if w.reply.read = .error then _ else _) = _
  split
  · rfl
  · rfl

omit [Arithmetic K] in
/-- **What becomes of a text.**  Under a format that there is the engine is asked to read it, once,
and everything else stays; under another one nothing happens. -/
theorem exec_parse (h : w.isReleased engine = false) (text format : String) :
    exec (parse engine (.text text) (.text format)) w =
      if lowerCase format ∈ problemFormats then
        (w.reply.readAnswer (temporaryPath (lowerCase format)),
          w.withRequest (.reading engine text format))
      else (.error (.unknownProblemFormat (quoted (lowerCase format))), w) := by
  rw [parse, exec_bind_of_ok (exec_requireLive h), formatName, exec_bind_of_ok (exec_liftM _ w)]
  by_cases hformat : lowerCase format ∈ problemFormats
  · have hcontains : problemFormats.contains (lowerCase format) = true :=
      List.contains_iff_mem.2 hformat
    rw [if_pos hformat, hcontains]
    -- The content that is read is looked up in the file that has just been made.
    let path := temporaryPath (lowerCase format)
    change exec (do
      modify fun w => w.makeTemporary path text
      try readFile engine path (← get).temporaryContent
      finally modify fun w => w.removeTemporary) w = _
    rw [exec_bind_of_ok (exec_modify _ w), exec_tryFinally, exec_bind_of_ok (exec_get _),
      exec_readFile]
    rfl
  · have hcontains : problemFormats.contains (lowerCase format) = false := by
      simpa using hformat
    rw [if_neg hformat, hcontains]
    rfl

omit [Arithmetic K] in
/-- A request that reads nothing. -/
theorem record_reads {e : Event K} (h : e.isRead = false) : Moves (World.Reads []) (record e) :=
  .modify fun w => w.reads_nil_withRequest h

theorem run_reads : Moves (World.Reads []) (run engine : Ask K (Outcome K)) :=
  run_moves_of (record_reads rfl)

omit [Arithmetic K] in
theorem release_reads : Moves (World.Reads []) (release engine : Ask K Unit) := by
  intro w
  rw [exec_release]
  split
  · exact refl_of (World.Reads []) w
  · have hclear := World.reads_nil_withRequest { w with released := w.released.set engine true }
      (e := .clear engine) rfl
    exact ⟨hclear.files_eq, hclear.temporaries_eq, hclear.reads_eq⟩

omit [Arithmetic K] in
theorem parse_reads (h : w.isReleased engine = false) (text format : String) :
    w.Reads (Event.readings engine text format)
      (exec (parse engine (.text text) (.text format)) w).2 := by
  rw [exec_parse h, Event.readings]
  split
  · exact w.reads_withRequest rfl
  · exact refl_of (World.Reads []) w

/-- **What an engine of its own reads.**  It reads what the step makes it read, if it could be
loaded with its settings, and nothing otherwise. -/
theorem within_reads {α : Type} {step : Nat → Ask K α} {es : List (Event K)}
    (hmissing : w.reply.missing = none)
    (hstep : ∀ w₁ : World K, w₁.isReleased w.released.length = false →
      w₁.Reads es (exec (step w.released.length) w₁).2)
    (given : Except Fault (Settings K)) :
    w.Reads (if w.reply.accepts given then es else []) (exec (within given step) w).2 := by
  have hnew : w.Reads [] w.withEngine := .of_trace_eq rfl rfl rfl
  have hloaded : w.Reads [] (exec (load given) w).2 :=
    hnew.trans_nil (load_moves_of (fun _ _ => record_reads rfl) hmissing given)
  have hlive : w.withEngine.isReleased w.released.length = false := by
    simp [World.isReleased, World.withEngine]
  rw [← exec_load_isOk hmissing, within]
  rcases hload : exec (load given) w with ⟨f | engine, w₁⟩ <;> rw [hload] at hloaded
  · rw [exec_bind_of_error hload]
    exact hloaded
  · obtain ⟨rfl, hasked⟩ := load_eq_ok hload
    have hread := hloaded.trans (hstep w₁ (hasked.isReleased_eq.trans hlive))
    rw [exec_bind_of_ok hload, exec_tryFinally]
    have hrelease : Moves (World.Reads []) (release w.released.length : Ask K Unit) := release_reads
    have hreleased := hread.trans_nil (hrelease _)
    rw [exec_release] at hreleased ⊢
    exact hreleased

/-- A text that is to be solved is read by the new engine, if there is one. -/
theorem solveText_reads (text format : String) (given : Except Fault (Settings K)) (w : World K) :
    w.Reads (w.readings given text format)
      (exec (solveText (.text text) (.text format) given) w).2 := by
  rw [solveText, World.readings]
  cases hmissing : w.reply.missing with
  | some reason =>
    rw [exec_within_of_missing hmissing]
    exact refl_of (World.Reads []) w
  | none =>
    refine within_reads hmissing (fun w₁ hlive => ?_) given
    exact (parse_reads hlive text format).bind fun _ => run_reads

/-- The engine that reads texts solves a model by its text. -/
theorem exec_solveModel_highs (m : Model K) (format : Value K) (given : Except Fault (Settings K))
    (w : World K) : exec (solveModel m format (.text "highs") given) w =
      exec (solveModelText m format given) w :=
  rfl

end Ask

/-- A format in which a model has a text is one in which an engine reads texts. -/
theorem Model.mem_problemFormats_of_textIn {m : Model K} {format text : String}
    (h : m.textIn (.text format) = .ok text) : lowerCase format ∈ problemFormats := by
  obtain ⟨fmt, hfmt, h⟩ := bind_eq_ok.1 h
  cases hfmt
  split at h
  · rename_i hlp
    simp [hlp, problemFormats]
  · split at h
    · rename_i hmps
      simp [hmps, problemFormats]
    · cases h

namespace Run

/-- What happens around the engines when a model is solved. -/
theorem world_solveModel {s : Session K} {id : Nat} {m : Model K} (hm : s.models[id]? = some m)
    (param format backend : Value K) :
    (exec (solveModel id param format backend) s).2.world =
      (exec (Ask.solveModel m format backend (s.settingsGiven param)) s.world).2 := by
  rw [exec_solveModel_of_model hm]
  rcases exec (Ask.solveModel m format backend (s.settingsGiven param)) s.world with ⟨f | o, w⟩
  · rfl
  · exact addSolution_moves _ _ (({ s with world := w } : Session K).withOutcome o)

/-- **What an engine reads.**  A text for a live engine is refused as a wrong value, with nothing
having happened, exactly if its format, in lower case, is none of those that there are.  Otherwise
the one thing that happens is the request to read a file of the format whose content is the text,
and it is refused as a wrong value exactly if the engine cannot read the file.  A text that is
solved is read once by its new engine, if the engine can be loaded.  A model that has a text in a
format is solved by letting a new engine read this text in this format, whatever the case of its
letters, and nothing happens if it has none.  The files are in any case those that there were
before. -/
theorem reading_spec (s : Session K) :
    (∀ (engine : Nat) (text format : String), s.world.isReleased engine = false →
      ((∃ f, exec (onWorld (Ask.parse engine (.text text) (.text format))) s = (.error f, s) ∧
        f.kind = .value) ↔ lowerCase format ∉ problemFormats) ∧
      (lowerCase format ∈ problemFormats → ∃ answer,
        exec (onWorld (Ask.parse engine (.text text) (.text format))) s =
          (answer, { s with world := s.world.withRequest (.reading engine text format) }) ∧
        ((∃ f, answer = .error f ∧ f.kind = .value) ↔ s.world.reply.read = .error) ∧
        (answer = .ok ⟨⟩ ↔ s.world.reply.read ≠ .error))) ∧
    (∀ (text format : String) (param : Value K),
      s.world.Reads (s.world.readings (s.settingsGiven param) text format)
        (exec (solveText (.text text) (.text format) param) s).2.world) ∧
    ∀ (id : Nat) (m : Model K), s.models[id]? = some m → ∀ (format : String) (param : Value K),
      (∀ f, m.textIn (.text format) = .error f →
        exec (solveModel id param (.text format) (.text "highs")) s = (.error f, s)) ∧
      ∀ text, m.textIn (.text format) = .ok text → lowerCase format ∈ problemFormats ∧
        s.world.Reads (s.world.readings (s.settingsGiven param) text format)
          (exec (solveModel id param (.text format) (.text "highs")) s).2.world := by
  refine ⟨fun engine text format hlive => ⟨?_, fun hformat => ?_⟩, fun text format param => ?_,
    fun id m hm format param => ⟨fun f hf => ?_, fun text htext => ?_⟩⟩
  · rw [exec_onWorld, Ask.exec_parse hlive]
    constructor
    · rintro ⟨f, h, -⟩ hformat
      rw [if_pos hformat] at h
      exact World.withRequest_ne _ _ (congrArg (fun x => x.2.world) h)
    · intro hformat
      rw [if_neg hformat]
      exact ⟨_, rfl, rfl⟩
  · rw [exec_onWorld, Ask.exec_parse hlive, if_pos hformat]
    exact ⟨_, rfl, Reply.readAnswer_eq_error_iff, Reply.readAnswer_eq_ok_iff⟩
  · rw [solveText, exec_bind_of_ok (exec_settingsOf param s), world_onWorld_bind addOutcome_moves]
    exact Ask.solveText_reads text format _ s.world
  · have hask (given : Except Fault (Settings K)) :
        exec (Ask.solveModel m (.text format) (.text "highs") given) s.world =
          (.error f, s.world) := by
      rw [Ask.exec_solveModel_highs, Ask.solveModelText, hf]
      rfl
    rw [exec_solveModel_of_model hm, hask]
  · refine ⟨Model.mem_problemFormats_of_textIn htext, ?_⟩
    rw [world_solveModel hm, Ask.exec_solveModel_highs, Ask.solveModelText, htext]
    exact Ask.solveText_reads text format _ s.world

/-- A session with a live engine and an empty model. -/
def withEmptyModel : Session Float := { Solving.outOfTime with models := [.empty 0 .none] }

/-- Whatever the case of its letters, a format that there is lets the engine read, and another one
does not; and a new engine reads the text of the model. -/
theorem reading_spec_mixedCase :
    (exec (onWorld (Ask.parse 0 (.text "End\n") (.text "mPs"))) withEmptyModel).1 = .ok ⟨⟩ ∧
    (∃ f, exec (onWorld (Ask.parse 0 (.text "End\n") (.text "mPsx"))) withEmptyModel =
      (.error f, withEmptyModel) ∧ f.kind = .value) ∧
    ∃ text, (Model.empty 0 .none : Model Float).textIn (.text "Lp") = .ok text ∧
      (exec (solveModel 0 .none (.text "Lp") (.text "highs")) withEmptyModel).2.world.reads =
        [.read 1 "<tmp>.lp" text] := by
  obtain ⟨hparse, -, hsolve⟩ := reading_spec withEmptyModel
  refine ⟨?_, (hparse 0 "End\n" "mPsx" rfl).1.2 (by decide),
    "Minimize\n obj:\nSubject To\nEnd\n", rfl, ?_⟩
  · obtain ⟨answer, hanswer, -, hok⟩ := (hparse 0 "End\n" "mPs" rfl).2 (by decide)
    rw [hanswer]
    exact hok.2 nofun
  · exact ((hsolve 0 _ rfl "Lp" .none).2 _ rfl).2.reads_eq

end Run

end MixedInteger
