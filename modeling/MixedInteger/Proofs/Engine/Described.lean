import MixedInteger.Proofs.Session.Steps
import MixedInteger.Proofs.Value.Table

/-!
# Records that a table describes

Settings and reports can be made from a table of values by name.  A name that is none of a field is
to be ignored; yet it is known if it is the name of an operation, or one of those that all records
have in common, and then it is assigned all the same.  What is assigned besides the fields takes
away the operations of these names and changes nothing else.

## What is here

* `Alike` — two readings that fail for the same reason, or give results that are related.
* `Record.filled_fill` — a record after assignments, as one assignment after the other.
* `Record.Extends` — a record with the fields of another one, and further ones under some keys.
* `Record.Extends.foldlM` — what becomes of all entries, and of those that are about the fields.
* `Settings.AnswersLike`, `Report.AnswersLike` — the operations of two records side by side.
* `Settings.toTable_ofTable`, `Report.toTable_ofTable` — the way from a table and back to it.
* `Record.described_spec` — descriptions of settings and reports.
-/

set_option autoImplicit false

namespace MixedInteger

variable {K : Type} [Arithmetic K]

open Fallible

/-- Two readings fail for the same reason, or both succeed with results that are related. -/
inductive Alike {α β : Type} (R : α → β → Prop) : Except Fault α → Except Fault β → Prop
  /-- Both fail. -/
  | error (f : Fault) : Alike R (.error f) (.error f)
  /-- Both succeed. -/
  | ok {a : α} {b : β} (h : R a b) : Alike R (.ok a) (.ok b)

theorem Alike.bind {α β γ δ : Type} {R : α → β → Prop} {S : γ → δ → Prop} {x : Except Fault α}
    {y : Except Fault β} {f : α → Except Fault γ} {g : β → Except Fault δ} (h : Alike R x y)
    (hfg : ∀ a b, R a b → Alike S (f a) (g b)) : Alike S (x >>= f) (y >>= g) := by
  cases h with
  | error e => exact .error e
  | ok h => exact hfg _ _ h

theorem Alike.exists_ok {α β : Type} {R : α → β → Prop} {x : Except Fault α} {y : Except Fault β}
    {a : α} (h : Alike R x y) (hx : x = .ok a) : ∃ b, y = .ok b ∧ R a b := by
  cases h with
  | error f => cases hx
  | ok h =>
    cases hx
    exact ⟨_, rfl, h⟩

theorem Alike.mono {α β : Type} {R S : α → β → Prop} {x : Except Fault α} {y : Except Fault β}
    (h : Alike R x y) (hRS : ∀ a b, R a b → S a b) : Alike S x y := by
  cases h with
  | error f => exact .error f
  | ok h => exact .ok (hRS _ _ h)

/-- The names of the fields of a kind. -/
def RecordKind.fieldNames : RecordKind → List String
  | settings => Settings.fieldNames
  | outcome => ["status", "objective", "solution", "gap", "node_count", "time"]

namespace Record

/-- The part of a description that is about the fields of a kind. -/
def only (kind : RecordKind) (d : List (String × Value K)) : List (String × Value K) :=
  d.filter fun e => e.1 ∈ kind.fieldNames

/-- The names that do not take any value: one takes a table of all fields, and the others take
nothing. -/
def structural : List String := ["__class__", "__dict__", "__weakref__"]

/-- The fields by name of a record that is made of them. -/
theorem field?_ofFields (kind : RecordKind) (fields : List (String × Value K)) (name : String) :
    (ofFields kind fields).field? name = (fields.find? fun e => e.1 == name).map Prod.snd := by
  have hfield := Value.lookup?_textEntries (.text name) fields
  simp only [Value.sameKey_text] at hfield
  exact hfield

theorem isSome_field?_ofFields (kind : RecordKind) (fields : List (String × Value K))
    (name : String) :
    ((ofFields kind fields).field? name).isSome = true ↔ name ∈ fields.map Prod.fst := by
  rw [field?_ofFields, Option.isSome_map, List.find?_isSome, List.mem_map]
  simp only [beq_iff_eq]

theorem field?_setField (r : Record K) (key : String) (v : Value K) (name : String) :
    (r.setField key v).field? name = if key = name then some v else r.field? name :=
  Value.lookup?_insert_text name key v r.fields

/-- Any other name takes any value. -/
theorem assign_of_not_structural (r : Record K) {name : String} (h : name ∉ structural)
    (v : Value K) : r.assign name v = .ok (r.setField name v) := by
  unfold assign
  split
  · exact absurd (by decide) h
  · exact absurd (by decide) h
  · exact absurd (by decide) h
  · exact absurd (by decide) h
  · rfl

/-- A name of a field means something. -/
theorem assignKnown_of_isSome {r : Record K} {name : String} (h : (r.field? name).isSome = true)
    (hfree : name ∉ structural) (v : Value K) :
    r.assignKnown (.text name) v = .ok (r.setField name v) := by
  rw [assignKnown, knows, h, Bool.true_or, Bool.true_or, if_pos rfl,
    assign_of_not_structural r hfree]

omit [Arithmetic K] in
/-- Assignments are made from left to right. -/
theorem filled_fill (step : Record K → Value K × Value K → Except Fault (Record K))
    (entries : List (Value K × Value K)) (r : Record K) :
    r.filled (fill step entries) = entries.foldlM step r := by
  induction entries generalizing r with
  | nil => rfl
  | cons e entries ih =>
    have hfill : exec (fill step (e :: entries)) r =
        exec ((do set (← step (← get) e) : Filling K PUnit) >>= fun _ => fill step entries) r := by
      rw [fill, List.forM_eq_forM, List.forM_cons]
      rfl
    have hfilled (r : Record K) (x : Filling K Unit) : r.filled x = match exec x r with
      | (.ok _, t) => .ok t
      | (.error f, _) => .error f := rfl
    rw [List.foldlM_cons, hfilled, hfill, exec_bind, exec_bind_of_ok (exec_get r), exec_bind,
      exec_liftM]
    rcases step r e with f | t
    · rfl
    · exact (hfilled t _).symm.trans (ih t)

/-! ## Unknown names -/

/-- Of two records of a kind, both have the same fields of the kind.  The second one has no others,
and the first one may have further ones, under those of the given keys that mean something to it. -/
structure Extends (kind : RecordKind) (keys : List String) (r r' : Record K) : Prop where
  kind_eq : r.kind = kind
  kind_eq_right : r'.kind = kind
  field?_eq : ∀ n ∈ kind.fieldNames, r.field? n = r'.field? n
  isSome : ∀ n ∈ kind.fieldNames, (r'.field? n).isSome = true
  isSome_iff : ∀ n ∉ kind.fieldNames, (r.field? n).isSome = true ↔
    n ∈ keys ∧ (kind.operations.contains n || isReserved n) = true
  eq_none : ∀ n ∉ kind.fieldNames, r'.field? n = none

/-- A way to assign entries, under which an entry stands for a value or for nothing, whatever the
record is that has the fields of a kind.  Entries of other names stand for their values. -/
structure Assigns (kind : RecordKind)
    (step : Record K → Value K × Value K → Except Fault (Record K))
    (value : String → Value K → Except Fault (Option (Value K))) : Prop where
  step_eq : ∀ r : Record K, (∀ n ∈ kind.fieldNames, (r.field? n).isSome = true) → ∀ name v,
    step r (.text name, v) = value name v >>= fun
      | some x => r.assignKnown (.text name) x
      | none => .ok r
  value_eq : ∀ name ∉ kind.fieldNames, ∀ v, value name v = .ok (some v)

/-- A record that is made of the fields of its kind. -/
theorem extends_ofFields {kind : RecordKind} {fields : List (String × Value K)}
    (h : fields.map Prod.fst = kind.fieldNames) :
    (ofFields kind fields).Extends kind [] (ofFields kind fields) := by
  have hsome : ∀ n, ((ofFields kind fields).field? n).isSome = true ↔ n ∈ kind.fieldNames :=
    fun n => h ▸ isSome_field?_ofFields kind fields n
  have hnone : ∀ n ∉ kind.fieldNames, (ofFields kind fields).field? n = none := fun n hn =>
    Option.not_isSome_iff_eq_none.1 fun h => hn ((hsome n).1 h)
  refine ⟨rfl, rfl, fun _ _ => rfl, fun n hn => (hsome n).2 hn, fun n hn => ?_, hnone⟩
  simp [hnone n hn]

namespace Extends

variable {kind : RecordKind} {keys : List String} {r r' : Record K}

theorem isSome_left (h : r.Extends kind keys r') :
    ∀ n ∈ kind.fieldNames, (r.field? n).isSome = true := by
  intro n hn
  rw [h.field?_eq n hn]
  exact h.isSome n hn

/-- A name that is none of a field has a meaning of its own. -/
theorem knows_eq (h : r.Extends kind keys r') {name : String} (hname : name ∉ kind.fieldNames) :
    r.knows name = (kind.operations.contains name || isReserved name) := by
  have hsome := h.isSome_iff name hname
  rw [knows, h.kind_eq, Bool.or_assoc]
  cases hmeans : (kind.operations.contains name || isReserved name) with
  | true => rw [Bool.or_true]
  | false =>
    rw [hmeans] at hsome
    simpa using hsome

/-- Keys without an effect: fields that both have, and names without a meaning. -/
theorem concat (h : r.Extends kind keys r') {name : String}
    (hname : name ∉ kind.fieldNames → (kind.operations.contains name || isReserved name) = false) :
    r.Extends kind (keys ++ [name]) r' := by
  refine ⟨h.kind_eq, h.kind_eq_right, h.field?_eq, h.isSome, fun n hn => ?_, h.eq_none⟩
  rw [h.isSome_iff n hn, List.mem_append, List.mem_singleton]
  constructor
  · exact fun ⟨hmem, hmeans⟩ => ⟨.inl hmem, hmeans⟩
  · rintro ⟨hmem | rfl, hmeans⟩
    · exact ⟨hmem, hmeans⟩
    · rw [hname hn] at hmeans
      cases hmeans

/-- An assignment to a field that both have. -/
theorem setField (h : r.Extends kind keys r') {name : String} (hname : name ∈ kind.fieldNames)
    (v : Value K) : (r.setField name v).Extends kind keys (r'.setField name v) := by
  have hne : ∀ n ∉ kind.fieldNames, name ≠ n := fun n hn heq => hn (heq ▸ hname)
  refine ⟨h.kind_eq, h.kind_eq_right, fun n hn => ?_, fun n hn => ?_, fun n hn => ?_,
    fun n hn => ?_⟩
  · rw [field?_setField, field?_setField, h.field?_eq n hn]
  · rw [field?_setField]
    split
    · rfl
    · exact h.isSome n hn
  · rw [field?_setField, if_neg (hne n hn)]
    exact h.isSome_iff n hn
  · rw [field?_setField, if_neg (hne n hn), h.eq_none n hn]

/-- An assignment to another name, which means something. -/
theorem setField_left (h : r.Extends kind keys r') {name : String} (hname : name ∉ kind.fieldNames)
    (hmeans : (kind.operations.contains name || isReserved name) = true) (v : Value K) :
    (r.setField name v).Extends kind (keys ++ [name]) r' := by
  refine ⟨h.kind_eq, h.kind_eq_right, fun n hn => ?_, h.isSome, fun n hn => ?_, h.eq_none⟩
  · have hne : name ≠ n := fun heq => hname (heq ▸ hn)
    rw [field?_setField, if_neg hne, h.field?_eq n hn]
  · rw [field?_setField, List.mem_append, List.mem_singleton]
    by_cases heq : name = n
    · rw [if_pos heq, ← heq]
      exact ⟨fun _ => ⟨.inr rfl, hmeans⟩, fun _ => rfl⟩
    · rw [if_neg heq, h.isSome_iff n hn, or_iff_left (Ne.symm heq)]

/-- An entry of a description. -/
theorem step {step : Record K → Value K × Value K → Except Fault (Record K)}
    {value : String → Value K → Except Fault (Option (Value K))} (hstep : Assigns kind step value)
    (h : r.Extends kind keys r') {name : String} (hfree : name ∉ structural) (v : Value K) :
    Alike (Extends kind (keys ++ [name])) (step r (.text name, v))
      (if name ∈ kind.fieldNames then step r' (.text name, v) else .ok r') := by
  rw [hstep.step_eq r h.isSome_left]
  by_cases hname : name ∈ kind.fieldNames
  · rw [if_pos hname, hstep.step_eq r' h.isSome]
    rcases value name v with f | _ | x
    · exact .error f
    · exact .ok (h.concat (absurd hname))
    · change Alike _ (r.assignKnown (.text name) x) (r'.assignKnown (.text name) x)
      rw [assignKnown_of_isSome (h.isSome_left name hname) hfree,
        assignKnown_of_isSome (h.isSome name hname) hfree]
      exact .ok ((h.setField hname x).concat (absurd hname))
  · rw [if_neg hname, hstep.value_eq name hname]
    change Alike _ (r.assignKnown (.text name) v) _
    rw [assignKnown, h.knows_eq hname, assign_of_not_structural r hfree]
    split
    · rename_i hmeans
      exact .ok (h.setField_left hname hmeans v)
    · rename_i hmeans
      exact .ok (h.concat fun _ => Bool.not_eq_true _ ▸ hmeans)

/-- **Entries of other names change nothing but those names.**  The record that gets all entries
goes on to extend the one that gets only those about the fields, and both fail for the same reason
if one of them does. -/
theorem foldlM {step : Record K → Value K × Value K → Except Fault (Record K)}
    {value : String → Value K → Except Fault (Option (Value K))} (hstep : Assigns kind step value)
    {d : List (String × Value K)} (hd : ∀ e ∈ d, e.1 ∉ structural) (h : r.Extends kind keys r') :
    Alike (Extends kind (keys ++ d.map Prod.fst)) ((Value.textEntries d).foldlM step r)
      ((Value.textEntries (only kind d)).foldlM step r') := by
  induction d generalizing r r' keys with
  | nil =>
    rw [List.map_nil, List.append_nil]
    exact .ok h
  | cons e d ih =>
    rw [List.forall_mem_cons] at hd
    have hone := h.step hstep hd.1 e.2
    have hall : (Value.textEntries (e :: d)).foldlM step r =
        step r (.text e.1, e.2) >>= fun t => (Value.textEntries d).foldlM step t := List.foldlM_cons
    have honly : (Value.textEntries (only kind (e :: d))).foldlM step r' =
        (if e.1 ∈ kind.fieldNames then step r' (.text e.1, e.2) else .ok r') >>= fun t =>
          (Value.textEntries (only kind d)).foldlM step t := by
      by_cases hname : e.1 ∈ kind.fieldNames
      · have hcons : only kind (e :: d) = e :: only kind d :=
          List.filter_cons_of_pos (decide_eq_true hname)
        rw [if_pos hname, hcons]
        exact List.foldlM_cons
      · have hskip : only kind (e :: d) = only kind d :=
          List.filter_cons_of_neg (by simpa using hname)
        rw [if_neg hname, hskip]
        rfl
    rw [hall, honly, List.map_cons, List.append_cons]
    exact hone.bind fun t t' ht => ih hd.2 ht

theorem read_eq (h : r.Extends kind keys r') {name : String} (hname : name ∈ kind.fieldNames) :
    r.read name = r'.read name := by
  rw [read, read, h.field?_eq name hname]

/-- An operation can be called unless its name is a key. -/
theorem require_eq (h : r.Extends kind keys r') {operation : String}
    (hkind : kind.operations.contains operation = true) (hname : operation ∉ kind.fieldNames) :
    r.require operation = (if operation ∈ keys then .error .unsupportedOperand else .ok ()) ∧
      r'.require operation = .ok () := by
  constructor
  · have hsome := h.isSome_iff operation hname
    rw [hkind, Bool.true_or, and_iff_left rfl] at hsome
    rw [require, h.kind_eq, hkind]
    exact if_congr hsome rfl rfl
  · rw [require, h.eq_none operation hname, h.kind_eq_right, hkind]
    rfl

/-- An operation that can be called answers by the fields. -/
theorem require_bind_eq {α : Type} (h : r.Extends kind keys r') {operation : String}
    (hkind : kind.operations.contains operation = true) (hname : operation ∉ kind.fieldNames)
    {x y : Unit → Except Fault α} (hxy : x () = y ()) :
    (r.require operation >>= x) =
      if operation ∈ keys then .error .unsupportedOperand else r'.require operation >>= y := by
  obtain ⟨hr, hr'⟩ := h.require_eq hkind hname
  rw [hr, hr']
  split
  · rfl
  · exact hxy

end Extends

end Record

/-! ## Settings -/

namespace Settings

open Record

theorem assigns : Assigns (K := K) .settings (fun s e => s.assignKnown e.1 e.2)
    fun _ v => .ok (some v) :=
  ⟨fun _ _ _ _ => rfl, fun _ _ _ => rfl⟩

/-- Settings from a description. -/
theorem ofTable_eq (d : List (String × Value K)) : ofTable (optionTable d) =
    (Value.textEntries d).foldlM (fun s e => s.assignKnown e.1 e.2) standard :=
  filled_fill _ _ _

theorem extends_standard : (standard : Settings K).Extends .settings [] standard :=
  extends_ofFields rfl

/-- Settings can be made from any description that leaves out the names that take no value. -/
theorem exists_ofTable_eq_ok {d : List (String × Value K)} (hd : ∀ e ∈ d, e.1 ∉ structural) :
    ∃ s, ofTable (optionTable d) = .ok s := by
  have hfold : ∀ r : Settings K, ∃ s,
      (Value.textEntries d).foldlM (fun s e => s.assignKnown e.1 e.2) r = .ok s := by
    induction d with
    | nil => exact fun r => ⟨r, rfl⟩
    | cons e d ih =>
      intro r
      rw [List.forall_mem_cons] at hd
      have hone : ∃ t, r.assignKnown (.text e.1) e.2 = .ok t := by
        rw [assignKnown, assign_of_not_structural r hd.1]
        split
        · exact ⟨_, rfl⟩
        · exact ⟨_, rfl⟩
      obtain ⟨t, ht⟩ := hone
      obtain ⟨s, hs⟩ := ih hd.2 t
      refine ⟨s, ?_⟩
      change (r.assignKnown (.text e.1) e.2 >>= _) = _
      rw [ht]
      exact hs
  obtain ⟨s, hs⟩ := hfold standard
  exact ⟨s, (ofTable_eq d).trans hs⟩

/-- **Settings from a description** go on to extend those from the part about the fields. -/
theorem alike_ofTable {d : List (String × Value K)} (hd : ∀ e ∈ d, e.1 ∉ structural) :
    Alike (Extends .settings (d.map Prod.fst)) (ofTable (optionTable d))
      (ofTable (optionTable (only .settings d))) := by
  rw [ofTable_eq, ofTable_eq]
  exact extends_standard.foldlM assigns hd

/-- The fields are read one after the other. -/
theorem toTable_eq_do (s : Settings K) : s.toTable = do
    s.require "to_dict"
    let time ← s.read "time_limit"
    let gap ← s.read "mip_rel_gap"
    let threads ← s.read "threads"
    let seed ← s.read "random_seed"
    let presolve ← s.read "presolve"
    let verbose ← s.read "verbose"
    return optionTable [("time_limit", time), ("mip_rel_gap", gap), ("threads", threads),
      ("random_seed", seed), ("presolve", presolve), ("verbose", verbose)] := by
  simp only [toTable, fieldNames, List.mapM_cons, List.mapM_nil, bind_assoc, pure_bind]
  rfl

/-- One settings answer like other ones, but for the operations whose names are among some keys:
these cannot be called. -/
structure AnswersLike (keys : List String) (s s' : Settings K) : Prop where
  toTable_eq : s.toTable =
    if "to_dict" ∈ keys then .error .unsupportedOperand else s'.toTable
  textOptions_eq : s.textOptions =
    if "to_highs_options" ∈ keys then .error .unsupportedOperand else s'.textOptions
  arrayOptions_eq : s.arrayOptions =
    if "to_scipy_options" ∈ keys then .error .unsupportedOperand else s'.arrayOptions
  text_eq : s.text = s'.text

theorem answersLike_of_extends {keys : List String} {s s' : Settings K}
    (h : s.Extends .settings keys s') : s.AnswersLike keys s' := by
  have hread : ∀ n ∈ fieldNames, s.read n = s'.read n := fun n hn => h.read_eq hn
  have hlimits : s.limits = s'.limits := by
    rw [limits, limits, hread "time_limit" (by decide), hread "mip_rel_gap" (by decide)]
  refine ⟨?_, h.require_bind_eq rfl (by decide) ?_, h.require_bind_eq rfl (by decide) ?_, ?_⟩
  · rw [toTable_eq_do, toTable_eq_do]
    refine h.require_bind_eq rfl (by decide) ?_
    rw [hread "time_limit" (by decide), hread "mip_rel_gap" (by decide),
      hread "threads" (by decide), hread "random_seed" (by decide), hread "presolve" (by decide),
      hread "verbose" (by decide)]
  · rw [hread "verbose" (by decide), hread "presolve" (by decide), hlimits,
      hread "threads" (by decide), hread "random_seed" (by decide)]
  · rw [hread "verbose" (by decide), hread "presolve" (by decide), hlimits]
  · have hfield : ∀ n ∈ fieldNames, s.fieldText n = s'.fieldText n := fun n hn => by
      rw [fieldText, fieldText, hread n hn]
    rw [text, text, hfield "time_limit" (by decide), hfield "mip_rel_gap" (by decide),
      hfield "threads" (by decide), hfield "presolve" (by decide), hfield "verbose" (by decide)]

/-- **Settings come back from their table** with the same table. -/
theorem toTable_ofTable (s : Settings K) :
    (do toTable (← ofTable (← s.toTable))) = s.toTable := by
  rcases htable : s.toTable with f | v
  · rfl
  · rw [toTable_eq_do] at htable
    obtain ⟨_, -, htable⟩ := bind_eq_ok.1 htable
    obtain ⟨time, -, htable⟩ := bind_eq_ok.1 htable
    obtain ⟨gap, -, htable⟩ := bind_eq_ok.1 htable
    obtain ⟨threads, -, htable⟩ := bind_eq_ok.1 htable
    obtain ⟨seed, -, htable⟩ := bind_eq_ok.1 htable
    obtain ⟨presolve, -, htable⟩ := bind_eq_ok.1 htable
    obtain ⟨verbose, -, htable⟩ := bind_eq_ok.1 htable
    cases htable
    rfl

end Settings

/-! ## Reports -/

namespace Report

open Record

/-- What an entry of a description stands for: a solution is a new table, and the status nothing. -/
def entryValue (name : String) (v : Value K) : Except Fault (Option (Value K)) :=
  if name == "solution" && v.isPresent then some <$> v.toTable
  else .ok (if name == "status" then none else some v)

theorem assigns : Assigns (K := K) .outcome assignEntry entryValue := by
  constructor
  · intro r hr name v
    have hentry : assignEntry r (.text name, v) =
        if name == "solution" && v.isPresent then r.setField "solution" <$> v.toTable
        else if name == "status" then .ok r
        else r.assignKnown (.text name) v := by
      change (if (name == "solution" && v.isPresent) = true then _ else _) = _
      split
      · rcases v.toTable with f | x <;> rfl
      · rfl
    rw [hentry, entryValue]
    split
    · rename_i hsolution
      obtain rfl : name = "solution" := beq_iff_eq.1 (Bool.and_eq_true_iff.1 hsolution).1
      rcases v.toTable with f | x
      · rfl
      · exact (assignKnown_of_isSome (hr _ (by decide)) (by decide) x).symm
    · split
      · rfl
      · rfl
  · intro name hname v
    have hsolution : name ≠ "solution" := fun h => hname (h ▸ by decide)
    have hstatus : name ≠ "status" := fun h => hname (h ▸ by decide)
    simp [entryValue, hsolution, hstatus]

theorem extends_toRecord (o : Outcome K) : o.toRecord.Extends .outcome [] o.toRecord :=
  extends_ofFields rfl

theorem start_eq_ok {v : Value K} {r : Report K} (h : start v = .ok r) :
    ∃ o : Outcome K, r = o.toRecord := by
  cases v with
  | table entries id =>
    obtain ⟨o, -, h⟩ := bind_eq_ok.1 h
    cases h
    exact ⟨o, rfl⟩
  | _ => cases h

/-- The status that a report starts with is one of its fields. -/
theorem start_only (d : List (String × Value K)) :
    start (optionTable (only .outcome d)) = start (optionTable d) := by
  have hlookup : Value.lookup? (.text "status") (Value.textEntries (only .outcome d)) =
      Value.lookup? (.text "status") (Value.textEntries d) := by
    rw [Value.lookup?_textEntries, Value.lookup?_textEntries, only, List.find?_filter]
    refine congrArg (Option.map Prod.snd) (List.find?_congr fun e _ => ?_)
    rw [Value.sameKey_text]
    by_cases he : e.1 = "status"
    · simp [he, RecordKind.fieldNames]
    · simp [he]
  exact congrArg (fun status => do
    return (← Outcome.make (Option.getD status (.text "unknown")) .none .none).toRecord) hlookup

/-- **A report from a description** goes on to extend the one from the part about the fields. -/
theorem alike_ofTable {d : List (String × Value K)} (hd : ∀ e ∈ d, e.1 ∉ structural) :
    Alike (Extends .outcome (d.map Prod.fst)) (ofTable (optionTable d))
      (ofTable (optionTable (only .outcome d))) := by
  rw [ofTable, ofTable, start_only]
  rcases hstart : start (optionTable d) with f | r
  · exact .error f
  · obtain ⟨o, rfl⟩ := start_eq_ok hstart
    have hfold := (extends_toRecord o).foldlM assigns hd
    have hfilled (d : List (String × Value K)) :
        o.toRecord.filled (fill (optionTable d)) =
          (Value.textEntries d).foldlM assignEntry o.toRecord :=
      filled_fill _ _ _
    change Alike _ (o.toRecord.filled _) (o.toRecord.filled _)
    rw [hfilled, hfilled]
    exact hfold

/-- One report answers like another one, but for the operations whose names are among some keys:
these cannot be called. -/
structure AnswersLike (keys : List String) (r r' : Report K) : Prop where
  toTable_eq : r.toTable =
    if "to_dict" ∈ keys then .error .unsupportedOperand else r'.toTable
  isOptimal_eq : r.isOptimal =
    if "is_optimal" ∈ keys then .error .unsupportedOperand else r'.isOptimal
  hasSolution_eq : r.hasSolution =
    if "has_solution" ∈ keys then .error .unsupportedOperand else r'.hasSolution
  text_eq : r.text = r'.text
  summary_eq : r.summary = r'.summary

theorem answersLike_of_extends {keys : List String} {r r' : Report K}
    (h : r.Extends .outcome keys r') : r.AnswersLike keys r' := by
  have hread : ∀ n ∈ RecordKind.outcome.fieldNames, r.read n = r'.read n := fun n hn => h.read_eq hn
  refine ⟨h.require_bind_eq rfl (by decide) ?_, h.require_bind_eq rfl (by decide) ?_,
    h.require_bind_eq rfl (by decide) ?_, ?_, ?_⟩
  · rw [hread "status" (by decide), hread "objective" (by decide), hread "solution" (by decide),
      hread "gap" (by decide), hread "node_count" (by decide), hread "time" (by decide)]
  · rw [hread "status" (by decide)]
  · rw [hread "solution" (by decide)]
  · rw [text, text, hread "solution" (by decide), hread "status" (by decide),
      hread "objective" (by decide), hread "time" (by decide)]
  · rw [summary, summary, hread "status" (by decide), hread "objective" (by decide),
      hread "gap" (by decide), hread "node_count" (by decide), hread "time" (by decide),
      hread "solution" (by decide)]

/-- A value as a table is a new table. -/
theorem exists_of_toTable_eq_ok {v t : Value K} (h : v.toTable = .ok t) :
    ∃ entries, t = .newTable entries := by
  cases v with
  | table entries id =>
    cases h
    exact ⟨entries, rfl⟩
  | _ =>
    obtain ⟨parts, -, h⟩ := bind_eq_ok.1 h
    obtain ⟨entries, -, h⟩ := bind_eq_ok.1 h
    cases h
    exact ⟨entries, rfl⟩

/-- The parts of the table of a report. -/
theorem toTable_eq_ok {r : Report K} {v : Value K} (h : r.toTable = .ok v) :
    ∃ status objective solution gap nodes time, r.read "status" = .ok status ∧
      (solution = .none ∨ ∃ entries, solution = .newTable entries) ∧
      v = optionTable [("status", status), ("objective", objective), ("solution", solution),
        ("gap", gap), ("node_count", nodes), ("time", time)] := by
  obtain ⟨_, -, h⟩ := bind_eq_ok.1 h
  obtain ⟨status, hstatus, h⟩ := bind_eq_ok.1 h
  obtain ⟨objective, -, h⟩ := bind_eq_ok.1 h
  obtain ⟨raw, -, h⟩ := bind_eq_ok.1 h
  have hsolution : ∃ solution, (solution = .none ∨ ∃ entries, solution = .newTable entries) ∧
      (do
        let gap ← r.read "gap"
        let nodes ← r.read "node_count"
        let time ← r.read "time"
        return optionTable [("status", status), ("objective", objective), ("solution", solution),
          ("gap", gap), ("node_count", nodes), ("time", time)]) = .ok v := by
    dsimp only at h
    split at h
    · obtain ⟨solution, hsolution, h⟩ := bind_eq_ok.1 h
      exact ⟨solution, .inr (exists_of_toTable_eq_ok hsolution), h⟩
    · exact ⟨.none, .inl rfl, h⟩
  obtain ⟨solution, hsolution, h⟩ := hsolution
  obtain ⟨gap, -, h⟩ := bind_eq_ok.1 h
  obtain ⟨nodes, -, h⟩ := bind_eq_ok.1 h
  obtain ⟨time, -, h⟩ := bind_eq_ok.1 h
  cases h
  exact ⟨status, objective, solution, gap, nodes, time, hstatus, hsolution, rfl⟩

/-- **A report comes back from its table** with the same table, if its status is one. -/
theorem toTable_ofTable {r : Report K} {status : Value K} (hstatus : r.read "status" = .ok status)
    (hvalid : status.isOneOf (statuses.map .text) = .ok true) :
    (do toTable (← ofTable (← r.toTable))) = r.toTable := by
  rcases htable : r.toTable with f | v
  · rfl
  · obtain ⟨status', objective, solution, gap, nodes, time, hread, hsolution, rfl⟩ :=
      toTable_eq_ok htable
    obtain rfl : status' = status := Except.ok.inj (hread.symm.trans hstatus)
    have hstart (rest : List (String × Value K)) :
        start (optionTable (("status", status') :: rest)) =
          .ok (Outcome.plain status' .none .none).toRecord := by
      have hmake : Outcome.make status' .none .none = .ok (Outcome.plain status' .none .none) := by
        rw [Outcome.make, hvalid]
        rfl
      change (Outcome.make status' .none .none >>= _) = _
      rw [hmake]
      rfl
    change (ofTable (optionTable _) >>= toTable) = _
    rw [ofTable, hstart]
    rcases hsolution with rfl | ⟨entries, rfl⟩
    · rfl
    · rfl

end Report

/-! ## Descriptions -/

namespace Run

/-- A record that is made by assignments is the record after them. -/
theorem exec_addRecord_of_filled {start r : Record K} {filling : Filling K Unit}
    (h : start.filled filling = .ok r) (t : Session K) :
    exec (addRecord start filling) t = exec (addRecord r (pure ())) t := by
  have hfilling : (ExceptT.run filling).run start =
      (ExceptT.run (pure () : Filling K Unit)).run r := by
    rw [Record.filled] at h
    rcases hrun : (ExceptT.run filling).run start with ⟨f | _, s⟩ <;> rw [hrun] at h <;> cases h
    rfl
  rw [addRecord, addRecord, hfilling]

theorem exec_addReport_of_ofTable {v : Value K} {r : Report K} (h : Report.ofTable v = .ok r)
    (t : Session K) :
    exec (do addRecord (← Report.start v) (Report.fill v)) t = exec (addRecord r (pure ())) t := by
  obtain ⟨start, hstart, h⟩ := bind_eq_ok.1 h
  rw [hstart, exec_bind_of_ok (exec_liftM _ t)]
  exact exec_addRecord_of_filled h t

end Run

namespace Record

/-- **Records and the tables that describe them.**  A session keeps the record that a table
describes.  Whatever keys a description has besides the names of the fields, the settings answer
like those that its part about the fields describes, and so does a report, with the same failure if
one of them fails; but an operation whose name is a key cannot be called any more.  Settings come
back from their own table with the same table, and so does a report whose status is one. -/
theorem described_spec :
    (∀ (v : Value K) (t : Session K),
      (∀ s, Settings.ofTable v = .ok s →
        exec (Run.addRecord Settings.standard (Settings.fill v)) t =
          exec (Run.addRecord s (pure ())) t) ∧
      ∀ r, Report.ofTable v = .ok r →
        exec (do Run.addRecord (← Report.start v) (Report.fill v)) t =
          exec (Run.addRecord r (pure ())) t) ∧
    (∀ d : List (String × Value K), (∀ e ∈ d, e.1 ∉ structural) →
      (∃ s s', Settings.ofTable (optionTable d) = .ok s ∧
        Settings.ofTable (optionTable (only .settings d)) = .ok s' ∧
        s.AnswersLike (d.map Prod.fst) s') ∧
      Alike (Report.AnswersLike (d.map Prod.fst)) (Report.ofTable (optionTable d))
        (Report.ofTable (optionTable (only .outcome d)))) ∧
    (∀ s : Settings K, (do Settings.toTable (← Settings.ofTable (← s.toTable))) = s.toTable) ∧
    ∀ (r : Report K) (status : Value K), r.read "status" = .ok status →
      status.isOneOf (statuses.map .text) = .ok true →
      (do Report.toTable (← Report.ofTable (← r.toTable))) = r.toTable := by
  refine ⟨fun v t => ⟨fun s hs => Run.exec_addRecord_of_filled hs t,
    fun r hr => Run.exec_addReport_of_ofTable hr t⟩, fun d hd => ⟨?_, ?_⟩,
    Settings.toTable_ofTable, fun r status => Report.toTable_ofTable⟩
  · obtain ⟨s, hs⟩ := Settings.exists_ofTable_eq_ok hd
    obtain ⟨s', hs', hextends⟩ := (Settings.alike_ofTable hd).exists_ok hs
    exact ⟨s, s', hs, hs', Settings.answersLike_of_extends hextends⟩
  · exact (Report.alike_ofTable hd).mono fun r r' => Report.answersLike_of_extends

/-- A description with a key that means nothing and one that is the name of an operation. -/
def overreaching : List (String × Value Float) :=
  [("threads", .int 4), ("color", .text "red"), ("to_highs_options", .int 1)]

/-- The settings have their threads, their table and their text, but one operation is gone; and the
report of an optimal solve comes back from its table. -/
theorem described_spec_overreaching :
    (∃ s s', Settings.ofTable (optionTable overreaching) = .ok s ∧
      Settings.ofTable (optionTable [("threads", .int 4)]) = .ok s' ∧
      s.toTable = s'.toTable ∧ s.text = s'.text ∧ s.textOptions = .error .unsupportedOperand) ∧
    let r : Report Float := (Outcome.plain (.text "optimal") .none .none).toRecord
    (do Report.toTable (← Report.ofTable (← r.toTable))) = r.toTable := by
  obtain ⟨-, hdescribed, -, hback⟩ := described_spec (K := Float)
  have hfree : ∀ e ∈ overreaching, e.1 ∉ structural := by decide
  obtain ⟨⟨s, s', hs, hs', hanswers⟩, -⟩ := hdescribed overreaching hfree
  exact ⟨⟨s, s', hs, hs', hanswers.toTable_eq, hanswers.text_eq, hanswers.textOptions_eq⟩,
    hback _ (.text "optimal") rfl rfl⟩

/-- **A key that is none of a field may matter:** one that is the name of an operation takes the
operation away, and one that is the name of the class of a record lets the description fail. -/
theorem exists_unknown_key_kept : ∃ d : List (String × Value Float),
    only .settings d = [] ∧
    (∃ s s' : Settings Float, ∃ options, Settings.ofTable (optionTable d) = .ok s ∧
      Settings.ofTable (optionTable []) = .ok s' ∧
      s'.textOptions = .ok options ∧ s.textOptions = .error .unsupportedOperand) ∧
    only .settings [("__class__", (.int 1 : Value Float))] = [] ∧
    Settings.ofTable (optionTable [("__class__", (.int 1 : Value Float))]) =
      .error .unsupportedOperand :=
  ⟨[("to_highs_options", .int 1)], rfl, ⟨_, _, _, rfl, rfl, rfl, rfl⟩, rfl, rfl⟩

end Record

end MixedInteger
