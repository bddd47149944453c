import MixedInteger.Proofs.Value.Settled

/-!
# Tables by name

## What is here

* `Value.AreNames` — names that can be looked up and are apart.
* `Value.tableFrom_eq_ok` — a table whose names are apart has all entries that it is made from.
* `Value.exists_tableFrom_eq_ok` — a table can be made of all that can be read under keys.
* `Value.lookup?_of_mem` — each of them is found under its name.
* `Value.textEntries`, `Value.lookup?_insert_text`, `Value.lookup?_textEntries_congr` — values by
  name as entries, and what is found among them.
* `Value.exists_lookup?_identifyEntries`, `Value.lookup?_repaintEntries` — entries that are handed
  over are found where they were.
-/

set_option autoImplicit false

namespace MixedInteger

variable {K : Type} [Arithmetic K]

open Arithmetic

namespace Value

/-! ## Names -/

/-- A value that can be looked up as a name. -/
structure IsName (n : Value K) : Prop where
  ne_none : n ≠ .none
  isKey : n.isKey = true
  isSettled : n.isSettled = true

theorem isName_text (s : String) : (text s : Value K).IsName := ⟨nofun, rfl, rfl⟩

theorem isName_var (v : Variable K) : (var v).IsName := ⟨nofun, rfl, rfl⟩

theorem IsName.repaint {n : Value K} (h : n.IsName) (look : Look K) :
    (n.repaint look []).IsName :=
  ⟨repaint_ne_none look [] h.ne_none, isKey_repaint look [] n h.isKey,
    isSettled_repaint look [] n h.isKey h.isSettled⟩

/-- Names that can be looked up, none of which is found under a later one. -/
structure AreNames (ns : List (Value K)) : Prop where
  isName : ∀ n ∈ ns, n.IsName
  apart : ns.Pairwise fun n k => n.sameKey k = false

theorem areNames_nil : AreNames ([] : List (Value K)) := ⟨fun _ h => absurd h List.not_mem_nil, .nil⟩

/-- Variables that are apart can be looked up as well. -/
theorem areNames_map_var {vs : List (Variable K)} (h : (vs.map fun v => v.id).Nodup) :
    AreNames (vs.map var) := by
  refine ⟨List.forall_mem_map.2 fun v _ => isName_var v, List.pairwise_map.2 ?_⟩
  exact (List.pairwise_map.1 h).imp fun hne => beq_eq_false_iff_ne.2 hne

theorem AreNames.concat {ns : List (Value K)} (h : AreNames ns) {n : Value K} (hn : n.IsName)
    (hfree : ∀ k ∈ ns, k.sameKey n = false) : AreNames (ns ++ [n]) := by
  refine ⟨List.forall_mem_append.2 ⟨h.isName, List.forall_mem_singleton.2 hn⟩, ?_⟩
  refine List.pairwise_append.2 ⟨h.apart, List.pairwise_singleton _ _, fun k hk l hl => ?_⟩
  rw [List.mem_singleton.1 hl]
  exact hfree k hk

theorem AreNames.repaint {ns : List (Value K)} (h : AreNames ns) (look : Look K) :
    AreNames (ns.map (Value.repaint look [])) := by
  refine ⟨List.forall_mem_map.2 fun n hn => (h.isName n hn).repaint look, ?_⟩
  refine List.pairwise_map.2 (h.apart.imp_of_mem fun {n k} hn hk hne => ?_)
  rwa [sameKey_repaint look [] (h.isName n hn).isKey (h.isName k hk).isKey]

/-! ## Entries -/

theorem lookup?_cons (key : Value K) (e : Value K × Value K) (entries : List (Value K × Value K)) :
    lookup? key (e :: entries) =
      if e.1.sameKey key = true then some e.2 else lookup? key entries := by
  rw [lookup?, List.find?_cons]
  cases e.1.sameKey key <;> rfl

/-- What is found stands in an entry. -/
theorem exists_mem_of_lookup? {key y : Value K} {entries : List (Value K × Value K)}
    (h : lookup? key entries = some y) : ∃ e ∈ entries, e.2 = y := by
  obtain ⟨e, he, hy⟩ := Option.map_eq_some_iff.1 h
  exact ⟨e, List.mem_of_find?_eq_some he, hy⟩

/-- An entry under a name that is not there comes last. -/
theorem insert_of_apart {entries : List (Value K × Value K)} {name value : Value K}
    (h : ∀ e ∈ entries, e.1.sameKey name = false) :
    insert name value entries = entries ++ [(name, value)] := by
  induction entries with
  | nil => rfl
  | cons e entries ih =>
    rw [List.forall_mem_cons] at h
    rw [insert, h.1, ih h.2]
    rfl

/-- **Each entry is found under its name.** -/
theorem lookup?_of_mem [Comparable K] {entries : List (Value K × Value K)}
    (h : AreNames (entries.map Prod.fst)) {e : Value K × Value K} (he : e ∈ entries) :
    lookup? e.1 entries = some e.2 := by
  obtain ⟨before, after, rfl⟩ := List.append_of_mem he
  have hname := h.isName e.1 (List.mem_map_of_mem he)
  have hapart := (List.pairwise_append.1 (List.pairwise_map.1 h.apart)).2.2
  have hfind : (before ++ e :: after).find? (fun f => f.1.sameKey e.1) = some e := by
    refine List.find?_eq_some_iff_append.2 ⟨sameKey_self e.1 hname.isKey hname.isSettled, before,
      after, rfl, fun f hf => ?_⟩
    rw [hapart f hf e List.mem_cons_self]
    rfl
  rw [lookup?, hfind]
  rfl

/-- **A table takes in all entries whose names are apart**, in order. -/
theorem tableFrom_eq_ok {α : Type} {read : α → Except Fault (Value K × Value K)} {parts : List α}
    {entries : List (Value K × Value K)} (h : List.Forall₂ (fun p e => read p = .ok e) parts entries)
    (hnames : AreNames (entries.map Prod.fst)) :
    tableFrom read parts = .ok (newTable entries) := by
  have hfold : ∀ (before : List (Value K × Value K)), AreNames ((before ++ entries).map Prod.fst) →
      parts.foldlM (fun acc p => do insertEntry acc (← read p)) before = .ok (before ++ entries) := by
    intro before hbefore
    induction h generalizing before with
    | nil => rw [List.append_nil]; rfl
    | @cons p e parts entries hp _ ih =>
      have hlast : ∀ f ∈ before, f.1.sameKey e.1 = false := fun f hf =>
        (List.pairwise_append.1 (List.pairwise_map.1 hbefore.apart)).2.2 f hf e List.mem_cons_self
      have hkey := (hbefore.isName e.1 (List.mem_map_of_mem (by simp))).isKey
      rw [List.append_cons] at hbefore ⊢
      rw [List.foldlM_cons, hp]
      change (insertEntry before e >>= _) = _
      rw [insertEntry, if_pos hkey, insert_of_apart hlast]
      refine ih ?_ (before ++ [e]) hbefore
      rw [List.map_append] at hbefore
      exact ⟨fun n hn => hbefore.isName n (List.mem_append_right _ hn),
        (List.pairwise_append.1 hbefore.apart).2.1⟩
  rw [tableFrom, hfold [] hnames]
  rfl

/-- A table is made of whatever can be read as entries under keys. -/
theorem exists_tableFrom_eq_ok {α : Type} {read : α → Except Fault (Value K × Value K)}
    {parts : List α} (h : ∀ p ∈ parts, ∃ e, read p = .ok e ∧ e.1.isKey = true) :
    ∃ entries, tableFrom read parts = .ok (newTable entries) := by
  have hfold : ∀ before, ∃ entries,
      parts.foldlM (fun acc p => do insertEntry acc (← read p)) before = .ok entries := by
    induction parts with
    | nil => exact fun before => ⟨before, rfl⟩
    | cons p parts ih =>
      intro before
      rw [List.forall_mem_cons] at h
      obtain ⟨⟨e, he, hkey⟩, hrest⟩ := h
      obtain ⟨entries, hentries⟩ := ih hrest (insert e.1 e.2 before)
      refine ⟨entries, ?_⟩
      rw [List.foldlM_cons, he]
      change (insertEntry before e >>= _) = _
      rw [insertEntry, if_pos hkey]
      exact hentries
  obtain ⟨entries, hentries⟩ := hfold []
  exact ⟨entries, by rw [tableFrom, hentries]; rfl⟩

/-! ## Entries under texts -/

/-- Values by name as the entries of a table. -/
def textEntries (d : List (String × Value K)) : List (Value K × Value K) :=
  d.map fun e => (text e.1, e.2)

/-- A key that is one with a text is the text. -/
theorem sameKey_text_iff {v : Value K} {s : String} : v.sameKey (text s) = true ↔ v = text s := by
  cases v with
  | text t => rw [sameKey_text, beq_iff_eq, Value.text.injEq]
  | constraint c id =>
    cases id with
    | none => exact ⟨nofun, nofun⟩
    | some i => exact ⟨nofun, nofun⟩
  | _ => exact ⟨nofun, nofun⟩

theorem text_sameKey_iff {v : Value K} {s : String} : (text s).sameKey v = true ↔ v = text s := by
  cases v with
  | text t => rw [sameKey_text, beq_iff_eq, Value.text.injEq, eq_comm]
  | _ => exact ⟨nofun, nofun⟩

/-- What is found under one text after something has been put under another one. -/
theorem lookup?_insert_text (name key : String) (v : Value K) (entries : List (Value K × Value K)) :
    lookup? (text name) (insert (text key) v entries) =
      if key = name then some v else lookup? (text name) entries := by
  induction entries with
  | nil => simp only [insert, lookup?_cons, sameKey_text, beq_iff_eq]
  | cons e entries ih =>
    rw [insert]
    by_cases he : e.1.sameKey (text key) = true
    · rw [if_pos he, lookup?_cons, lookup?_cons, sameKey_text_iff.1 he]
      simp only [sameKey_text, beq_iff_eq]
      split
      · rfl
      · rfl
    · rw [if_neg he, lookup?_cons, lookup?_cons, ih]
      by_cases hname : e.1.sameKey (text name) = true
      · have hne : key ≠ name := fun h => he (h ▸ hname)
        rw [if_pos hname, if_neg hne, if_pos hname]
      · rw [if_neg hname, if_neg hname]

/-- What is found among values by name. -/
theorem lookup?_textEntries (name : Value K) (d : List (String × Value K)) :
    lookup? name (textEntries d) =
      (d.find? fun e => (text e.1).sameKey name).map Prod.snd := by
  rw [lookup?, textEntries, List.find?_map, Option.map_map]
  rfl

/-- What is found among values by name if no name comes twice. -/
theorem lookup?_textEntries_eq_some_iff {d : List (String × Value K)}
    (hd : (d.map Prod.fst).Nodup) {name x : Value K} :
    lookup? name (textEntries d) = some x ↔ ∃ s, name = text s ∧ (s, x) ∈ d := by
  rw [lookup?_textEntries, Option.map_eq_some_iff]
  constructor
  · rintro ⟨e, he, rfl⟩
    have hname : (text e.1).sameKey name = true :=
      List.find?_some (p := fun e : String × Value K => (text e.1).sameKey name) he
    exact ⟨e.1, text_sameKey_iff.1 hname, List.mem_of_find?_eq_some he⟩
  · rintro ⟨s, rfl, hs⟩
    have hsome : (d.find? fun e => (text e.1).sameKey (text s : Value K)).isSome = true :=
      List.find?_isSome.2 ⟨(s, x), hs, text_sameKey_iff.2 rfl⟩
    obtain ⟨e, he⟩ := Option.isSome_iff_exists.1 hsome
    have hname : (text e.1).sameKey (text s : Value K) = true :=
      List.find?_some (p := fun e : String × Value K => (text e.1).sameKey (text s)) he
    rw [sameKey_text, beq_iff_eq] at hname
    have heq : e = (s, x) :=
      List.inj_on_of_nodup_map hd (List.mem_of_find?_eq_some he) hs hname
    exact ⟨(s, x), heq ▸ he, rfl⟩

/-- The order of values by name does not matter, nor do values under other names. -/
theorem lookup?_textEntries_congr {d d' : List (String × Value K)} (hd : (d.map Prod.fst).Nodup)
    (hd' : (d'.map Prod.fst).Nodup) {name : Value K}
    (h : ∀ s, name = text s → ∀ x, (s, x) ∈ d ↔ (s, x) ∈ d') :
    lookup? name (textEntries d) = lookup? name (textEntries d') := by
  refine Option.ext fun x => ?_
  rw [lookup?_textEntries_eq_some_iff hd, lookup?_textEntries_eq_some_iff hd']
  exact exists_congr fun s => and_congr_right fun hs => h s hs x

/-! ## Entries that are handed over -/

omit [Arithmetic K] in
theorem repaintEntries_eq_map (look : Look K) (path : List Handle)
    (entries : List (Value K × Value K)) : repaintEntries look path entries =
      entries.map fun e => (e.1.repaint look path, e.2.repaint look path) := by
  induction entries with
  | nil => rfl
  | cons e entries ih => rw [repaintEntries, ih, List.map_cons]

/-- Entries are found where they were, however they look. -/
theorem lookup?_repaintEntries (look : Look K) (path : List Handle)
    {entries : List (Value K × Value K)} (h : ∀ e ∈ entries, e.1.isKey = true) (name : Value K) :
    lookup? name (repaintEntries look path entries) =
      (lookup? name entries).map (repaint look path) := by
  have hfind : (repaintEntries look path entries).find? (fun e => e.1.sameKey name) =
      (entries.find? fun e => e.1.sameKey name).map fun e =>
        (e.1.repaint look path, e.2.repaint look path) := by
    rw [repaintEntries_eq_map, List.find?_map]
    congr 1
    refine List.find?_congr fun e he => ?_
    exact (sameKey_repaint_sides look path e.1 (h e he) name).2
  rw [lookup?, hfind, lookup?, Option.map_map, Option.map_map]
  rfl

/-- A number that is handed over is the same number. -/
theorem exists_handedOver_real (x : K) (mark : Option Nat) (look : Look K) (next : Nat)
    {path : List Handle} : ∃ mark', ((scalar (.real x mark)).identify next).1.repaint look path =
      .scalar (.real x mark') := by
  cases mark with
  | some mark => exact ⟨some mark, rfl⟩
  | none =>
    rw [identify]
    split
    · exact ⟨some next, rfl⟩
    · exact ⟨Option.none, rfl⟩

/-- A table that is handed over is a table. -/
theorem exists_handedOver_table (entries : List (Value K × Value K)) (id : Option Nat)
    (look : Look K) (next : Nat) : ∃ entries' id',
      ((table entries id).identify next).1.repaint look [] = .table entries' id' := by
  have hidentify : ∃ entries' i, ((table entries id).identify next).1 = .table entries' (some i) := by
    cases id with
    | some i => exact ⟨_, i, rfl⟩
    | none => exact ⟨_, _, rfl⟩
  obtain ⟨entries', i, hidentify⟩ := hidentify
  rw [hidentify, repaint]
  split
  · rename_i h
    cases h
  · split
    · exact ⟨_, _, rfl⟩
    · exact ⟨_, _, rfl⟩

theorem map_fst_identifyEntries {entries : List (Value K × Value K)}
    (h : ∀ e ∈ entries, e.1.isSettled = true) (next : Nat) :
    (identifyEntries next entries).1.map Prod.fst = entries.map Prod.fst := by
  induction entries generalizing next with
  | nil => rfl
  | cons e entries ih =>
    rw [List.forall_mem_cons] at h
    rw [identifyEntries, identify_of_isSettled next e.1 h.1, List.map_cons, List.map_cons]
    exact congrArg (e.1 :: ·) (ih h.2 _)

/-- What is found under a text once everything has a number. -/
theorem exists_lookup?_identifyEntries {entries : List (Value K × Value K)} {name : String}
    {v : Value K} (h : lookup? (text name) entries = some v)
    (hsettled : ∀ e ∈ entries, e.1.isSettled = true) (next : Nat) :
    ∃ i, next ≤ i ∧ (v.identify i).2 ≤ (identifyEntries next entries).2 ∧
      lookup? (text name) (identifyEntries next entries).1 = some (v.identify i).1 := by
  induction entries generalizing next with
  | nil => cases h
  | cons e entries ih =>
    obtain ⟨k, x⟩ := e
    rw [List.forall_mem_cons] at hsettled
    rw [identifyEntries, identify_of_isSettled next k hsettled.1]
    dsimp only
    have hle := le_identify next x
    by_cases hk : k.sameKey (text name) = true
    · have hv : v = x := by simpa [lookup?, hk] using h.symm
      refine ⟨next, le_rfl, ?_, ?_⟩
      · rw [hv]
        exact le_identifyEntries _ entries
      · simp [lookup?, hk, hv]
    · have h' : lookup? (text name) entries = some v := by simpa [lookup?, hk] using h
      obtain ⟨i, hi, hnext, hfound⟩ := ih h' hsettled.2 (x.identify next).2
      refine ⟨i, hle.trans hi, hnext, ?_⟩
      rw [← hfound]
      simp [lookup?, hk]

end Value

end MixedInteger
