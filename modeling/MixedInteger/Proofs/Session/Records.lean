import MixedInteger.Proofs.Session.Steps
import MixedInteger.Proofs.Value.Table

/-!
# Records and solutions of a session

The outcome of a solve becomes a record of the session, and a solution reads the values of such a
record.

## What is here

* `Session.withOutcome`, `Session.withSolution` — a session after one more outcome or solution.
* `Session.IsNumbered` — numbers from the counter of the session on have not been given.
* `Session.exists_record?_withOutcome` — what the record of an outcome holds.
* `Run.exec_addSolution_of_table` — what a solution is made from.
* `Solution.collect_table_eq_ok`, `Solution.get_repaintEntries` — the values that it holds and answers.
-/

set_option autoImplicit false

namespace MixedInteger

variable {K : Type} [Arithmetic K]

open Arithmetic Fallible

namespace Session

/-- The session with one more outcome. -/
def withOutcome (s : Session K) (o : Outcome K) : Session K :=
  let fields := Value.identifyEntries s.counter o.toRecord.fields
  { s with
    counter := fields.2 + 1
    tables := (fields.2, fields.1) :: s.tables.filter fun t => t.1 != fields.2
    records := s.records ++ [fields.2] }

/-- The session with one more solution. -/
def withSolution (s : Session K) (x : Solution K) : Session K :=
  { s with solutions := s.solutions ++ [x] }

/-- Numbers from the counter on have not been given to tables that hold fields. -/
def IsNumbered (s : Session K) : Prop := ∀ t ∈ s.tables, t.1 < s.counter

theorem isNumbered_start : (start : Session K).IsNumbered := fun _ h => absurd h List.not_mem_nil

theorem IsNumbered.withOutcome {s : Session K} (h : s.IsNumbered) (o : Outcome K) :
    (s.withOutcome o).IsNumbered := by
  have hle := Value.le_identifyEntries s.counter o.toRecord.fields
  refine List.forall_mem_cons.2 ⟨Nat.lt_succ_self _, fun t ht => ?_⟩
  exact (h t (List.mem_filter.1 ht).1).trans_le (hle.trans (Nat.le_succ _))

/-- The tables that were there before hold no number that the fields of the outcome have got. -/
theorem entries?_withOutcome_eq_none {s : Session K} (h : s.IsNumbered) (o : Outcome K) {i : Nat}
    (hle : s.counter ≤ i) (hlt : i < (Value.identifyEntries s.counter o.toRecord.fields).2) :
    (s.withOutcome o).entries? i = none := by
  rw [entries?, Option.map_eq_none_iff, List.find?_eq_none]
  refine List.forall_mem_cons.2 ⟨?_, fun t ht => ?_⟩
  · exact fun heq => hlt.ne' (beq_iff_eq.1 heq)
  · exact fun heq => (h t (List.mem_filter.1 ht).1).not_ge (beq_iff_eq.1 heq ▸ hle)

theorem isSettled_of_mem_toRecord {o : Outcome K} :
    ∀ e ∈ o.toRecord.fields, e.1.isSettled = true ∧ e.1.isKey = true := by
  refine List.forall_mem_map.2 fun f _ => ⟨rfl, rfl⟩

/-- **The record of an outcome** holds the fields of the outcome, also after more has happened. -/
theorem exists_record?_withOutcome (s : Session K) (o : Outcome K) {t : Session K}
    (hrecords : t.records = (s.withOutcome o).records)
    (htables : t.tables = (s.withOutcome o).tables) :
    ∃ r, t.record? (.outcome s.records.length) = some r ∧
      ∀ name v, o.toRecord.field? name = some v → ∃ i, s.counter ≤ i ∧
        (v.identify i).2 ≤ (Value.identifyEntries s.counter o.toRecord.fields).2 ∧
        r.read name = .ok ((v.identify i).1.repaint t.look []) := by
  have htable : t.records[s.records.length]? =
      some (Value.identifyEntries s.counter o.toRecord.fields).2 := by
    rw [hrecords]
    simp [withOutcome]
  have hentries : t.entries? (Value.identifyEntries s.counter o.toRecord.fields).2 =
      some (Value.identifyEntries s.counter o.toRecord.fields).1 := by
    rw [entries?, htables]
    simp [withOutcome]
  have hrecord : t.record? (.outcome s.records.length) = some ⟨.outcome,
      Value.repaintEntries t.look [] (Value.identifyEntries s.counter o.toRecord.fields).1,
      some (Value.identifyEntries s.counter o.toRecord.fields).2⟩ := by
    simp only [record?, recordWithin?, htable, Option.bind_eq_bind, Option.bind_some, hentries]
    rfl
  refine ⟨_, hrecord, fun name v h => ?_⟩
  obtain ⟨i, hle, hlt, hfound⟩ := Value.exists_lookup?_identifyEntries h
    (fun e he => (isSettled_of_mem_toRecord e he).1) s.counter
  refine ⟨i, hle, hlt, ?_⟩
  have hkeys : ∀ e ∈ (Value.identifyEntries s.counter o.toRecord.fields).1, e.1.isKey = true := by
    intro e he
    have hmem : e.1 ∈ o.toRecord.fields.map Prod.fst := by
      rw [← Value.map_fst_identifyEntries (fun e he => (isSettled_of_mem_toRecord e he).1) s.counter]
      exact List.mem_map_of_mem he
    obtain ⟨f, hf, hfe⟩ := List.mem_map.1 hmem
    exact hfe ▸ (isSettled_of_mem_toRecord f hf).2
  rw [Record.read, Record.field?, Value.lookup?_repaintEntries _ _ hkeys, hfound]
  rfl

theorem look_entries?_eq_none {s : Session K} {i : Nat} (h : s.entries? i = none) :
    (s.look []).entries? i = none := by
  rw [look, lookWithin]
  dsimp only
  rw [h]
  rfl

/-- **The record of an outcome with a table** as its solution. -/
theorem exists_read_newTable {s : Session K} (hs : s.IsNumbered) {o : Outcome K}
    {entries : List (Value K × Value K)} (ho : o.solution = .newTable entries) :
    ∃ r i j, (s.withOutcome o).record? (.outcome s.records.length) = some r ∧
      r.read "solution" = .ok (.table (Value.repaintEntries (s.withOutcome o).look [.inside j]
        (Value.identifyEntries i entries).1) (some j)) := by
  obtain ⟨r, hr, hread⟩ := exists_record?_withOutcome s o (t := s.withOutcome o) rfl rfl
  obtain ⟨i, hle, hlt, hsolution⟩ := hread "solution" o.solution rfl
  have hidentify : (Value.newTable entries).identify i =
      (.table (Value.identifyEntries i entries).1 (some (Value.identifyEntries i entries).2),
        (Value.identifyEntries i entries).2 + 1) := rfl
  rw [ho, hidentify] at hlt hsolution
  refine ⟨r, i, (Value.identifyEntries i entries).2, hr,
    hsolution.trans (congrArg Except.ok ?_)⟩
  have hfree := look_entries?_eq_none (entries?_withOutcome_eq_none hs o
    (hle.trans (Value.le_identifyEntries i entries)) hlt)
  rw [Value.repaint, hfree]
  rfl

/-- If everything in the table has its numbers already, they stay. -/
theorem exists_read_solution {s : Session K} (hs : s.IsNumbered) {o : Outcome K}
    {entries : List (Value K × Value K)} (ho : o.solution = .newTable entries)
    (hentries : Value.areEntriesSettled entries = true) :
    ∃ r i, (s.withOutcome o).record? (.outcome s.records.length) = some r ∧
      r.read "solution" = .ok (.table
        (Value.repaintEntries (s.withOutcome o).look [.inside i] entries) (some i)) := by
  obtain ⟨r, i, j, hr, hsolution⟩ := exists_read_newTable hs ho
  rw [Value.identifyEntries_of_areSettled i entries hentries] at hsolution
  exact ⟨r, j, hr, hsolution⟩

end Session

namespace Run

theorem exec_addOutcome (o : Outcome K) (s : Session K) : exec (addOutcome o) s =
    (.ok (.handle (.outcome s.records.length)
      ((s.withOutcome o).portrait (.outcome s.records.length))), s.withOutcome o) :=
  rfl

theorem exec_record {h : Handle} {s : Session K} {r : Record K} (hr : s.record? h = some r) :
    exec (record h) s = (.ok r, s) := by
  rw [record, exec_bind_of_ok (exec_get s), hr]
  rfl

theorem exec_solution {k : Nat} {s : Session K} {x : Solution K} (hx : s.solutions[k]? = some x) :
    exec (solution k) s = (.ok { x with values := Value.repaintEntries s.look [] x.values }, s) := by
  rw [solution, exec_bind_of_ok (exec_get s), hx]
  rfl

/-- A solution of a report without one holds no values. -/
theorem exec_addSolution_of_none {report : Handle} {s : Session K} {r : Record K}
    (hr : s.record? report = some r) (hraw : r.read "solution" = .ok .none) (vars : Value K) :
    exec (addSolution report vars) s = (.ok (.handle (.solution s.solutions.length)
      ((s.withSolution ⟨report, []⟩).portrait (.solution s.solutions.length))),
      s.withSolution ⟨report, []⟩) := by
  rw [addSolution, exec_bind_of_ok (exec_record hr), hraw]
  rfl

/-- A solution of a report with one holds what is collected from it for the variables. -/
theorem exec_addSolution_of_isPresent {report : Handle} {s : Session K} {r : Record K}
    {raw : Value K} (hr : s.record? report = some r) (hraw : r.read "solution" = .ok raw)
    (hpresent : raw.isPresent = true) (vs : List (Variable K)) :
    exec (addSolution report (.list (vs.map .var))) s =
      match Solution.collect raw (vs.map fun v => (.var v, some v.name)) with
      | .ok values => (.ok (.handle (.solution s.solutions.length)
          ((s.withSolution ⟨report, values⟩).portrait (.solution s.solutions.length))),
          s.withSolution ⟨report, values⟩)
      | .error f => (.error f, s) := by
  have hnamed : exec ((vs.map .var).mapM fun v => do return (v, ← nameOf v) : Run K _) s =
      (.ok ((vs.map .var).map fun v => (v, v.nameOf?)), s) := by
    refine exec_mapM_of_ok fun v hv => ?_
    obtain ⟨w, -, rfl⟩ := List.mem_map.1 hv
    rfl
  rw [List.map_map] at hnamed
  rw [addSolution, exec_bind_of_ok (exec_record hr), hraw, exec_bind_of_ok (exec_liftM _ s),
    if_pos hpresent]
  change exec ((vs.map .var).mapM (fun v => do return (v, ← nameOf v)) >>= fun named => _) s = _
  rw [exec_bind_of_ok hnamed]
  change exec (liftM (Solution.collect raw (vs.map fun v => (.var v, some v.name))) >>= _) s = _
  rcases Solution.collect raw (vs.map fun v => (.var v, some v.name)) with f | values
  · rfl
  · rfl

/-- A solution of a report with a table holds what the table holds for the variables. -/
theorem exec_addSolution_of_table {report : Handle} {s : Session K} {r : Record K}
    {entries : List (Value K × Value K)} {id : Option Nat} {vs : List (Variable K)}
    {values : List (Value K × Value K)} (hr : s.record? report = some r)
    (hraw : r.read "solution" = .ok (.table entries id))
    (hvalues : Solution.collect (.table entries id)
      (vs.map fun v => (.var v, some v.name)) = .ok values) :
    exec (addSolution report (.list (vs.map .var))) s =
      (.ok (.handle (.solution s.solutions.length)
        ((s.withSolution ⟨report, values⟩).portrait (.solution s.solutions.length))),
        s.withSolution ⟨report, values⟩) := by
  rw [exec_addSolution_of_isPresent hr hraw rfl, hvalues]

end Run

namespace Solution

/-- A table can be searched for variables under any names that can be keys. -/
theorem exists_collect_table_eq_ok (entries : List (Value K × Value K)) (i : Option Nat)
    {vs : List (Variable K)} (hkeys : ∀ v ∈ vs, v.name.isKey = true) :
    ∃ values, collect (.table entries i) (vs.map fun v => (.var v, some v.name)) = .ok values := by
  have hfold : ∀ before, ∃ values, (vs.map fun v => (Value.var v, some v.name)).foldlM
      (collectOne (.table entries i)) before = .ok values := by
    induction vs with
    | nil => exact fun before => ⟨before, rfl⟩
    | cons v vs ih =>
      intro before
      rw [List.forall_mem_cons] at hkeys
      have hone : ∃ values, collectOne (.table entries i) before (.var v, some v.name) =
          .ok values := by
        simp only [collectOne, reported?, hkeys.1, if_true]
        rcases Value.lookup? v.name entries with _ | x
        · exact ⟨_, rfl⟩
        · exact ⟨_, rfl⟩
      obtain ⟨values, hone⟩ := hone
      rw [List.map_cons, List.foldlM_cons, hone]
      exact ih hkeys.2 values
  exact hfold []

/-- What some entries hold under the names of variables, in the order of the variables. -/
def tableOf (vs : List (Variable K)) (entries : List (Value K × Value K)) :
    List (Value K × Value K) :=
  vs.filterMap fun v => (Value.lookup? v.name entries).map fun y => (.var v, y)

theorem exists_of_mem_tableOf {entries : List (Value K × Value K)} {vs : List (Variable K)}
    {e : Value K × Value K} (he : e ∈ tableOf vs entries) :
    ∃ v ∈ vs, e.1 = .var v ∧ Value.lookup? v.name entries = some e.2 := by
  obtain ⟨v, hv, hve⟩ := List.mem_filterMap.1 he
  obtain ⟨y, hy, rfl⟩ := Option.map_eq_some_iff.1 hve
  exact ⟨v, hv, rfl, hy⟩

/-- **A solution has what the table holds** under the names of the variables. -/
theorem collect_table (entries : List (Value K × Value K)) (i : Option Nat)
    {vs : List (Variable K)} (hids : (vs.map fun v => v.id).Nodup)
    (hkeys : ∀ v ∈ vs, v.name.isKey = true) :
    collect (.table entries i) (vs.map fun v => (.var v, some v.name)) =
      .ok (tableOf vs entries) := by
  have hfold : ∀ before : List (Variable K), ((before ++ vs).map fun v => v.id).Nodup →
      (vs.map fun v => (Value.var v, some v.name)).foldlM (collectOne (.table entries i))
        (tableOf before entries) = .ok (tableOf (before ++ vs) entries) := by
    intro before hbefore
    induction vs generalizing before with
    | nil => rw [List.append_nil]; rfl
    | cons v vs ih =>
      rw [List.map_cons, List.nodup_cons] at hids
      rw [List.forall_mem_cons] at hkeys
      have hone : collectOne (.table entries i) (tableOf before entries) (.var v, some v.name) =
          .ok (tableOf (before ++ [v]) entries) := by
        have hnew : ∀ e ∈ tableOf before entries, e.1.sameKey (.var v) = false := by
          intro e he
          obtain ⟨u, hu, hkey, -⟩ := exists_of_mem_tableOf he
          rw [List.map_append, List.nodup_append] at hbefore
          have hne := hbefore.2.2 u.id (List.mem_map_of_mem hu) v.id (by simp)
          rw [hkey]
          exact beq_eq_false_iff_ne.2 hne
        have happend : tableOf (before ++ [v]) entries =
            tableOf before entries ++ tableOf [v] entries := List.filterMap_append
        simp only [collectOne, reported?, hkeys.1, if_true]
        rw [happend]
        rcases hy : Value.lookup? v.name entries with _ | y
        · have hlast : tableOf [v] entries = [] := by rw [tableOf, List.filterMap_cons, hy]; rfl
          rw [hlast, List.append_nil]
          rfl
        · have hlast : tableOf [v] entries = [(.var v, y)] := by
            rw [tableOf, List.filterMap_cons, hy]
            rfl
          rw [hlast, ← Value.insert_of_apart hnew]
          rfl
      rw [List.append_cons] at hbefore ⊢
      rw [List.map_cons, List.foldlM_cons, hone]
      exact ih hids.2 hkeys.2 (before ++ [v]) hbefore
  exact hfold [] hids

/-- **A solution has a value for each variable** whose name has one in the table. -/
theorem collect_table_eq_ok {entries : List (Value K × Value K)} {i : Option Nat}
    {vs : List (Variable K)} {f : Variable K → Value K} (hids : (vs.map fun v => v.id).Nodup)
    (hkeys : ∀ v ∈ vs, v.name.isKey = true)
    (h : ∀ v ∈ vs, Value.lookup? v.name entries = some (f v)) :
    collect (.table entries i) (vs.map fun v => (.var v, some v.name)) =
      .ok (vs.map fun v => (.var v, f v)) := by
  have htable : tableOf vs entries = vs.map fun v => (.var v, f v) := by
    rw [tableOf, ← List.filterMap_eq_map]
    refine List.filterMap_congr fun v hv => ?_
    rw [h v hv]
    rfl
  rw [collect_table entries i hids hkeys, htable]

/-- What a solution answers for a variable, however its values look. -/
theorem get_repaintEntries [Comparable K] {report : Handle} {vs : List (Variable K)}
    {f : Variable K → Value K} (hids : (vs.map fun v => v.id).Nodup) (look : Look K)
    {v : Variable K} (hv : v ∈ vs) :
    get ⟨report, Value.repaintEntries look [] (vs.map fun v => (.var v, f v))⟩ (.var v) =
      .ok ((f v).repaint look []) := by
  have hkeys : ∀ e ∈ vs.map fun v => (Value.var v, f v), e.1.isKey = true :=
    List.forall_mem_map.2 fun _ _ => rfl
  have hnames : Value.AreNames ((vs.map fun v => (Value.var v, f v)).map Prod.fst) := by
    rw [List.map_map]
    exact Value.areNames_map_var hids
  have hfound := Value.lookup?_of_mem hnames (List.mem_map_of_mem hv)
  rw [get, Value.lookup?_repaintEntries look [] hkeys, hfound]
  rfl

end Solution

end MixedInteger
