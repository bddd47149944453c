import MixedInteger.Proofs.Session.Records
import MixedInteger.Proofs.Value.Evaluation

/-!
# Solutions by variable

A report has values by name, and a solution of it keeps them by variable.  Variables are told apart
by what they are and not by their names, so a variable of another model has no value, even if it has
the name of one that has.

## What is here

* `Solution.valueOf?`, `Solution.lookup?_tableOf` — what a solution keeps for a variable.
* `Solution.tabulates_tableOf` — the table of values by name.
* `Solution.tableOf_textEntries_congr` — the order of the values by name does not matter, nor do
  values under other names.
* `Solution.Holds`, `Session.Keeps` — what a solution answers for variables and expressions.
* `Record.HasValues`, `Run.exec_addSolution_of_hasValues` — the solution of a report.
-/

set_option autoImplicit false

namespace MixedInteger

variable {K : Type} [Arithmetic K]

open Arithmetic Fallible

namespace Solution

/-! ## Values by variable -/

/-- What entries by name have for a variable, if it is one of the given ones. -/
def valueOf? (vs : List (Variable K)) (entries : List (Value K × Value K)) (v : Variable K) :
    Option (Value K) :=
  (vs.find? fun u => u.id == v.id).bind fun u => Value.lookup? u.name entries

section

variable {vs : List (Variable K)} {entries : List (Value K × Value K)}

/-- A variable is known by what it is, and not by how it looks. -/
theorem valueOf?_congr {u v : Variable K} (h : u.id = v.id) :
    valueOf? vs entries u = valueOf? vs entries v := by
  rw [valueOf?, valueOf?, h]

/-- One of the variables has what is there under its name. -/
theorem valueOf?_of_mem (hids : (vs.map fun v => v.id).Nodup) {v : Variable K} (hv : v ∈ vs) :
    valueOf? vs entries v = Value.lookup? v.name entries := by
  have hsome : (vs.find? fun u => u.id == v.id).isSome = true :=
    List.find?_isSome.2 ⟨v, hv, beq_self_eq_true v.id⟩
  obtain ⟨u, hu⟩ := Option.isSome_iff_exists.1 hsome
  have hid : u.id = v.id :=
    beq_iff_eq.1 (List.find?_some (p := fun u : Variable K => u.id == v.id) hu)
  have heq : u = v := List.inj_on_of_nodup_map hids (List.mem_of_find?_eq_some hu) hv hid
  rw [valueOf?, hu, heq]
  rfl

/-- Another variable has nothing, whatever its name is. -/
theorem valueOf?_of_not_mem {v : Variable K} (hv : v.id ∉ vs.map fun u => u.id) :
    valueOf? vs entries v = none := by
  have hnone : (vs.find? fun u => u.id == v.id) = none := by
    refine List.find?_eq_none.2 fun u hu hid => hv ?_
    exact beq_iff_eq.1 hid ▸ List.mem_map_of_mem hu
  rw [valueOf?, hnone]
  rfl

/-- **What a solution keeps for a variable.** -/
theorem lookup?_tableOf (hids : (vs.map fun v => v.id).Nodup) (v : Variable K) :
    Value.lookup? (.var v) (tableOf vs entries) = valueOf? vs entries v := by
  induction vs with
  | nil => rfl
  | cons u vs ih =>
    rw [List.map_cons, List.nodup_cons] at hids
    have hkey : (Value.var u : Value K).sameKey (.var v) = (u.id == v.id) := rfl
    rw [tableOf, List.filterMap_cons, valueOf?, List.find?_cons]
    cases hid : u.id == v.id with
    | false =>
      rcases Value.lookup? u.name entries with _ | y
      · exact ih hids.2
      · refine (Value.lookup?_cons _ _ _).trans ((if_neg ?_).trans (ih hids.2))
        rw [hkey, hid]
        exact Bool.false_ne_true
    | true =>
      rcases hy : Value.lookup? u.name entries with _ | y
      · have hv : v.id ∉ vs.map fun u => u.id := beq_iff_eq.1 hid ▸ hids.1
        exact (ih hids.2).trans ((valueOf?_of_not_mem hv).trans hy.symm)
      · exact (Value.lookup?_cons _ _ _).trans ((if_pos (hkey.trans hid)).trans hy.symm)

end

/-- What is kept comes in the order of the variables. -/
theorem map_fst_tableOf_sublist (vs : List (Variable K)) (entries : List (Value K × Value K)) :
    ((tableOf vs entries).map Prod.fst).Sublist (vs.map .var) := by
  induction vs with
  | nil => exact .slnil
  | cons v vs ih =>
    rw [tableOf, List.filterMap_cons, List.map_cons]
    rcases Value.lookup? v.name entries with _ | y
    · exact ih.cons _
    · exact ih.cons_cons _

/-- What is kept are the values under the names of the variables. -/
theorem mem_tableOf_textEntries_iff {vs : List (Variable K)} {d : List (String × Value K)}
    (hd : (d.map Prod.fst).Nodup) {e : Value K × Value K} :
    e ∈ tableOf vs (Value.textEntries d) ↔
      ∃ v ∈ vs, ∃ n, v.name = .text n ∧ e.1 = .var v ∧ (n, e.2) ∈ d := by
  constructor
  · intro he
    obtain ⟨v, hv, hkey, hfound⟩ := exists_of_mem_tableOf he
    obtain ⟨n, hn, hmem⟩ := (Value.lookup?_textEntries_eq_some_iff hd).1 hfound
    exact ⟨v, hv, n, hn, hkey, hmem⟩
  · rintro ⟨v, hv, n, hn, hkey, hmem⟩
    have hfound := (Value.lookup?_textEntries_eq_some_iff hd).2 ⟨n, hn, hmem⟩
    refine List.mem_filterMap.2 ⟨v, hv, ?_⟩
    rw [hfound, Option.map_some, ← hkey]

/-- **The order of values by name does not matter**, nor do values under names of no variable. -/
theorem tableOf_textEntries_congr {vs : List (Variable K)} {d d' : List (String × Value K)}
    (hd : (d.map Prod.fst).Nodup) (hd' : (d'.map Prod.fst).Nodup)
    (h : ∀ v ∈ vs, ∀ n, v.name = .text n → ∀ y, (n, y) ∈ d ↔ (n, y) ∈ d') :
    tableOf vs (Value.textEntries d) = tableOf vs (Value.textEntries d') := by
  refine List.filterMap_congr fun v hv => ?_
  rw [Value.lookup?_textEntries_congr hd hd' (h v hv)]

/-- A table has, in the order of the variables, what values by name have for them, and nothing for
other variables. -/
structure Tabulates (vs : List (Variable K)) (d : List (String × Value K))
    (table : List (Value K × Value K)) : Prop where
  mem_iff : ∀ e, e ∈ table ↔ ∃ v ∈ vs, ∃ n, v.name = .text n ∧ e.1 = .var v ∧ (n, e.2) ∈ d
  sublist : (table.map Prod.fst).Sublist (vs.map .var)
  lookup?_eq_some_iff : ∀ u ∈ vs, ∀ v, u.id = v.id → ∀ y,
    Value.lookup? (.var v) table = some y ↔ ∃ n, u.name = .text n ∧ (n, y) ∈ d
  lookup?_eq_none : ∀ v, v.id ∉ vs.map (fun u => u.id) → Value.lookup? (.var v) table = none

/-- **What a solution keeps of values by name.** -/
theorem tabulates_tableOf {vs : List (Variable K)} {d : List (String × Value K)}
    (hids : (vs.map fun v => v.id).Nodup) (hd : (d.map Prod.fst).Nodup) :
    Tabulates vs d (tableOf vs (Value.textEntries d)) where
  mem_iff _ := mem_tableOf_textEntries_iff hd
  sublist := map_fst_tableOf_sublist vs _
  lookup?_eq_some_iff u hu v hid y := by
    rw [lookup?_tableOf hids, valueOf?_congr hid.symm, valueOf?_of_mem hids hu]
    exact Value.lookup?_textEntries_eq_some_iff hd
  lookup?_eq_none v hv := by
    rw [lookup?_tableOf hids]
    exact valueOf?_of_not_mem hv

end Solution

/-! ## What a solution answers -/

/-- A value is a number, and this is the number. -/
def Value.HasNumber (y : Value K) (c : K) : Prop := ∃ s, y = .scalar s ∧ s.toNumber = .ok c

namespace Solution

/-- A solution holds values for variables: this is what it answers for variables and expressions. -/
structure Holds (x : Solution K) (held : Variable K → Option (Value K)) : Prop where
  /-- A variable has the value that is held, or nothing. -/
  get_var : ∀ v, x.get (.var v) = .ok ((held v).getD .none)
  /-- A variable that is to have a value has the one that is held. -/
  require_of_some : ∀ v y, held v = some y → x.require (.var v) (some v.name) = .ok y
  /-- If none is held, the key is reported as missing, by the name of the variable. -/
  require_of_none : ∀ v n, v.name = .text n → held v = none →
    x.require (.var v) (some v.name) = .error (.noValue n)
  /-- An expression has nothing exactly if one of its variables has nothing. -/
  get_expr_eq_none_iff : ∀ e : LinearExpr K, x.get (.expr e) = .ok .none ↔
    ∃ v ∈ e.vars, held v = none
  /-- Otherwise it has its value under the numbers that are held. -/
  get_expr : ∀ e : LinearExpr K, (∀ v ∈ e.vars, held v ≠ none) → ∃ a : Variable K → K,
    (∀ v ∈ e.vars, ∃ y, held v = some y ∧ y.HasNumber (a v)) ∧
      x.get (.expr e) = .ok (.real (e.value a))

section

variable {x : Solution K} {held : Variable K → Option (Value K)}

theorem lacks_iff (hfound : ∀ v, Value.lookup? (.var v) x.values = held v) (v : Variable K) :
    (Value.newTable x.values).Lacks v ↔ held v = none := by
  rw [Value.Lacks, Value.newTable, Value.entryOf, hfound v]
  rcases held v with _ | y
  · exact iff_of_true rfl rfl
  · exact iff_of_false nofun nofun

theorem gives_iff (hfound : ∀ v, Value.lookup? (.var v) x.values = held v) (v : Variable K)
    (c : K) : (Value.newTable x.values).Gives v c ↔ ∃ y, held v = some y ∧ y.HasNumber c := by
  rw [Value.Gives, Value.newTable, Value.entryOf, hfound v]
  constructor
  · rintro ⟨s, hs, hc⟩
    cases hv : held v with
    | none =>
      rw [hv] at hs
      cases hs
    | some y =>
      rw [hv] at hs
      exact ⟨y, rfl, s, Except.ok.inj hs, hc⟩
  · rintro ⟨y, hy, s, rfl, hc⟩
    rw [hy]
    exact ⟨s, rfl, hc⟩

theorem require_var (x : Solution K) (v : Variable K) (name : Value K) :
    x.require (.var v) (some name) = match Value.lookup? (.var v) x.values with
      | some y => .ok y
      | none => name.display >>= fun n => .error (.noValue n) := by
  rcases h : Value.lookup? (.var v) x.values with _ | y
  · simp only [require, h]
    rfl
  · simp only [require, h]
    rfl

/-- What a solution answers for an expression, if all that is held are numbers. -/
theorem get_expr_cases (hfound : ∀ v, Value.lookup? (.var v) x.values = held v)
    (hnumber : ∀ v y, held v = some y → ∃ c, y.HasNumber c) (e : LinearExpr K) :
    x.get (.expr e) = .ok .none ∧ (∃ v ∈ e.vars, held v = none) ∨ ∃ a : Variable K → K,
      (∀ v ∈ e.vars, ∃ y, held v = some y ∧ y.HasNumber (a v)) ∧
        x.get (.expr e) = .ok (.real (e.value a)) := by
  have hcases : ∀ v ∈ e.vars, (Value.newTable x.values).Lacks v ∨
      ∃ c, (Value.newTable x.values).Gives v c := by
    intro v _
    cases hv : held v with
    | none => exact .inl ((lacks_iff hfound v).2 hv)
    | some y =>
      obtain ⟨c, hc⟩ := hnumber v y hv
      exact .inr ⟨c, (gives_iff hfound v c).2 ⟨y, hv, hc⟩⟩
  rcases Value.evaluate_cases hcases with ⟨herror, v, hv, hlacks⟩ | ⟨a, hgives, hvalue⟩
  · refine .inl ⟨?_, v, hv, (lacks_iff hfound v).1 hlacks⟩
    rw [get, herror]
  · refine .inr ⟨a, fun v hv => (gives_iff hfound v (a v)).1 (hgives v hv), ?_⟩
    rw [get, hvalue]

/-- **What a solution answers** follows from what is found among its values, if all are numbers. -/
theorem holds_of_lookup? (hfound : ∀ v, Value.lookup? (.var v) x.values = held v)
    (hnumber : ∀ v y, held v = some y → ∃ c, y.HasNumber c) : x.Holds held where
  get_var v := by rw [get, hfound v]
  require_of_some v y hy := by rw [require_var, hfound v, hy]
  require_of_none v n hn hnone := by
    rw [require_var, hfound v, hnone, hn, Value.display_text]
    rfl
  get_expr_eq_none_iff e := by
    rcases get_expr_cases hfound hnumber e with ⟨hget, hnone⟩ | ⟨a, ha, hget⟩
    · exact iff_of_true hget hnone
    · rw [hget]
      constructor
      · intro h
        cases h
      · rintro ⟨v, hv, hnone⟩
        obtain ⟨y, hy, -⟩ := ha v hv
        cases hy.symm.trans hnone
  get_expr e hall := by
    refine (get_expr_cases hfound hnumber e).resolve_left ?_
    rintro ⟨-, v, hv, hnone⟩
    exact hall v hv hnone

end

end Solution

/-! ## Solutions of a session -/

/-- A report has numbers by name, or no solution and hence none. -/
structure Record.HasValues (r : Record K) (d : List (String × Value K)) : Prop where
  nodup_names : (d.map Prod.fst).Nodup
  hasNumber : ∀ e ∈ d, ∃ c, e.2.HasNumber c
  read_solution : (r.read "solution" = .ok .none ∧ d = []) ∨
    ∃ i, r.read "solution" = .ok (.table (Value.textEntries d) i)

/-- The solution of a number keeps a table of values by variable, and answers what the table
holds. -/
structure Session.Keeps (t : Session K) (k : Nat) (x : Solution K)
    (table : List (Value K × Value K)) : Prop where
  kept : t.solutions[k]? = some ⟨x.report, table⟩
  found : exec (Run.solution k) t = (.ok x, t)
  holds : x.Holds fun v => Value.lookup? (.var v) table

/-- **A solution that keeps numbers** answers what it keeps, however variables look by now. -/
theorem Session.exists_keeps {t : Session K} {k : Nat} {report : Handle}
    {table : List (Value K × Value K)} (h : t.solutions[k]? = some ⟨report, table⟩)
    (hkeys : ∀ e ∈ table, e.1.isKey = true) (hnumber : ∀ e ∈ table, ∃ c, e.2.HasNumber c) :
    ∃ x, x.report = report ∧ t.Keeps k x table := by
  have hheld : ∀ v y, Value.lookup? (.var v) table = some y → ∃ c, y.HasNumber c := by
    intro v y hy
    obtain ⟨e, he, rfl⟩ := Value.exists_mem_of_lookup? hy
    exact hnumber e he
  refine ⟨⟨report, Value.repaintEntries t.look [] table⟩, rfl, h, Run.exec_solution h,
    Solution.holds_of_lookup? (fun v => ?_) hheld⟩
  refine (Value.lookup?_repaintEntries t.look [] hkeys (.var v)).trans ?_
  cases hv : Value.lookup? (.var v) table with
  | none => rfl
  | some y =>
    obtain ⟨c, s, rfl, -⟩ := hheld v y hv
    rfl

/-- **The solution of a report** keeps the values under the names of the variables. -/
theorem Run.exec_addSolution_of_hasValues {s : Session K} {report : Handle} {r : Record K}
    {d : List (String × Value K)} {vs : List (Variable K)} (hr : s.record? report = some r)
    (hd : r.HasValues d) (hids : (vs.map fun v => v.id).Nodup)
    (hkeys : ∀ v ∈ vs, v.name.isKey = true) :
    ∃ p t x, exec (addSolution report (.list (vs.map .var))) s =
        (.ok (.handle (.solution s.solutions.length) p), t) ∧ x.report = report ∧
      t.Keeps s.solutions.length x (Solution.tableOf vs (Value.textEntries d)) := by
  have hadded : ∃ p, exec (addSolution report (.list (vs.map .var))) s =
      (.ok (.handle (.solution s.solutions.length) p),
        s.withSolution ⟨report, Solution.tableOf vs (Value.textEntries d)⟩) := by
    rcases hd.read_solution with ⟨hnone, rfl⟩ | ⟨i, htable⟩
    · have hempty : Solution.tableOf vs (Value.textEntries []) = [] :=
        List.filterMap_eq_nil_iff.2 fun _ _ => rfl
      rw [hempty]
      exact ⟨_, exec_addSolution_of_none hr hnone _⟩
    · exact ⟨_, exec_addSolution_of_table hr htable
        (Solution.collect_table _ i hids hkeys)⟩
  have hlast : (s.withSolution ⟨report, Solution.tableOf vs (Value.textEntries d)⟩).solutions[
      s.solutions.length]? = some ⟨report, Solution.tableOf vs (Value.textEntries d)⟩ :=
    List.getElem?_concat_length
  obtain ⟨p, hp⟩ := hadded
  obtain ⟨x, hx, hkeeps⟩ := Session.exists_keeps hlast
    (fun e he => by
      obtain ⟨v, -, hkey, -⟩ := Solution.exists_of_mem_tableOf he
      rw [hkey]
      rfl)
    fun e he => by
      obtain ⟨v, -, n, -, -, hmem⟩ := (Solution.mem_tableOf_textEntries_iff hd.nodup_names).1 he
      exact hd.hasNumber _ hmem
  exact ⟨p, _, x, hp, hx, hkeeps⟩

end MixedInteger
