import MixedInteger.Session.State
import MixedInteger.Proofs.Document.Columns

/-!
# Rows that are handed to a writer

Constraints need not come from a model: a writer takes any constraints, some of which have a name
while others have none.  It numbers those without a name among themselves and does not look at the
names that the others bring along, so the two kinds of names can meet.

## What is here

* `Constraint.isNameless`, `givenNames`, `numberedNames` — where the written names come from.
* `rowNamesFrom_perm` — the written names are the given ones and the numbered ones.
* `nodup_label_rowNamesFrom_iff` — when they are apart.
* `Run.rowsOf`, `Run.lpTextOf_eq_ok`, `Run.mpsTextOf_eq_ok` — what the writers make of their
  arguments.
* `Run.nodup_written_iff` — the same for the names in the written texts.
-/

set_option autoImplicit false

namespace MixedInteger

variable {K : Type}

/-- Whether a constraint has no name. -/
def Constraint.isNameless (c : Constraint K) : Bool := !c.name.isPresent

/-- The name of a row by its number. -/
def numberedName (i : Nat) : String := s!"c{i}"

theorem numberedName_injective : Function.Injective numberedName := fun i j h =>
  label_injective "c" i j h

/-- The names of so many rows from a number on. -/
def numberedNames (next count : Nat) : List String := (List.range' next count).map numberedName

theorem mem_numberedNames {next count : Nat} {s : String} :
    s ∈ numberedNames next count ↔ ∃ i, next ≤ i ∧ i < next + count ∧ numberedName i = s := by
  simp only [numberedNames, List.mem_map, List.mem_range'_1, and_assoc]

theorem nodup_numberedNames (next count : Nat) : (numberedNames next count).Nodup :=
  List.Nodup.map numberedName_injective List.nodup_range'

/-! ## The names of rows -/

theorem length_rowNamesFrom (cs : List (Constraint K)) (next : Nat) :
    (rowNamesFrom next cs).length = cs.length := by
  induction cs generalizing next with
  | nil => rfl
  | cons c cs ih =>
    rw [rowNamesFrom]
    split
    · exact congrArg Nat.succ (ih (next + 1))
    · exact congrArg Nat.succ (ih next)

/-- The rows are written under the names of the rows. -/
theorem Problem.map_fst_rows (p : Problem K) : p.rows.map Prod.fst = p.rowNames :=
  List.map_fst_zip (length_rowNamesFrom p.constraints 0).le

variable [Arithmetic K]

/-- The names that constraints bring along, as they are written. -/
def givenNames (cs : List (Constraint K)) : List String :=
  (cs.filter fun c => c.name.isPresent).map fun c => c.name.label

/-- **The written names are the given ones and the numbered ones**, mingled. -/
theorem rowNamesFrom_perm (cs : List (Constraint K)) (next : Nat) :
    ((rowNamesFrom next cs).map Value.label).Perm
      (givenNames cs ++ numberedNames next (cs.countP Constraint.isNameless)) := by
  induction cs generalizing next with
  | nil => exact .nil
  | cons c cs ih =>
    rw [rowNamesFrom]
    split
    next hname =>
      have hnameless : c.isNameless = true := by rw [Constraint.isNameless, hname]; rfl
      have hgiven : givenNames (c :: cs) = givenNames cs := by
        simp [givenNames, hname, Value.isPresent]
      rw [hgiven, List.countP_cons_of_pos hnameless, List.map_cons, Value.label_text, numberedNames,
        List.range'_succ, List.map_cons]
      exact ((ih (next + 1)).cons (numberedName next)).trans List.perm_middle.symm
    next hname =>
      have hpresent : c.name.isPresent = true := by
        cases h : c.name with
        | none => exact absurd h hname
        | _ => rfl
      have hgiven : givenNames (c :: cs) = c.name.label :: givenNames cs := by
        simp [givenNames, hpresent]
      have hcount : ¬c.isNameless = true := by simp [Constraint.isNameless, hpresent]
      rw [hgiven, List.countP_cons_of_neg hcount]
      exact (ih next).cons c.name.label

/-- The given names of constraints are apart, and none of them is the name of a row by its number,
as far as there are constraints without a name. -/
def AreNamedApart (cs : List (Constraint K)) : Prop :=
  (givenNames cs).Nodup ∧
    ∀ i < cs.countP Constraint.isNameless, numberedName i ∉ givenNames cs

/-- **When the written names are apart.** -/
theorem nodup_label_rowNamesFrom_iff (cs : List (Constraint K)) :
    ((rowNamesFrom 0 cs).map Value.label).Nodup ↔ AreNamedApart cs := by
  rw [(rowNamesFrom_perm cs 0).nodup_iff, List.nodup_append, AreNamedApart]
  refine and_congr_right fun _ =>
    ⟨fun ⟨_, h⟩ i hi hmem => ?_, fun h => ⟨nodup_numberedNames _ _, ?_⟩⟩
  · have hnumbered := mem_numberedNames.2 ⟨i, Nat.zero_le i, by rwa [Nat.zero_add], rfl⟩
    exact h _ hmem _ hnumbered rfl
  · rintro s hs _ ht rfl
    obtain ⟨i, -, hi, rfl⟩ := mem_numberedNames.1 ht
    exact h i (by rwa [Nat.zero_add] at hi) hs

theorem LpFile.map_name_rows (p : Problem K) :
    (ofProblem p).rows.map LpRow.name = p.rowNames.map Value.label := by
  rw [← p.map_fst_rows, List.map_map]
  exact List.map_map

theorem MpsFile.map_snd_rows (title : String) (p : Problem K) :
    (ofProblem title p).rows.map Prod.snd = p.rowNames.map Value.label := by
  rw [← p.map_fst_rows, List.map_map]
  exact List.map_map

/-! ## The writers -/

namespace Run

/-- The constraints that an argument of a writer stands for. -/
def rowsOf (v : Value K) : Except Fault (List (Constraint K)) := do (← v.elements).mapM toRow

variable {objective direction constraints vars name : Value K} {text : String}

/-- The row-wise writer writes the constraints that it is given. -/
theorem lpTextOf_eq_ok (h : lpTextOf objective direction constraints vars = .ok text) :
    ∃ p : Problem K, rowsOf constraints = .ok p.constraints ∧ text = (LpFile.ofProblem p).text := by
  obtain ⟨d, -, h⟩ := bind_eq_ok.1 h
  obtain ⟨e, -, h⟩ := bind_eq_ok.1 h
  obtain ⟨_, -, h⟩ := bind_eq_ok.1 h
  obtain ⟨items, hitems, h⟩ := bind_eq_ok.1 h
  obtain ⟨cs, hcs, h⟩ := bind_eq_ok.1 h
  obtain ⟨_, -, h⟩ := bind_eq_ok.1 h
  obtain ⟨columns, -, h⟩ := bind_eq_ok.1 h
  obtain ⟨vs, -, h⟩ := bind_eq_ok.1 h
  obtain ⟨_, -, h⟩ := bind_eq_ok.1 h
  obtain ⟨_, -, h⟩ := bind_eq_ok.1 h
  obtain ⟨_, -, h⟩ := bind_eq_ok.1 h
  cases h
  exact ⟨⟨e, d, cs, vs, .none⟩, bind_eq_ok.2 ⟨items, hitems, hcs⟩, rfl⟩

/-- The column-wise writer writes the constraints that it is given. -/
theorem mpsTextOf_eq_ok (h : mpsTextOf objective direction constraints vars name = .ok text) :
    ∃ (title : String) (p : Problem K), rowsOf constraints = .ok p.constraints ∧
      text = (MpsFile.ofProblem title p).text := by
  obtain ⟨title, -, h⟩ := bind_eq_ok.1 h
  obtain ⟨d, -, h⟩ := bind_eq_ok.1 h
  obtain ⟨items, hitems, h⟩ := bind_eq_ok.1 h
  obtain ⟨cs, hcs, h⟩ := bind_eq_ok.1 h
  obtain ⟨columns, -, h⟩ := bind_eq_ok.1 h
  split at h
  · cases h
  · obtain ⟨e, -, h⟩ := bind_eq_ok.1 h
    obtain ⟨_, -, h⟩ := bind_eq_ok.1 h
    obtain ⟨vs, -, h⟩ := bind_eq_ok.1 h
    obtain ⟨_, -, h⟩ := bind_eq_ok.1 h
    cases h
    exact ⟨title, ⟨e, d, cs, vs, name⟩, bind_eq_ok.2 ⟨items, hitems, hcs⟩, rfl⟩

/-- **When the names in a text are apart.**  Whatever constraints are handed to a writer, with names
or without: the names under which it writes them are apart exactly if the given names are, as they
are written, and none of them is the name of a row by its number. -/
theorem nodup_written_iff (objective direction constraints vars name : Value K) :
    (∀ text, lpTextOf objective direction constraints vars = .ok text →
      ∃ p : Problem K, rowsOf constraints = .ok p.constraints ∧ text = (LpFile.ofProblem p).text ∧
        (((LpFile.ofProblem p).rows.map LpRow.name).Nodup ↔ AreNamedApart p.constraints)) ∧
    ∀ text, mpsTextOf objective direction constraints vars name = .ok text →
      ∃ (title : String) (p : Problem K), rowsOf constraints = .ok p.constraints ∧
        text = (MpsFile.ofProblem title p).text ∧
        (((MpsFile.ofProblem title p).rows.map Prod.snd).Nodup ↔ AreNamedApart p.constraints) := by
  refine ⟨fun text h => ?_, fun text h => ?_⟩
  · obtain ⟨p, hrows, htext⟩ := lpTextOf_eq_ok h
    refine ⟨p, hrows, htext, ?_⟩
    rw [LpFile.map_name_rows]
    exact nodup_label_rowNamesFrom_iff p.constraints
  · obtain ⟨title, p, hrows, htext⟩ := mpsTextOf_eq_ok h
    refine ⟨title, p, hrows, htext, ?_⟩
    rw [MpsFile.map_snd_rows]
    exact nodup_label_rowNamesFrom_iff p.constraints

/-! ## A row that is named like another one by its number -/

open Model

/-- A row that bounds the load, without a name. -/
def namelessRow : Constraint Float := ⟨⟨[(load, 1)], 0⟩, .le, 5, .none⟩

/-- Another one, under the name that the first one gets. -/
def namesakeRow : Constraint Float := ⟨⟨[(load, 1)], 0⟩, .ge, 2, .text "c0"⟩

/-- The two rows as an argument of a writer. -/
def namesakes : Value Float := .list [.made namelessRow, .made namesakeRow]

/-- The two rows with another name for the second one. -/
def strangers : Value Float :=
  .list [.made namelessRow, .made (namesakeRow.withName (.text "c1"))]

/-- The names of a row without one and of the row `c1` are apart in both texts. -/
theorem nodup_written_iff_strangers :
    (∃ p : Problem Float, lpTextOf .none (.text "minimize") strangers (.list [.var load]) =
        .ok (LpFile.ofProblem p).text ∧ ((LpFile.ofProblem p).rows.map LpRow.name).Nodup) ∧
    ∃ (title : String) (p : Problem Float),
      mpsTextOf .none (.text "minimize") strangers (.list [.var load]) .none =
        .ok (MpsFile.ofProblem title p).text ∧
      ((MpsFile.ofProblem title p).rows.map Prod.snd).Nodup := by
  have happart : AreNamedApart [namelessRow, namesakeRow.withName (.text "c1")] := by
    refine ⟨?_, ?_⟩ <;> decide
  obtain ⟨hlp, hmps⟩ := nodup_written_iff (K := Float) .none (.text "minimize") strangers
    (.list [.var load]) .none
  obtain ⟨p, hp, hlpText, hlp⟩ := hlp _ rfl
  obtain ⟨title, q, hq, hmpsText, hmps⟩ := hmps _ rfl
  have hrows : rowsOf strangers = .ok [namelessRow, namesakeRow.withName (.text "c1")] := rfl
  rw [hrows, Except.ok.injEq] at hp hq
  exact ⟨⟨p, congrArg Except.ok hlpText, hlp.2 (hp ▸ happart)⟩,
    title, q, congrArg Except.ok hmpsText, hmps.2 (hq ▸ happart)⟩

/-- The problem of the two rows of one name. -/
def namesakeProblem : Problem Float :=
  ⟨none, .minimize, [namelessRow, namesakeRow], [load], .none⟩

/-- **A given name may be that of a row without one.**  Both rows are then written under it, and
their coefficients are added up column by column. -/
theorem exists_written_not_nodup : ∃ lp mps,
    rowsOf namesakes = .ok namesakeProblem.constraints ∧
    (givenNames namesakeProblem.constraints).Nodup ∧
    lpTextOf .none (.text "minimize") namesakes (.list [.var load]) = .ok lp ∧
    lp = (LpFile.ofProblem namesakeProblem).text ∧
    ¬((LpFile.ofProblem namesakeProblem).rows.map LpRow.name).Nodup ∧
    mpsTextOf .none (.text "minimize") namesakes (.list [.var load]) .none = .ok mps ∧
    mps = (MpsFile.ofProblem "problem" namesakeProblem).text ∧
    ¬((MpsFile.ofProblem "problem" namesakeProblem).rows.map Prod.snd).Nodup ∧
    (MpsFile.ofProblem "problem" namesakeProblem).continuous = [⟨"load", "c0", 2⟩] := by
  refine ⟨_, _, rfl, ?_, rfl, rfl, ?_, rfl, rfl, ?_, rfl⟩
  all_goals decide

end Run

end MixedInteger
