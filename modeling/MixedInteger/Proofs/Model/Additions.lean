import MixedInteger.Proofs.Model.Reachable
import MixedInteger.Proofs.Reformulation.RangeCompletion

/-!
# Calls that add to a model

A caller adds variables, rows and an objective to a model.  A call that fails adds nothing, also if it
is to create several variables: once the first one has been created, nothing can go wrong with the
others, whose bounds are the same and whose names are not in use.  There is one exception.  The
objective is set before its direction is read, so it stays where the direction cannot be read.

## What is here

* `Build.Readable` — arguments that a variable can be created from.
* `Build.Bears` — a variable has the name that it was to get.
* `Build.addVariable_creates` — one variable from such arguments.
* `Build.mapM_addVariable_succeeds`, `Build.mapM_addVariable_allOrNothing` — several of them.
* `Build.addVariables_spec` — **several variables are created, or none**.
* `Build.perform_addition_spec` — **what a call leaves behind that fails**, and what a call creates
  that does not.
-/

set_option autoImplicit false

namespace MixedInteger

open Arithmetic

variable {K : Type} [Arithmetic K]

namespace Build

variable {domain lower upper stem name : Value K} {names : List (Value K)} {m m' : Model K}
  {v : Variable K}

/-! ## One variable -/

/-- A variable can be created from these arguments. -/
def Readable (domain lower upper : Value K) : Prop :=
  ∃ d, domain.toDomain = .ok d ∧ ((d = .binary ∧ (⟨zero, one⟩ : Interval K).isProper = true) ∨
    (d ≠ .binary ∧ ∃ l u, lower.toNumber = .ok l ∧ upper.toNumber = .ok u ∧
      (⟨l, u⟩ : Interval K).isProper = true))

/-- A variable that has been created shows that others can be created. -/
theorem IsRead.readable (h : IsRead domain lower upper v) (hv : v.IsProper) :
    Readable domain lower upper := by
  obtain ⟨d, hd, ⟨hbinary, hof⟩ | ⟨hne, l, u, hl, hu, hof⟩⟩ := h
  · exact ⟨d, hd, .inl ⟨hbinary, hof.interval_eq ▸ hv.interval⟩⟩
  · exact ⟨d, hd, .inr ⟨hne, l, u, hl, hu, hof.interval_eq ▸ hv.interval⟩⟩

/-- A variable has the name that it was to get, or a text if it was to get none. -/
def Bears (v : Variable K) : Value K → Prop
  | .none => ∃ s, v.name = .text s
  | name => v.name = name

/-- With proper bounds the variable gets its name. -/
theorem declare_creates {d : Domain} {l u : K} (hp : (d.bounds l u).isProper = true)
    (hnew : ∀ s, name = .text s → s ∉ textNames m.variableNames) :
    Succeeds (declare name d l u) m fun v m' => m.Grown [v] [] m' ∧ v.name = name := by
  obtain ⟨v, n, hrun, -, -, hg⟩ := declare_succeeds hp (declare_spec d l u hnew)
  cases hrun.symm.trans (exec_declare m hp)
  exact ⟨_, _, hrun, hg, rfl⟩

theorem declareRead_creates (h : Readable domain lower upper)
    (hnew : ∀ s, name = .text s → s ∉ textNames m.variableNames) :
    Succeeds (do
      match ← domain.toDomain with
      | .binary => declare name .binary zero one
      | d => do
        let l ← lower.toNumber
        let u ← upper.toNumber
        declare name d l u) m fun v m' => m.Grown [v] [] m' ∧ v.name = name := by
  obtain ⟨d, hd, ⟨rfl, hp⟩ | ⟨hne, l, u, hl, hu, hp⟩⟩ := h
  · rw [hd]
    exact .lift_bind (declare_creates hp hnew)
  · rw [hd, hl, hu]
    cases d with
    | binary => exact absurd rfl hne
    | continuous => exact .lift_bind (.lift_bind (.lift_bind (declare_creates hp hnew)))
    | integer => exact .lift_bind (.lift_bind (.lift_bind (declare_creates hp hnew)))

/-- **A variable is created** from such arguments under a name that is free. -/
theorem addVariable_creates (h : Readable domain lower upper) (hkey : name.isKey = true)
    (hfree : m.find? name = none) :
    Succeeds (addVariable domain lower upper name) m fun v m' =>
      m.Grown [v] [] m' ∧ Bears v name := by
  refine .bind (R := fun _ n => n = m) ⟨_, _, exec_requireNewName hkey hfree, rfl⟩ ?_
  rintro _ _ rfl
  cases name with
  | none =>
    refine .bind (freshVariableName_spec _) ?_
    rintro s k ⟨hs, hnew⟩
    refine (declareRead_creates h ?_).mono fun v m' hv =>
      ⟨hs.grown.trans hv.1, s, hv.2⟩
    rintro _ ⟨⟩
    exact hnew
  | _ =>
    refine (declareRead_creates h fun s hs => ?_).mono fun v m' hv => ⟨hv.1, hv.2⟩
    exact Model.not_mem_variableNames (hs ▸ hfree)

/-! ## Several variables -/

/-- Two names that may be given in one call: neither is given, or both are texts and differ. -/
def Apart (a b : Value K) : Prop :=
  (a = .none ∧ b = .none) ∨ ∃ s t, a = .text s ∧ b = .text t ∧ s ≠ t

/-- A variable does not take the name of another one of the same call. -/
theorem Bears.sameKey_eq_false {a b : Value K} (h : Bears v a) (hab : Apart a b) :
    v.name.sameKey b = false := by
  obtain ⟨rfl, rfl⟩ | ⟨s, t, rfl, rfl, hne⟩ := hab
  · obtain ⟨s, hs⟩ := h
    rw [hs]
    rfl
  · have hs : v.name = .text s := h
    rw [hs, Value.sameKey_text]
    exact beq_eq_false_iff_ne.2 hne

/-- A name stays free if a variable with another name is created. -/
theorem find?_of_grown {n : Model K} (hg : m.Grown [v] [] n) (hfree : m.find? name = none)
    (hne : v.name.sameKey name = false) : n.find? name = none := by
  rw [Model.find?, hg.vars_eq, List.find?_append, Option.or_eq_none_iff]
  exact ⟨hfree, List.find?_eq_none.2 (List.forall_mem_singleton.2 (by simp [hne]))⟩

/-- What several variables are that have been created under these names. -/
def AreCreated (m : Model K) (names : List (Value K)) (vs : List (Variable K)) (m' : Model K) :
    Prop :=
  m.Grown vs [] m' ∧ List.Forall₂ Bears vs names

theorem AreCreated.cons {n : Model K} {vs : List (Variable K)} (hg : m.Grown [v] [] n)
    (hv : Bears v name) (h : AreCreated n names vs m') : AreCreated m (name :: names) (v :: vs) m' :=
  ⟨hg.trans h.1, .cons hv h.2⟩

/-- Names that may be given in one call, and are free. -/
structure AreFree (m : Model K) (names : List (Value K)) : Prop where
  key : ∀ name ∈ names, name.isKey = true
  free : ∀ name ∈ names, m.find? name = none
  apart : names.Pairwise Apart

theorem AreFree.tail {n : Model K} (h : AreFree m (name :: names)) (hg : m.Grown [v] [] n)
    (hv : Bears v name) : AreFree n names where
  key b hb := h.key b (List.mem_cons_of_mem name hb)
  free b hb := find?_of_grown hg (h.free b (List.mem_cons_of_mem name hb))
    (hv.sameKey_eq_false (List.rel_of_pairwise_cons h.apart hb))
  apart := h.apart.tail

/-- **Variables are created** from arguments from which one could be. -/
theorem mapM_addVariable_succeeds (h : Readable domain lower upper) (hnames : AreFree m names) :
    Succeeds (names.mapM fun name => addVariable domain lower upper name) m
      (AreCreated m names) := by
  induction names generalizing m with
  | nil => exact .pure ⟨.refl m, .nil⟩
  | cons name names ih =>
    rw [List.mapM_cons]
    have hfirst := addVariable_creates h (hnames.key name List.mem_cons_self)
      (hnames.free name List.mem_cons_self)
    refine .bind hfirst fun v n hv => .bind (ih (hnames.tail hv.1 hv.2)) fun vs m' hvs => ?_
    exact .pure (hvs.cons hv.1 hv.2)

/-- **All variables are created, or none.**  Only the first one can fail. -/
theorem mapM_addVariable_allOrNothing (domain lower upper : Value K) (hnames : AreFree m names) :
    AllOrNothing (names.mapM fun name => addVariable domain lower upper name) m
      (AreCreated m names) := by
  cases names with
  | nil => exact .inl (.pure ⟨.refl m, .nil⟩)
  | cons name names =>
    rw [List.mapM_cons]
    have hfirst : AllOrNothing (addVariable domain lower upper name) m fun v n =>
        Readable domain lower upper ∧ m.Grown [v] [] n ∧ Bears v name := by
      obtain ⟨v, n, -, hg, hread⟩ | hfails := addVariable_spec domain lower upper name m
      · have hreadable := hread.readable (hg.proper v List.mem_cons_self)
        have hcreates := addVariable_creates hreadable (hnames.key name List.mem_cons_self)
          (hnames.free name List.mem_cons_self)
        exact .inl (hcreates.mono fun v n hv => ⟨hreadable, hv⟩)
      · exact .inr hfails
    -- The first variable shows that the arguments can be read, which is all that the others need.
    refine .bind_succeeds hfirst ?_
    rintro v n ⟨hreadable, hg, hv⟩
    refine .bind (mapM_addVariable_succeeds hreadable (hnames.tail hg hv)) fun vs m' hvs => ?_
    exact .pure (hvs.cons hg hv)

/-- Names are checked before anything is created. -/
theorem forIn_requireNewName (names : List (Value K)) (m : Model K) :
    AllOrNothing (forIn names PUnit.unit fun name _ => do
      requireNewName name
      pure (ForInStep.yield PUnit.unit)) m fun _ n =>
        n = m ∧ ∀ name ∈ names, name.isKey = true ∧ m.find? name = none := by
  induction names with
  | nil => exact .inl ⟨⟨⟩, m, rfl, rfl, fun _ h => absurd h List.not_mem_nil⟩
  | cons name names ih =>
    rw [List.forIn_cons]
    refine .bind (R := fun r n => r = .yield ⟨⟩ ∧ n = m ∧ name.isKey = true ∧ m.find? name = none)
      ?_ (fun _ n h => h.2.1 ▸ .refl m) ?_
    · refine .bind (requireNewName_spec name m) (fun _ n h => h.1 ▸ .refl m) ?_
      rintro _ _ ⟨rfl, hkey, hfree⟩
      exact .inl (.pure ⟨rfl, rfl, hkey, hfree⟩)
    · rintro _ _ ⟨rfl, rfl, hname⟩
      exact ih.mono fun _ n h => ⟨h.1, List.forall_mem_cons.2 ⟨hname, h.2⟩⟩

/-- The number of variables is an integer. -/
theorem exact_of_toCount {count : Value K} {n : Nat} (h : toCount count = .ok n) :
    ∃ s, count = .scalar s ∧ s.exact = .inl (n : Int) := by
  cases count with
  | scalar s =>
    refine ⟨s, rfl, ?_⟩
    cases hs : s.exact with
    | inl k =>
      have hlt : s.lt (.integer 0) = decide (k < 0) := by
        rw [Scalar.lt, hs]
        rfl
      rw [toCount, hlt] at h
      simp only [hs] at h
      split_ifs at h with hneg
      cases h
      rw [Int.toNat_of_nonneg (not_lt.1 fun hlt => hneg (decide_eq_true hlt))]
    | inr x =>
      rw [toCount] at h
      simp only [hs] at h
      split at h <;> cases h
  | _ => cases h

/-- The names of several variables, which may be given in one call. -/
theorem apart_of_variableNames {n : Nat} (h : variableNames n stem = .ok names) :
    names.Pairwise Apart ∧ names.length = n ∧ (stem ≠ .none → ∀ i (hi : i < names.length), ∃ s,
      stem.display = .ok s ∧ names[i] = .text (s ++ toString i)) := by
  unfold variableNames at h
  split at h
  · cases h
    refine ⟨?_, List.length_replicate, fun hne => absurd rfl hne⟩
    exact List.pairwise_replicate.2 (.inr (.inl ⟨rfl, rfl⟩))
  · have hnames := forall₂_of_mapM_eq_ok h
    have hlen : names.length = n := hnames.length_eq.symm.trans List.length_range
    have hget : ∀ i (hi : i < names.length), ∃ s, stem.display = .ok s ∧
        names[i] = .text (s ++ toString i) := by
      intro i hi
      have hi' : i < (List.range n).length := by rw [List.length_range]; omega
      obtain ⟨s, hs, hname⟩ := bind_eq_ok.1 (hnames.get hi' hi)
      have hname := Except.ok.inj hname
      simp only [List.get_eq_getElem, List.getElem_range] at hname
      exact ⟨s, hs, hname.symm⟩
    refine ⟨List.pairwise_iff_getElem.2 fun i j hi hj hij => ?_, hlen, fun _ => hget⟩
    obtain ⟨s, hs, hi⟩ := hget i hi
    obtain ⟨t, ht, hj⟩ := hget j hj
    cases hs.symm.trans ht
    refine .inr ⟨_, _, hi, hj, fun heq => ?_⟩
    exact absurd (label_injective s i j heq) (Nat.ne_of_lt hij)

/-- **Several variables are created, or none.** -/
theorem addVariables_spec (count domain lower upper stem : Value K) (m : Model K) :
    AllOrNothing (addVariables count domain lower upper stem) m fun vs m' =>
      ∃ n names, toCount count = .ok n ∧ variableNames n stem = .ok names ∧
        AreCreated m names vs m' := by
  refine .lift_bind fun n hn => .lift_bind fun names hnames => ?_
  refine .bind (forIn_requireNewName names m) (fun _ n h => h.1 ▸ .refl m) ?_
  rintro _ _ ⟨rfl, hfree⟩
  refine (mapM_addVariable_allOrNothing domain lower upper
    ⟨fun b hb => (hfree b hb).1, fun b hb => (hfree b hb).2, (apart_of_variableNames hnames).1⟩).mono
    fun vs m' h => ⟨n, names, hn, hnames, h⟩

/-! ## Calls -/

/-- An objective that fails to be set has been read, and is there, or has not been read. -/
theorem setObjective_error {expr direction : Value K} {f : Fault}
    (h : exec (setObjective expr direction) m = (.error f, m')) :
    (m' = m ∧ ∀ e, expr.toExpr ≠ .ok e) ∨
      ∃ e, expr.toExpr = .ok e ∧ m' = { m with objective := some e } := by
  unfold setObjective at h
  rcases he : expr.toExpr with g | e
  · rw [he, exec_bind_of_error (exec_liftM _ m)] at h
    cases h
    exact .inl ⟨rfl, nofun⟩
  · rw [he, exec_bind_of_ok (exec_liftM _ m), exec_bind_of_ok (exec_modify _ m)] at h
    -- From here on the objective is there, and only the direction is left to be read.
    refine .inr ⟨e, rfl, ?_⟩
    split at h
    next => cases h
    next =>
      rcases hd : direction.toDirection with g | d
      · rw [hd, exec_bind_of_error (exec_liftM _ _)] at h
        cases h
        rfl
      · rw [hd, exec_bind_of_ok (exec_liftM _ _)] at h
        cases h

/-- A constraint is taken in, or nothing changes. -/
theorem addConstraint_allOrNothing (constraint name : Value K) (m : Model K) :
    AllOrNothing (addConstraint constraint name) m fun _ m' => ∃ c, m.Grown [] [c] m' := by
  cases constraint with
  | constraint c i => exact (register_given_spec c name m).mono fun _ _ h => ⟨c, h⟩
  | _ => exact .throw _

/-- **What a call leaves behind that fails**: no variable, no row and no direction, and no objective
either, unless the call has read the objective and only then fails to read the direction. -/
theorem content_of_error {c : Model.Call K} (hc : c.isReformulation = false) {f : Fault}
    (h : exec (perform c) m = (.error f, m')) :
    (m'.vars = m.vars ∧ m'.constraints = m.constraints ∧ m'.direction = m.direction) ∧
      (m'.objective = m.objective ↔ ∀ expr direction e, c = .setObjective expr direction →
        expr.toExpr = .ok e → m.objective = some e) := by
  have hsame : m.SameContent m' → (∀ expr direction, c ≠ .setObjective expr direction) →
      (m'.vars = m.vars ∧ m'.constraints = m.constraints ∧ m'.direction = m.direction) ∧
        (m'.objective = m.objective ↔ ∀ expr direction e, c = .setObjective expr direction →
          expr.toExpr = .ok e → m.objective = some e) := fun hs hne =>
    ⟨⟨hs.vars_eq, hs.constraints_eq, hs.direction_eq⟩,
      fun _ expr direction _ hset => absurd hset (hne expr direction), fun _ => hs.objective_eq⟩
  cases c with
  | addVariable domain lower upper name =>
    refine hsame ?_ nofun
    exact (addVariable_spec domain lower upper name m).of_error (exec_map_eq_error.1 h)
  | addVariables count domain lower upper stem =>
    obtain h | ⟨vs, n, -, h⟩ := exec_bind_eq_error.1 h
    · exact hsame ((addVariables_spec count domain lower upper stem m).of_error h) nofun
    · cases h
  | addConstraint constraint name =>
    obtain h | ⟨d, n, -, h⟩ := exec_bind_eq_error.1 h
    · exact hsame ((addConstraint_allOrNothing constraint name m).of_error h) nofun
    · cases h
  | setObjective expr direction =>
    obtain h | ⟨_, n, -, h⟩ := exec_bind_eq_error.1 h
    · obtain ⟨rfl, hexpr⟩ | ⟨e, he, rfl⟩ := setObjective_error h
      · refine ⟨⟨rfl, rfl, rfl⟩, fun _ => ?_, fun _ => rfl⟩
        rintro _ _ e ⟨⟩ he
        exact absurd he (hexpr e)
      · refine ⟨⟨rfl, rfl, rfl⟩, fun heq => ?_, fun hall => (hall expr direction e rfl he).symm⟩
        rintro _ _ e' ⟨⟩ he'
        cases he.symm.trans he'
        exact heq.symm
    · cases h
  | _ => cases hc

/-- **Calls that add to a model.**  One that fails leaves the variables, the rows and the direction as
they were, and the objective too, unless it could read another objective and then not its direction.
If several variables are asked for and the call succeeds, it has created exactly that many, in order
and at the end, under the given stem with their numbers, and has changed nothing else. -/
theorem perform_addition_spec (m m' : Model K) :
    (∀ (c : Model.Call K) (f : Fault), c.isReformulation = false →
      exec (perform c) m = (.error f, m') →
      (m'.vars = m.vars ∧ m'.constraints = m.constraints ∧ m'.direction = m.direction) ∧
      (m'.objective = m.objective ↔ ∀ expr direction e, c = .setObjective expr direction →
        expr.toExpr = .ok e → m.objective = some e)) ∧
    ∀ count domain lower upper stem answer : Value K,
      exec (perform (.addVariables count domain lower upper stem)) m = (.ok answer, m') →
      ∃ s vs, count = .scalar s ∧ s.exact = .inl (vs.length : Int) ∧
        answer = .list (vs.map .var) ∧ m'.vars = m.vars ++ vs ∧
        m'.constraints = m.constraints ∧ m'.objective = m.objective ∧
        m'.direction = m.direction ∧
        (stem ≠ .none → ∀ i (hi : i < vs.length), ∃ t, stem.display = .ok t ∧
          vs[i].name = .text (t ++ toString i)) := by
  refine ⟨fun c f hc h => content_of_error hc h, fun count domain lower upper stem answer h => ?_⟩
  obtain ⟨vs, n, hrun, hanswer⟩ := exec_bind_eq_ok.1 h
  cases hanswer
  obtain ⟨k, names, hk, hnames, hg, hbears⟩ :=
    (addVariables_spec count domain lower upper stem m).of_ok hrun
  obtain ⟨-, hlen, hget⟩ := apart_of_variableNames hnames
  obtain ⟨s, rfl, hs⟩ := exact_of_toCount hk
  have hcount : vs.length = k := hbears.length_eq.trans hlen
  obtain ⟨named, hconstraints, hnamed⟩ := hg.constraints_eq
  obtain rfl : named = [] := List.map_eq_nil_iff.1 hnamed
  refine ⟨s, vs, rfl, hcount ▸ hs, rfl, hg.vars_eq, hconstraints.trans (List.append_nil _),
    hg.objective_eq, hg.direction_eq, fun hstem i hi => ?_⟩
  have hi' : i < names.length := hbears.length_eq ▸ hi
  obtain ⟨t, ht, hname⟩ := hget hstem i hi'
  have hbear := hbears.get hi hi'
  simp only [List.get_eq_getElem, hname] at hbear
  exact ⟨t, ht, hbear⟩

/-! ## The exception at work -/

/-- A zero as the objective, in a direction that does not exist. -/
def strayObjective : Model.Call Float := .setObjective (.expr (.ofConstant 0)) (.text "bogus")

/-- The zero is the objective of an empty model afterwards, and two variables have their numbers. -/
theorem perform_addition_spec_stray :
    (∃ f m', exec (perform strayObjective) (.empty 0 .none) = (.error f, m') ∧
      m'.objective ≠ none) ∧
    ∃ answer m', exec (perform (.addVariables (.int 2) (.domain .binary) .none .none (.text "p")))
      (.empty 0 .none : Model Float) = (.ok answer, m') ∧
      ∃ v w, answer = .list [.var v, .var w] ∧ m'.vars = [v, w] ∧ v.name = .text "p0" ∧
        w.name = .text "p1" := by
  constructor
  · refine ⟨_, _, rfl, fun h => ?_⟩
    have hset := ((perform_addition_spec _ _).1 strayObjective _ rfl rfl).2.1 h _ _ _ rfl rfl
    cases hset
  · obtain ⟨answer, m', hrun⟩ : ∃ answer m', exec (perform
        (.addVariables (.int 2) (.domain .binary) .none .none (.text "p")))
        (.empty 0 .none : Model Float) = (.ok answer, m') := ⟨_, _, rfl⟩
    obtain ⟨s, vs, hs, hlen, hanswer, hvars, -, -, -, hnames⟩ :=
      (perform_addition_spec _ _).2 _ _ _ _ _ _ hrun
    cases hs
    obtain ⟨v, w, rfl⟩ := List.length_eq_two.1 (Int.ofNat.inj (Sum.inl.inj hlen)).symm
    obtain ⟨t, ht, hv⟩ := hnames nofun 0 Nat.zero_lt_two
    obtain ⟨u, hu, hw⟩ := hnames nofun 1 Nat.one_lt_two
    cases (Value.display_text "p").symm.trans ht
    cases (Value.display_text "p").symm.trans hu
    exact ⟨answer, m', hrun, v, w, hanswer, hvars, hv, hw⟩

/-- A call that fails and does change the objective. -/
theorem exists_addition_error_not_unchanged : ¬∀ (m : Model Float) (c : Model.Call Float),
    m.Reachable → c.isReformulation = false → ∀ (f : Fault) (m' : Model Float),
      exec (perform c) m = (.error f, m') → Unchanged m m' := by
  intro h
  have hunchanged := h (.empty 0 .none) strayObjective (.empty 0 .none) rfl _ _ rfl
  cases hunchanged.2.2.1

end Build

end MixedInteger
