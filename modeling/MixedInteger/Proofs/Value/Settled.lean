import MixedInteger.Proofs.Model.Repaint
import MixedInteger.Proofs.Number.Comparison
import MixedInteger.Value.Identity

/-!
# Values that are handed over

Every part of a value that needs a number in order to be known again has one when the value is
handed over.  This file says so, and that such a value is found under itself if it is a key.

## What is here

* `Value.isSettled` — all parts that need a number have one.
* `Value.isSettled_identify` — a value that is handed over is settled.
* `Value.identify_of_isSettled` — and stays as it is when it is handed over again.
* `Value.sameKey_self`, `Value.sameKey_comm` — settled keys are found under themselves, and two keys
  find each other or do not.
* `Value.isSettled_repaint` — keys stay settled, however they look.
-/

set_option autoImplicit false

namespace MixedInteger

variable {K : Type} [Arithmetic K]

open Arithmetic

namespace Value

mutual

/-- Whether all parts that need a number have one: lists, tables, constraints, and what is not a
number of the model. -/
def isSettled : Value K → Bool
  | sequence shape items => shape != .list Option.none && areSettled items
  | table entries id => id.isSome && areEntriesSettled entries
  | constraint _ id => id.isSome
  | scalar (.real x Option.none) => !Arithmetic.isNaN x
  | _ => true

/-- Whether all parts of several values that need a number have one. -/
def areSettled : List (Value K) → Bool
  | [] => true
  | v :: vs => isSettled v && areSettled vs

/-- Whether all parts of the entries of a table that need a number have one. -/
def areEntriesSettled : List (Value K × Value K) → Bool
  | [] => true
  | (k, v) :: rest => isSettled k && isSettled v && areEntriesSettled rest

end

theorem areEntriesSettled_iff {es : List (Value K × Value K)} :
    areEntriesSettled es = true ↔ ∀ e ∈ es, e.1.isSettled = true ∧ e.2.isSettled = true := by
  induction es with
  | nil => exact ⟨fun _ _ he => absurd he List.not_mem_nil, fun _ => rfl⟩
  | cons e es ih =>
    rw [areEntriesSettled, Bool.and_eq_true, Bool.and_eq_true, ih, List.forall_mem_cons]

mutual

/-- **A value that is handed over is settled.** -/
theorem isSettled_identify (next : Nat) : ∀ v : Value K, (v.identify next).1.isSettled = true
  | sequence shape items => by
    have hitems := areSettled_identifyAll next items
    rw [identify]
    split
    next items' next' h =>
      rw [h] at hitems
      split
      · simpa [isSettled] using hitems
      · rename_i hshape
        have hne : shape ≠ .list Option.none := hshape
        simp [isSettled, hne, hitems]
  | table entries id => by
    have hentries := areEntriesSettled_identifyEntries next entries
    rw [identify]
    split
    next entries' next' h =>
      rw [h] at hentries
      cases id <;> simpa [isSettled] using hentries
  | constraint c id => by cases id <;> rfl
  | scalar s => by
    cases s with
    | real x mark =>
      cases mark with
      | some i => rfl
      | none =>
        rw [identify]
        split
        next h => rfl
        next h => simpa [isSettled] using h
    | _ => rfl
  | none | text _ | domain _ | direction _ | relation _ | var _ | expr _ | handle _ _ => rfl

theorem areSettled_identifyAll (next : Nat) :
    ∀ vs : List (Value K), areSettled (identifyAll next vs).1 = true
  | [] => rfl
  | v :: vs => by
    rw [identifyAll]
    simp only [areSettled, isSettled_identify next v, areSettled_identifyAll _ vs, Bool.and_self]

theorem areEntriesSettled_identifyEntries (next : Nat) :
    ∀ es : List (Value K × Value K), areEntriesSettled (identifyEntries next es).1 = true
  | [] => rfl
  | (k, v) :: rest => by
    rw [identifyEntries]
    simp only [areEntriesSettled, isSettled_identify next k, isSettled_identify _ v,
      areEntriesSettled_identifyEntries _ rest, Bool.and_self]

end

mutual

/-- A settled value is handed over as it is. -/
theorem identify_of_isSettled (next : Nat) : ∀ v : Value K, v.isSettled = true →
    v.identify next = (v, next)
  | sequence shape items, h => by
    rw [isSettled, Bool.and_eq_true] at h
    rw [identify, identifyAll_of_areSettled next items h.2]
    dsimp only
    split
    next => cases h.1
    next => rfl
  | table entries id, h => by
    rw [isSettled, Bool.and_eq_true] at h
    rw [identify, identifyEntries_of_areSettled next entries h.2]
    cases id with
    | none => cases h.1
    | some i => rfl
  | constraint c id, h => by
    cases id with
    | none => cases h
    | some i => rfl
  | scalar s, h => by
    cases s with
    | real x mark =>
      cases mark with
      | some i => rfl
      | none =>
        have hx : Arithmetic.isNaN x = false := by simpa [isSettled] using h
        simp [identify, hx]
    | _ => rfl
  | none, _ | text _, _ | domain _, _ | direction _, _ | relation _, _ | var _, _ | expr _, _
  | handle _ _, _ => rfl

theorem identifyAll_of_areSettled (next : Nat) : ∀ vs : List (Value K), areSettled vs = true →
    identifyAll next vs = (vs, next)
  | [], _ => rfl
  | v :: vs, h => by
    rw [areSettled, Bool.and_eq_true] at h
    simp only [identifyAll, identify_of_isSettled next v h.1, identifyAll_of_areSettled next vs h.2]

theorem identifyEntries_of_areSettled (next : Nat) : ∀ es : List (Value K × Value K),
    areEntriesSettled es = true → identifyEntries next es = (es, next)
  | [], _ => rfl
  | (k, v) :: rest, h => by
    rw [areEntriesSettled, Bool.and_eq_true, Bool.and_eq_true] at h
    simp only [identifyEntries, identify_of_isSettled next k h.1.1,
      identify_of_isSettled next v h.1.2, identifyEntries_of_areSettled next rest h.2]

end

mutual

/-- Numbers that have been given are not given again. -/
theorem le_identify (next : Nat) : ∀ v : Value K, next ≤ (v.identify next).2
  | sequence shape items => by
    have h := le_identifyAll next items
    rw [identify]
    dsimp only
    split
    next => exact h.trans (Nat.le_succ _)
    next => exact h
  | table entries id => by
    have h := le_identifyEntries next entries
    rw [identify]
    cases id with
    | none => exact h.trans (Nat.le_succ _)
    | some i => exact h
  | constraint c id => by
    cases id with
    | none => exact Nat.le_succ next
    | some i => exact le_rfl
  | scalar s => by
    rcases s with b | n | ⟨x, _ | i⟩
    case real.none =>
      rw [identify]
      split
      next => exact Nat.le_succ next
      next => exact le_rfl
    all_goals exact le_rfl
  | none | text _ | domain _ | direction _ | relation _ | var _ | expr _ | handle _ _ => le_rfl

theorem le_identifyAll (next : Nat) : ∀ vs : List (Value K), next ≤ (identifyAll next vs).2
  | [] => le_rfl
  | v :: vs => (le_identify next v).trans (le_identifyAll _ vs)

theorem le_identifyEntries (next : Nat) : ∀ es : List (Value K × Value K),
    next ≤ (identifyEntries next es).2
  | [] => le_rfl
  | (k, v) :: rest =>
    ((le_identify next k).trans (le_identify _ v)).trans (le_identifyEntries _ rest)

end

/-! ## Keys -/

theorem same_self [Comparable K] {s : Scalar K} (h : (scalar s).isSettled = true) :
    s.same s = true := by
  cases s with
  | real x mark =>
    cases mark with
    | some i => simp [Scalar.same]
    | none =>
      have hx : Arithmetic.isNaN x = false := by simpa [isSettled] using h
      simp [Scalar.same, Scalar.eq, Scalar.exact, Comparable.eq_self hx]
  | _ => simp [Scalar.same, Scalar.eq, Scalar.exact]

theorem same_comm [Comparable K] (s t : Scalar K) : s.same t = t.same s := by
  have heq : s.eq t = t.eq s := by
    rw [Scalar.eq, Scalar.eq]
    rcases s.exact with m | x <;> rcases t.exact with n | y
    · exact Bool.beq_comm
    · rfl
    · rfl
    · exact Comparable.eq_comm x y
  rcases s with b | m | ⟨x, _ | i⟩ <;> rcases t with c | n | ⟨y, _ | j⟩
  -- only two marks are compared
  case real.some.real.some => exact congrArg₂ (· || ·) heq Bool.beq_comm
  all_goals exact congrArg (· || false) heq

mutual

/-- **A settled key is found under itself.** -/
theorem sameKey_self [Comparable K] :
    ∀ v : Value K, v.isKey = true → v.isSettled = true → v.sameKey v = true
  | sequence shape items, hk, hs => by
    rw [isKey, Bool.and_eq_true] at hk
    rw [isSettled, Bool.and_eq_true] at hs
    rw [sameKey, hk.1, sameKeys_self items hk.2 hs.2]
    rfl
  | scalar s, _, hs => same_self hs
  | constraint c id, _, hs => by
    cases id with
    | none => cases hs
    | some i => exact beq_self_eq_true i
  | none, _, _ => rfl
  | text s, _, _ => beq_self_eq_true s
  | domain d, _, _ => beq_self_eq_true d
  | direction d, _, _ => beq_self_eq_true d
  | relation r, _, _ => beq_self_eq_true r
  | var v, _, _ => beq_self_eq_true v.id
  | handle h p, _, _ => beq_self_eq_true h
  | table es id, hk, _ => by cases hk
  | expr e, hk, _ => by cases hk

theorem sameKeys_self [Comparable K] :
    ∀ vs : List (Value K), areKeys vs = true → areSettled vs = true → sameKeys vs vs = true
  | [], _, _ => rfl
  | v :: vs, hk, hs => by
    rw [areKeys, Bool.and_eq_true] at hk
    rw [areSettled, Bool.and_eq_true] at hs
    rw [sameKeys, sameKey_self v hk.1 hs.1, sameKeys_self vs hk.2 hs.2]
    rfl

end

mutual

/-- **Two keys find each other, or neither finds the other.** -/
theorem sameKey_comm [Comparable K] : ∀ v w : Value K, v.sameKey w = w.sameKey v
  | sequence p vs, w => by
    cases w with
    | sequence q ws => rw [sameKey, sameKey, sameKeys_comm vs ws, Bool.and_comm p.isFixed]
    | constraint c id => cases id <;> rfl
    | _ => rfl
  | scalar s, w => by
    cases w with
    | scalar t => exact same_comm s t
    | constraint c id => cases id <;> rfl
    | _ => rfl
  | constraint c id, w => by
    cases w with
    | constraint d id' => cases id <;> cases id' <;> first | rfl | exact Bool.beq_comm
    | _ => cases id <;> rfl
  | none, w | table _ _, w | expr _, w => by
    cases w with
    | constraint c id => cases id <;> rfl
    | _ => rfl
  | text _, w | domain _, w | direction _, w | relation _, w | var _, w | handle _ _, w => by
    cases w with
    | constraint c id => cases id <;> rfl
    | _ => first | rfl | exact Bool.beq_comm

theorem sameKeys_comm [Comparable K] : ∀ vs ws : List (Value K), sameKeys vs ws = sameKeys ws vs
  | [], [] => rfl
  | [], _ :: _ => rfl
  | _ :: _, [] => rfl
  | v :: vs, w :: ws => by rw [sameKeys, sameKeys, sameKey_comm v w, sameKeys_comm vs ws]

end

mutual

/-- A settled key stays settled, however it looks. -/
theorem isSettled_repaint (look : Look K) (path : List Handle) : ∀ v : Value K,
    v.isKey = true → v.isSettled = true → (v.repaint look path).isSettled = true
  | sequence shape items, hk, hs => by
    rw [isKey, Bool.and_eq_true] at hk
    rw [isSettled, Bool.and_eq_true] at hs
    rw [repaint_sequence hk.1, isSettled, hs.1, areSettled_repaintAll look path items hk.2 hs.2]
    rfl
  | handle h p, hk, _ => by
    rw [repaint_handle hk]
    rfl
  | none, _, hs | scalar _, _, hs | text _, _, hs | domain _, _, hs | direction _, _, hs
  | relation _, _, hs => by simpa [repaint] using hs
  | var v, _, _ => by simp [repaint, isSettled]
  | constraint c id, _, hs => by simpa [repaint, isSettled] using hs
  | table es id, hk, _ => by cases hk
  | expr e, hk, _ => by cases hk

theorem areSettled_repaintAll (look : Look K) (path : List Handle) : ∀ vs : List (Value K),
    areKeys vs = true → areSettled vs = true → areSettled (repaintAll look path vs) = true
  | [], _, _ => rfl
  | v :: vs, hk, hs => by
    rw [areKeys, Bool.and_eq_true] at hk
    rw [areSettled, Bool.and_eq_true] at hs
    rw [repaintAll, areSettled, isSettled_repaint look path v hk.1 hs.1,
      areSettled_repaintAll look path vs hk.2 hs.2]
    rfl

end

end Value

end MixedInteger
