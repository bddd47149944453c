import MixedInteger.Decimal.Layout
import Mathlib

/-!
# Reading decimals

A reader of decimals, with or without a point and with or without an exponent.  Whatever the layout
in which a decimal is written, the reader finds the number that was written, though not always with
the same exponent: the zeros at the end of `1200` count as digits.

## What is here

* `Decimal.value` — the number that a decimal is.
* `Decimal.read` — the decimal that a text is.
* `Decimal.value_strip` — zeros at the end do not matter.
* `Layout.read_write` — reading finds the number that was written.
-/

set_option autoImplicit false

namespace MixedInteger

namespace Decimal

/-! ## The reader -/

/-- The number that a decimal is. -/
def value (d : Decimal) : ℚ := d.coefficient * 10 ^ d.exponent

/-- Digits as one natural number, if there are any digits and nothing else. -/
def readDigits (cs : List Char) : Option Nat :=
  if cs ≠ [] ∧ ∀ c ∈ cs, c.isDigit = true then some (Nat.ofDigitChars 10 cs 0) else none

/-- The digits after a point, if there is one, and what comes after them. -/
def readFraction : List Char → List Char × List Char
  | '.' :: cs => (cs.takeWhile Char.isDigit, cs.dropWhile Char.isDigit)
  | cs => ([], cs)

/-- The exponent at the end of a decimal. -/
def readExponent : List Char → Option Int
  | [] => some 0
  | 'e' :: '+' :: cs => (readDigits cs).map Int.ofNat
  | 'e' :: '-' :: cs => (readDigits cs).map fun n => -Int.ofNat n
  | _ => none

/-- The decimal that a text is. -/
def read (cs : List Char) : Option Decimal :=
  let whole := cs.takeWhile Char.isDigit
  let fraction := readFraction (cs.dropWhile Char.isDigit)
  if whole = [] then none
  else (readExponent fraction.2).map fun e =>
    ⟨Nat.ofDigitChars 10 (whole ++ fraction.1) 0, e - fraction.1.length⟩

/-! ## What a decimal is made of -/

/-- Whether a character can occur in a decimal. -/
def isNumeral (c : Char) : Bool := c.isDigit || c = '.' || c = 'e' || c = '+' || c = '-'

theorem isNumeral_of_isDigit {c : Char} (h : c.isDigit = true) : isNumeral c = true := by
  simp [isNumeral, h]

theorem isNumeral_of_mem_takeWhile {cs : List Char} {c : Char} (h : c ∈ cs.takeWhile Char.isDigit) :
    isNumeral c = true := isNumeral_of_isDigit (List.mem_takeWhile_imp h)

theorem isNumeral_of_readDigits {cs : List Char} {n : Nat} (h : readDigits cs = some n) {c : Char}
    (hc : c ∈ cs) : isNumeral c = true := by
  unfold readDigits at h
  split at h
  next hds => exact isNumeral_of_isDigit (hds.2 c hc)
  next => cases h

theorem isNumeral_of_readExponent {cs : List Char} {e : Int} (h : readExponent cs = some e)
    {c : Char} (hc : c ∈ cs) : isNumeral c = true := by
  unfold readExponent at h
  split at h
  · cases hc
  next ds =>
    obtain ⟨n, hn, -⟩ := Option.map_eq_some_iff.1 h
    rcases List.mem_cons.1 hc with rfl | hc
    · decide
    · rcases List.mem_cons.1 hc with rfl | hc
      · decide
      · exact isNumeral_of_readDigits hn hc
  next ds =>
    obtain ⟨n, hn, -⟩ := Option.map_eq_some_iff.1 h
    rcases List.mem_cons.1 hc with rfl | hc
    · decide
    · rcases List.mem_cons.1 hc with rfl | hc
      · decide
      · exact isNumeral_of_readDigits hn hc
  · cases h

/-- A text that is read as a decimal has no other characters than those of decimals. -/
theorem isNumeral_of_read {cs : List Char} {d : Decimal} (h : read cs = some d) {c : Char}
    (hc : c ∈ cs) : isNumeral c = true := by
  simp only [read] at h
  split at h
  · cases h
  obtain ⟨e, he, -⟩ := Option.map_eq_some_iff.1 h
  rw [← List.takeWhile_append_dropWhile (p := Char.isDigit) (l := cs)] at hc
  rcases List.mem_append.1 hc with hc | hc
  · exact isNumeral_of_mem_takeWhile hc
  · unfold readFraction at he
    split at he
    next ds hds =>
      rw [hds] at hc
      rcases List.mem_cons.1 hc with rfl | hc
      · decide
      · rw [← List.takeWhile_append_dropWhile (p := Char.isDigit) (l := ds)] at hc
        rcases List.mem_append.1 hc with hc | hc
        · exact isNumeral_of_mem_takeWhile hc
        · exact isNumeral_of_readExponent he hc
    next => exact isNumeral_of_readExponent he hc

/-- A decimal has a digit. -/
theorem ne_nil_of_read {cs : List Char} {d : Decimal} (h : read cs = some d) : cs ≠ [] := by
  rintro rfl
  cases h

/-! ## Reading what was written -/

theorem isDigit_digits (d : Decimal) : ∀ c ∈ d.digits, c.isDigit = true := fun _ hc =>
  Nat.isDigit_of_mem_toDigits (by decide) (by decide) hc

theorem ofDigitChars_digits (d : Decimal) : Nat.ofDigitChars 10 d.digits 0 = d.coefficient :=
  Nat.ofDigitChars_ten_toDigits

theorem readDigits_of_isDigit {cs : List Char} (hne : cs ≠ []) (h : ∀ c ∈ cs, c.isDigit = true) :
    readDigits cs = some (Nat.ofDigitChars 10 cs 0) := if_pos ⟨hne, h⟩

theorem takeWhile_isDigit {cs r : List Char} (h : ∀ c ∈ cs, c.isDigit = true)
    (hr : r.takeWhile Char.isDigit = []) : (cs ++ r).takeWhile Char.isDigit = cs := by
  rw [List.takeWhile_append_of_pos h, hr, List.append_nil]

theorem dropWhile_isDigit {cs r : List Char} (h : ∀ c ∈ cs, c.isDigit = true)
    (hr : r.takeWhile Char.isDigit = []) : (cs ++ r).dropWhile Char.isDigit = r := by
  rw [List.dropWhile_append_of_pos h]
  conv_rhs => rw [← List.takeWhile_append_dropWhile (p := Char.isDigit) (l := r), hr]
  rfl

/-- A decimal is read in two steps: the digits at its start, and what follows them. -/
theorem read_append {w r : List Char} (hne : w ≠ [])
    (h : ∀ c ∈ w, c.isDigit = true) (hr : r.takeWhile Char.isDigit = []) :
    read (w ++ r) = (readExponent (readFraction r).2).map fun e =>
      ⟨Nat.ofDigitChars 10 (w ++ (readFraction r).1) 0,
        e - (readFraction r).1.length⟩ := by
  simp only [read, takeWhile_isDigit h hr, dropWhile_isDigit h hr, hne, if_false]

theorem read_whole {w : List Char} (hne : w ≠ []) (h : ∀ c ∈ w, c.isDigit = true) :
    read w = some ⟨Nat.ofDigitChars 10 w 0, 0⟩ := by
  simpa [readFraction, readExponent] using read_append (r := []) hne h rfl

theorem read_point {w places : List Char} (hne : w ≠ [])
    (h : ∀ c ∈ w, c.isDigit = true) (hp : ∀ c ∈ places, c.isDigit = true) :
    read (w ++ '.' :: places) =
      some ⟨Nat.ofDigitChars 10 (w ++ places) 0, -(places.length : Int)⟩ := by
  have htake := takeWhile_isDigit (r := []) hp rfl
  have hdrop := dropWhile_isDigit (r := []) hp rfl
  rw [List.append_nil] at htake hdrop
  rw [read_append hne h rfl, readFraction, htake, hdrop, readExponent, Option.map_some,
    Int.zero_sub]

theorem readExponent_exponentText (e : Int) :
    readExponent ('e' :: Layout.exponentText e) = some e := by
  have hpad : ∀ ds : List Char, ds = Nat.toDigits 10 e.natAbs →
      readDigits (if ds.length < 2 then '0' :: ds else ds) = some e.natAbs := by
    rintro _ rfl
    have hd : ∀ c ∈ Nat.toDigits 10 e.natAbs, c.isDigit = true := fun c hc =>
      Nat.isDigit_of_mem_toDigits (by decide) (by decide) hc
    split
    · rw [readDigits_of_isDigit (List.cons_ne_nil _ _) (List.forall_mem_cons.2 ⟨by decide, hd⟩),
        Nat.ofDigitChars_cons]
      exact congrArg some Nat.ofDigitChars_ten_toDigits
    · rw [readDigits_of_isDigit Nat.toDigits_ne_nil hd, Nat.ofDigitChars_ten_toDigits]
  simp only [Layout.exponentText]
  split
  next he =>
    rw [readExponent, hpad _ rfl, Option.map_some]
    exact congrArg some (by rw [Int.ofNat_eq_natCast]; omega)
  next he =>
    rw [readExponent, hpad _ rfl, Option.map_some]
    exact congrArg some (by rw [Int.ofNat_eq_natCast]; omega)

theorem read_scientific {ds : List Char} (hne : ds ≠ []) (h : ∀ c ∈ ds, c.isDigit = true)
    (lead : Int) : read (Layout.writeScientific ds lead) =
      some ⟨Nat.ofDigitChars 10 ds 0, lead + 1 - ds.length⟩ := by
  have htext := readExponent_exponentText lead
  rcases ds with _ | ⟨d, _ | ⟨c, cs⟩⟩
  · exact absurd rfl hne
  · have hread := read_append (r := 'e' :: Layout.exponentText lead) hne h rfl
    rw [readFraction, htext, Option.map_some] at hread
    · refine hread.trans (congrArg some ?_)
      simp
    · rintro cs ⟨⟩
  · have hd : ∀ x ∈ [d], x.isDigit = true :=
      List.forall_mem_singleton.2 (h d List.mem_cons_self)
    have hcs : ∀ x ∈ c :: cs, x.isDigit = true := (List.forall_mem_cons.1 h).2
    have hrest : ('e' :: Layout.exponentText lead).takeWhile Char.isDigit = [] := rfl
    have hread := read_append (r := '.' :: (c :: cs ++ 'e' :: Layout.exponentText lead))
      (List.cons_ne_nil d []) hd rfl
    rw [readFraction, takeWhile_isDigit hcs hrest, dropWhile_isDigit hcs hrest, htext,
      Option.map_some] at hread
    refine hread.trans (congrArg some ?_)
    simp only [List.singleton_append, List.length_cons, mk.injEq, true_and]
    push_cast
    omega

/-! ## Positional texts -/

theorem value_shift (c k : Nat) (e : Int) : value ⟨c * 10 ^ k, e - k⟩ = value ⟨c, e⟩ := by
  have h10 : (10 : ℚ) ≠ 0 := by norm_num
  have he : (10 : ℚ) ^ e = 10 ^ k * 10 ^ (e - k) := by
    rw [← zpow_natCast, ← zpow_add₀ h10, add_sub_cancel]
  rw [value, value, he]
  push_cast
  ring

theorem isDigit_replicate {n : Nat} : ∀ c ∈ List.replicate n '0', c.isDigit = true := by
  intro c hc
  rw [List.eq_of_mem_replicate hc]
  rfl

theorem forall_isDigit_append {cs ds : List Char} (hc : ∀ c ∈ cs, c.isDigit = true)
    (hd : ∀ c ∈ ds, c.isDigit = true) : ∀ c ∈ cs ++ ds, c.isDigit = true :=
  List.forall_mem_append.2 ⟨hc, hd⟩

theorem ofDigitChars_append_replicate (ds : List Char) (n : Nat) :
    Nat.ofDigitChars 10 (ds ++ List.replicate n '0') 0 = Nat.ofDigitChars 10 ds 0 * 10 ^ n := by
  rw [Nat.ofDigitChars_append, Nat.ofDigitChars_replicate_zero, Nat.mul_comm]

theorem ofDigitChars_zero_cons (ds : List Char) :
    Nat.ofDigitChars 10 ('0' :: ds) 0 = Nat.ofDigitChars 10 ds 0 := Nat.ofDigitChars_cons

theorem ofDigitChars_replicate_append (ds : List Char) (n : Nat) :
    Nat.ofDigitChars 10 (List.replicate n '0' ++ ds) 0 = Nat.ofDigitChars 10 ds 0 := by
  rw [Nat.ofDigitChars_append, Nat.ofDigitChars_replicate_zero, Nat.mul_zero]

/-- The first digit stands behind the point. -/
theorem read_behindPoint {d : Decimal} (hneg : d.leading < 0) :
    read ('0' :: '.' :: (List.replicate ((-d.leading).toNat - 1) '0' ++ d.digits)) = some d := by
  have hlen : 0 < d.digits.length := List.length_pos_of_ne_nil Nat.toDigits_ne_nil
  have hlead : d.leading = d.exponent + d.digits.length - 1 := rfl
  have hread := read_point (w := ['0']) (List.cons_ne_nil _ _) (List.forall_mem_singleton.2 rfl)
    (forall_isDigit_append (isDigit_replicate (n := (-d.leading).toNat - 1)) d.isDigit_digits)
  refine hread.trans (congrArg some ?_)
  rw [List.singleton_append, ofDigitChars_zero_cons, ofDigitChars_replicate_append,
    ofDigitChars_digits, List.length_append, List.length_replicate]
  have he : -(((-d.leading).toNat - 1 + d.digits.length : Nat) : Int) = d.exponent := by omega
  rw [he]

/-- All digits stand before the point, with zeros up to it.  These count as digits, so that another
exponent is read. -/
theorem read_beforePoint (pointZero : Bool) {d : Decimal} (hneg : ¬d.leading < 0)
    (hle : d.digits.length ≤ d.leading.toNat + 1) : ∃ e,
    read (d.digits ++ List.replicate (d.leading.toNat + 1 - d.digits.length) '0' ++
      if pointZero then ['.', '0'] else []) = some e ∧ e.value = d.value := by
  have hlead : d.leading = d.exponent + d.digits.length - 1 := rfl
  obtain ⟨n, hn⟩ : ∃ n, n = d.leading.toNat + 1 - d.digits.length := ⟨_, rfl⟩
  have hexp : (n : Int) = d.exponent := by omega
  have hne : d.digits ++ List.replicate n '0' ≠ [] :=
    List.append_ne_nil_of_left_ne_nil Nat.toDigits_ne_nil _
  have hzeros := forall_isDigit_append d.isDigit_digits (isDigit_replicate (n := n))
  have hcoefficient := ofDigitChars_append_replicate d.digits n
  have hshift := value_shift d.coefficient n d.exponent
  rw [ofDigitChars_digits] at hcoefficient
  rw [hexp, Int.sub_self] at hshift
  rw [← hn]
  cases pointZero with
  | false =>
    have hread := read_whole hne hzeros
    rw [hcoefficient, ← List.append_nil (d.digits ++ _)] at hread
    exact ⟨_, hread, hshift⟩
  | true =>
    have hplace : ∀ c ∈ ['0'], c.isDigit = true := List.forall_mem_singleton.2 rfl
    have hread := read_point hne hzeros hplace
    rw [← List.replicate_one, ofDigitChars_append_replicate, hcoefficient] at hread
    exact ⟨_, hread, (value_shift _ 1 0).trans hshift⟩

/-- The point stands between the digits. -/
theorem read_aroundPoint {d : Decimal} (hneg : ¬d.leading < 0)
    (hlt : ¬d.digits.length ≤ d.leading.toNat + 1) :
    read (d.digits.take (d.leading.toNat + 1) ++ '.' :: d.digits.drop (d.leading.toNat + 1)) =
      some d := by
  have hlead : d.leading = d.exponent + d.digits.length - 1 := rfl
  have htake : ∀ c ∈ d.digits.take (d.leading.toNat + 1), c.isDigit = true := fun c hc =>
    d.isDigit_digits c (List.mem_of_mem_take hc)
  have hdrop : ∀ c ∈ d.digits.drop (d.leading.toNat + 1), c.isDigit = true := fun c hc =>
    d.isDigit_digits c (List.mem_of_mem_drop hc)
  have hne : d.digits ≠ [] := Nat.toDigits_ne_nil
  have hne' : d.digits.take (d.leading.toNat + 1) ≠ [] := by simp [hne]
  refine (read_point hne' htake hdrop).trans (congrArg some ?_)
  rw [List.take_append_drop, ofDigitChars_digits, List.length_drop]
  have he : -((d.digits.length - (d.leading.toNat + 1) : Nat) : Int) = d.exponent := by omega
  rw [he]

/-- A positional text is read as the number that it shows. -/
theorem read_plain (pointZero : Bool) (d : Decimal) : ∃ e,
    read (Layout.writePlain pointZero d.digits d.leading) = some e ∧ e.value = d.value := by
  unfold Layout.writePlain
  dsimp only
  split
  next hneg => exact ⟨d, read_behindPoint hneg, rfl⟩
  next hneg =>
    split
    next hle => exact read_beforePoint pointZero hneg hle
    next hlt => exact ⟨d, read_aroundPoint hneg hlt, rfl⟩

/-! ## Zeros at the end -/

theorem value_stripUpTo (n : Nat) (d : Decimal) : (stripUpTo n d).value = d.value := by
  induction n generalizing d with
  | zero => rfl
  | succ n ih =>
    rw [stripUpTo]
    split
    next h =>
      rw [ih]
      have hshift := value_shift (d.coefficient / 10) 1 (d.exponent + 1)
      rw [pow_one, Nat.div_mul_cancel (Nat.dvd_of_mod_eq_zero h.2), Nat.cast_one,
        Int.add_sub_cancel] at hshift
      exact hshift.symm
    next => rfl

theorem value_strip (d : Decimal) : d.strip.value = d.value := value_stripUpTo _ d

end Decimal

/-- **Reading finds the number that was written**, whatever the layout. -/
theorem Layout.read_write (layout : Layout) (d : Decimal) : ∃ e,
    Decimal.read (layout.write d) = some e ∧ e.value = d.value := by
  unfold write
  split
  · exact Decimal.read_plain layout.pointZero d
  · refine ⟨d, ?_, rfl⟩
    have hne : d.digits ≠ [] := Nat.toDigits_ne_nil
    rw [Decimal.read_scientific hne d.isDigit_digits, d.ofDigitChars_digits]
    have he : d.leading + 1 - (d.digits.length : Int) = d.exponent := by
      rw [Decimal.leading]
      omega
    rw [he]

end MixedInteger
