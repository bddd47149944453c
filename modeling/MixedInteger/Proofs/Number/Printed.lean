import MixedInteger.Document.Problem
import MixedInteger.Proofs.Decimal.Reading
import MixedInteger.Proofs.Number.Decoding
import MixedInteger.Proofs.Number.Extended
import MixedInteger.Proofs.Text.Words

/-!
# Printed numbers

A number in a written form of a model has fifteen significant digits, so that what a reader finds is
not always the number itself.  This file reads numbers, says which number is found, and collects
what the written forms need to know about it: it changes its sign with the number, and equal numbers
are printed alike.

## What is here

* `readNumber` — the number that a word is.
* `Binary64.exact`, `Binary64.printed` — the number that a double is, and the one that is printed.
* `Arithmetic.Printed` — the laws of printed numbers, and the fact that doubles have them.
-/

set_option autoImplicit false

namespace MixedInteger

open Arithmetic

/-! ## Reading numbers -/

/-- The number that a text without a sign is. -/
def readMagnitude (cs : List Char) : Option (Extended ℚ) :=
  if cs = ['n', 'a', 'n'] then some .nan
  else if cs = ['i', 'n', 'f'] then some (.infinite false)
  else (Decimal.read cs).map fun d => .finite d.value

/-- The number that the characters of a word are. -/
def readChars : List Char → Option (Extended ℚ)
  | '-' :: cs => (readMagnitude cs).map fun x => -x
  | cs => readMagnitude cs

/-- The number that a word is. -/
def readNumber (s : String) : Option (Extended ℚ) := readChars s.toList

theorem readMagnitude_of_read {cs : List Char} {d : Decimal} (h : Decimal.read cs = some d) :
    readMagnitude cs = some (.finite d.value) := by
  have hnan : cs ≠ ['n', 'a', 'n'] := by
    rintro rfl
    cases h
  have hinf : cs ≠ ['i', 'n', 'f'] := by
    rintro rfl
    cases h
  rw [readMagnitude, if_neg hnan, if_neg hinf, h, Option.map_some]

/-- A decimal begins with a digit. -/
theorem Decimal.head_isDigit {cs : List Char} {d : Decimal} (h : Decimal.read cs = some d) :
    ∃ c ds, cs = c :: ds ∧ c.isDigit = true := by
  cases cs with
  | nil => cases h
  | cons c ds =>
    refine ⟨c, ds, rfl, ?_⟩
    by_contra hc
    simp [Decimal.read, hc] at h

theorem readChars_of_read {cs : List Char} {d : Decimal} (h : Decimal.read cs = some d) :
    readChars cs = some (.finite d.value) := by
  obtain ⟨c, ds, rfl, hc⟩ := Decimal.head_isDigit h
  rw [readChars, readMagnitude_of_read h]
  rintro ds ⟨⟩
  cases hc

/-- What is read as a finite number without a sign begins with a digit. -/
theorem head_isDigit_of_readMagnitude {cs : List Char} {q : ℚ}
    (h : readMagnitude cs = some (.finite q)) : ∃ c ds, cs = c :: ds ∧ c.isDigit = true := by
  unfold readMagnitude at h
  split at h
  · cases h
  split at h
  · cases h
  obtain ⟨d, hd, -⟩ := Option.map_eq_some_iff.1 h
  exact Decimal.head_isDigit hd

/-- What is read as a number without a sign begins with a digit or a letter. -/
theorem head_of_readMagnitude {cs : List Char} {x : Extended ℚ} (h : readMagnitude cs = some x) :
    ∃ c ds, cs = c :: ds ∧ (isLetter c = true ∨ c.isDigit = true) := by
  unfold readMagnitude at h
  split at h
  next hn => exact ⟨_, _, hn, .inl (by decide)⟩
  split at h
  next hi => exact ⟨_, _, hi, .inl (by decide)⟩
  obtain ⟨d, hd, -⟩ := Option.map_eq_some_iff.1 h
  obtain ⟨c, ds, hcs, hc⟩ := Decimal.head_isDigit hd
  exact ⟨c, ds, hcs, .inr hc⟩

theorem noSpace_of_isNumeral {cs : List Char} (h : ∀ c ∈ cs, Decimal.isNumeral c = true) :
    ' ' ∉ cs ∧ '\n' ∉ cs := by
  refine ⟨fun hc => ?_, fun hc => ?_⟩
  · cases h _ hc
  · cases h _ hc

theorem isWord_chars_of_readMagnitude {cs : List Char} {x : Extended ℚ}
    (h : readMagnitude cs = some x) : cs ≠ [] ∧ ' ' ∉ cs ∧ '\n' ∉ cs := by
  unfold readMagnitude at h
  split at h
  next hn =>
    rw [hn]
    decide
  split at h
  next hi =>
    rw [hi]
    decide
  obtain ⟨d, hd, -⟩ := Option.map_eq_some_iff.1 h
  exact ⟨Decimal.ne_nil_of_read hd, noSpace_of_isNumeral fun c => Decimal.isNumeral_of_read hd⟩

/-- **A number is one word.** -/
theorem isWord_of_readNumber {s : String} {x : Extended ℚ} (h : readNumber s = some x) :
    IsWord s := by
  unfold readNumber readChars at h
  split at h
  next cs hs =>
    obtain ⟨y, hy, -⟩ := Option.map_eq_some_iff.1 h
    have hcs := isWord_chars_of_readMagnitude hy
    exact ⟨by simp [hs], by simp [hs, hcs.2.1], by simp [hs, hcs.2.2]⟩
  next =>
    have hcs := isWord_chars_of_readMagnitude h
    exact ⟨hcs.1, hcs.2.1, hcs.2.2⟩

/-! ## The number that is printed -/

namespace Binary64

/-- A number with a sign. -/
def withSign (negative : Bool) (x : ℚ) : ℚ := if negative then -x else x

/-- The number that a double is. -/
def exact : Binary64 → Extended ℚ
  | nan => .nan
  | infinite n => .infinite n
  | finite n m q => .finite (withSign n (m * 2 ^ q))

/-- The number that is printed for a double: the one with fifteen significant digits that the double
is rounded to. -/
def printed : Binary64 → Extended ℚ
  | nan => .nan
  | infinite n => .infinite n
  | finite n m q => .finite (withSign n
    (if m = 0 then 0 else (Decimal.significant 15 (quotient m q).1 (quotient m q).2).value))

theorem withSign_not (n : Bool) (x : ℚ) : withSign (!n) x = -withSign n x := by
  cases n <;> simp [withSign]

theorem exact_neg (d : Binary64) : d.neg.exact = -d.exact := by
  cases d with
  | nan => rfl
  | infinite n => rfl
  | finite n m q => exact congrArg Extended.finite (withSign_not n _)

theorem printed_neg (d : Binary64) : d.neg.printed = -d.printed := by
  cases d with
  | nan => rfl
  | infinite n => rfl
  | finite n m q => exact congrArg Extended.finite (withSign_not n _)

/-- Without a sign, the text of a finite double is a decimal. -/
theorem read_compact (m : Nat) (q : Int) : ∃ e,
    Decimal.read (finite false m q).compact = some e ∧
      .finite e.value = (finite false m q).printed := by
  have hchars : (finite false m q).compact = if m = 0 then ['0'] else compactLayout.write
      (Decimal.significant 15 (quotient m q).1 (quotient m q).2).strip := rfl
  rw [hchars, printed]
  by_cases hm : m = 0
  · rw [if_pos hm, if_pos hm]
    exact ⟨⟨0, 0⟩, by decide, by simp [Decimal.value, withSign]⟩
  · rw [if_neg hm, if_neg hm]
    obtain ⟨e, he, hv⟩ := compactLayout.read_write
      (Decimal.significant 15 (quotient m q).1 (quotient m q).2).strip
    exact ⟨e, he, congrArg Extended.finite (hv.trans (Decimal.value_strip _))⟩

/-- **The printed number is what a reader finds.** -/
theorem readChars_compact (d : Binary64) : readChars d.compact = some d.printed := by
  cases d with
  | nan => rfl
  | infinite n => cases n <;> rfl
  | finite n m q =>
    obtain ⟨e, he, hv⟩ := read_compact m q
    cases n with
    | false => rw [readChars_of_read he, hv]
    | true =>
      change (readMagnitude (finite false m q).compact).map (fun x => -x) = _
      rw [readMagnitude_of_read he, hv]
      rfl

end Binary64

/-- The laws of printed numbers. -/
class Arithmetic.Printed (K : Type) [Arithmetic K] where
  /-- The number that is meant. -/
  exact : K → Extended ℚ
  /-- The number that is printed. -/
  printed : K → Extended ℚ
  readNumber_numberText (x : K) : readNumber (numberText x) = some (printed x)
  eq_zero_zero : eq (zero : K) zero = true
  eq_zero_add (x : K) : eq (zero + x) zero = eq x zero
  printed_of_eq {x y : K} : eq x y = true → printed x = printed y
  printed_zero : printed (zero : K) = .finite 0
  printed_one : printed (one : K) = .finite 1
  printed_infinity : printed (infinity : K) = .infinite false
  printed_neg (x : K) : printed (-x) = -printed x
  printed_abs (x : K) : printed (abs x) = if lt x zero then -printed x else printed x
  printed_zero_add (x : K) : printed (zero + x) = printed x
  printed_of_isFinite {x : K} : isFinite x = true → ∃ q, printed x = .finite q
  lt_abs_zero (x : K) : lt (abs x) zero = false
  readMagnitude_numberText {x : K} : lt x zero = false →
    readMagnitude (numberText x).toList = some (printed x)
  exact_zero : exact (zero : K) = .finite 0
  exact_infinity : exact (infinity : K) = .infinite false
  exact_neg (x : K) : exact (-x) = -exact x

theorem isWord_numberText {K : Type} [Arithmetic K] [Printed K] (x : K) : IsWord (numberText x) :=
  isWord_of_readNumber (Printed.readNumber_numberText x)

/-- Numbers with the same text are printed alike. -/
theorem printed_eq_of_numberText_eq {K : Type} [Arithmetic K] [Printed K] {x y : K}
    (h : numberText x = numberText y) : (Printed.printed x : Extended ℚ) = Printed.printed y := by
  have hread := Printed.readNumber_numberText x
  rw [h, Printed.readNumber_numberText] at hread
  exact (Option.some.inj hread).symm

/-! ## Doubles -/

namespace Double

open Float.Model (UnpackedFloat Format)
open Float.Model.UnpackedFloat

/-- The sign of a zero is not printed. -/
theorem printed_dropZeroSign (f : UnpackedFloat) :
    (Binary64.ofUnpacked (dropZeroSign f)).printed = (Binary64.ofUnpacked f).printed := by
  rcases f with s | _ | s | s
  · rfl
  · rfl
  · cases s <;> rfl
  · rfl

/-- Equal doubles are printed alike. -/
theorem printed_of_beq {x y : Float} (h : (x == y) = true) :
    (Binary64.ofFloat x).printed = (Binary64.ofFloat y).printed := by
  have hbeq : x.toModel.unpack.beq y.toModel.unpack = true := h
  rw [ofFloat_eq, ofFloat_eq]
  obtain ⟨-, -, heq | ⟨hx, hy⟩ | ⟨hx, hy⟩⟩ := (beq_iff_ne_notANumber_and_eq _ _).1 hbeq
  · rw [heq]
  · rw [hx, hy]
    rfl
  · rw [hx, hy]
    rfl

theorem lt_zero_eq (x : Float) : Float.lt x 0.0 = isNegative (dropZeroSign x.toModel.unpack) := by
  have hlt : Float.lt x 0.0 = x.toModel.unpack.lt (.zero .positive) :=
    Bool.eq_iff_iff.2 decide_eq_true_iff
  rw [hlt]
  rcases x.toModel.unpack with s | _ | s | s
  · cases s <;> rfl
  · rfl
  · rfl
  · cases s <;> rfl

/-- Adding zero changes nothing about being zero. -/
theorem beq_zero_add (x : Float) : (0.0 + x == 0.0) = (x == 0.0) := by
  change (0.0 + x).toModel.unpack.beq (.zero .positive) = x.toModel.unpack.beq (.zero .positive)
  rw [unpack_zero_add]
  rcases x.toModel.unpack with s | _ | s | s
  · rfl
  · rfl
  · cases s <;> rfl
  · rfl

theorem printed_abs (x : Float) : (Binary64.ofFloat x.abs).printed =
    if Float.lt x 0.0 then -(Binary64.ofFloat x).printed else (Binary64.ofFloat x).printed := by
  rw [lt_zero_eq, ofFloat_abs, ofFloat_eq]
  rcases x.toModel.unpack with s | _ | s | ⟨s, m, e, h⟩
  · cases s <;> rfl
  · rfl
  · cases s <;> rfl
  · cases s with
    | positive => rfl
    | negative => exact congrArg Extended.finite (neg_neg _).symm

theorem printed_of_isFinite {x : Float} (h : x.isFinite = true) :
    ∃ q, (Binary64.ofFloat x).printed = .finite q := by
  change x.toModel.unpack.isFinite = true at h
  rw [ofFloat_eq]
  rcases hx : x.toModel.unpack with s | _ | s | s
  · rw [hx] at h
    cases h
  · rw [hx] at h
    cases h
  · exact ⟨_, rfl⟩
  · exact ⟨_, rfl⟩

theorem numberText_toList (x : Float) :
    (numberText x).toList = (Binary64.ofFloat (x + 0.0)).compact := String.toList_ofList

/-- A double that is not below zero is written without a sign. -/
theorem readMagnitude_numberText {x : Float} (hx : Float.lt x 0.0 = false) :
    readMagnitude (numberText x).toList = some (Binary64.ofFloat x).printed := by
  rw [lt_zero_eq] at hx
  rw [numberText_toList, ofFloat_eq, unpack_add_zero, ofFloat_eq, ← printed_dropZeroSign]
  rcases hu : x.toModel.unpack with s | _ | s | ⟨s, m, q, h⟩ <;> rw [hu] at hx
  · cases s with
    | positive => rfl
    | negative => cases hx
  · rfl
  · obtain ⟨e, he, hv⟩ := Binary64.read_compact 0 (-1074)
    exact (readMagnitude_of_read he).trans (congrArg some hv)
  · cases s with
    | positive =>
      obtain ⟨e, he, hv⟩ := Binary64.read_compact m q
      exact (readMagnitude_of_read he).trans (congrArg some hv)
    | negative => cases hx

theorem printed_one : (Binary64.ofFloat 1.0).printed = .finite 1 := by
  have hd : Binary64.ofFloat 1.0 = .finite false (2 ^ 52) (-52) := by decide
  have hs : Decimal.significant 15 (Binary64.quotient (2 ^ 52) (-52)).1
      (Binary64.quotient (2 ^ 52) (-52)).2 = ⟨10 ^ 14, -14⟩ := by decide
  rw [hd, Binary64.printed, hs]
  norm_num [Binary64.withSign, Decimal.value]

theorem exact_zero : (Binary64.ofFloat 0.0).exact = .finite 0 := by
  have hd : Binary64.ofFloat 0.0 = .finite false 0 (-1074) := by decide
  rw [hd, Binary64.exact]
  norm_num [Binary64.withSign]

instance : Arithmetic.Printed Float where
  exact x := (Binary64.ofFloat x).exact
  printed x := (Binary64.ofFloat x).printed
  readNumber_numberText x := by
    rw [readNumber, numberText_toList, Binary64.readChars_compact, ofFloat_eq, unpack_add_zero,
      printed_dropZeroSign, ofFloat_eq]
  eq_zero_zero := by decide +kernel
  eq_zero_add := beq_zero_add
  printed_of_eq := printed_of_beq
  printed_zero := rfl
  printed_one := printed_one
  printed_infinity := by decide +kernel
  printed_neg x := by rw [ofFloat_neg, Binary64.printed_neg]
  printed_abs := printed_abs
  printed_zero_add x := by
    refine Eq.trans ?_ (congrArg Binary64.printed (ofFloat_eq x).symm)
    exact (congrArg Binary64.printed ((ofFloat_eq _).trans (congrArg _ (unpack_zero_add x)))).trans
      (printed_dropZeroSign _)
  printed_of_isFinite := printed_of_isFinite
  lt_abs_zero x := by
    refine (lt_zero_eq x.abs).trans ?_
    rw [unpack_abs]
    rcases x.toModel.unpack with s | _ | s | s <;> rfl
  readMagnitude_numberText := readMagnitude_numberText
  exact_zero := exact_zero
  exact_infinity := by decide +kernel
  exact_neg x := by rw [ofFloat_neg, Binary64.exact_neg]

end Double

end MixedInteger
