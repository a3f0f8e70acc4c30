import Mathlib
import SchoolAlgebra.Decimal.Text
import SchoolAlgebra.Proofs.Decimal.Value

/-!
# Numerals

A `Numeral` is a text that the expression language reads as one number: some digits, and possibly a
point with more digits. Each way of writing a number without an exponent part is given here as the
numeral that it writes, together with the value that this numeral has.

## Why numerals are a type of their own

A text that is printed for a number is read as one number only if it is made of digits, with at most
one point among them. The fields of a `Numeral` say so. What is proved of numerals then holds of
every text that is printed, in whichever way its digits were found.

## Main definitions

* `Numeral` — digits before and after the point
* `Numeral.ofNat`, `Numeral.ofHundredths`, `Numeral.positional` — the numerals that are printed

## Main results

* `Numeral.ofNumeral_text` — a numeral denotes what its digits and its point say
* `Numeral.value_ofNat`, `Numeral.value_ofHundredths`, `Numeral.value_positional` — the values
-/

namespace SchoolAlgebra

namespace Decimal

/-! ### Digits

Three ways of filling up occur when a number is written: zeros after the digits, zeros before them,
and zeros dropped from the end. Each is paired with what it does to the number that the digits
denote. -/

theorem ofDigits_eq_ofDigitChars (digits : List Char) :
    ofDigits digits = Nat.ofDigitChars 10 digits 0 := rfl

theorem isDigit_of_mem_digitsOf {n : Nat} {c : Char} (h : c ∈ digitsOf n) : c.isDigit = true :=
  Nat.isDigit_of_mem_toDigits (by decide) (by decide) h

theorem digitsOf_ne_nil (n : Nat) : digitsOf n ≠ [] := Nat.toDigits_ne_nil

@[simp] theorem ofDigits_digitsOf (n : Nat) : ofDigits (digitsOf n) = n :=
  Nat.ofDigitChars_ten_toDigits

theorem ofDigits_append (a b : List Char) :
    ofDigits (a ++ b) = 10 ^ b.length * ofDigits a + ofDigits b := by
  rw [ofDigits_eq_ofDigitChars, Nat.ofDigitChars_append, Nat.ofDigitChars_eq_ofDigitChars_zero]
  rfl

theorem length_zeros (k : Nat) : (zeros k).length = k := List.length_replicate

theorem isDigit_of_mem_zeros {k : Nat} {c : Char} (h : c ∈ zeros k) : c.isDigit = true := by
  rw [List.eq_of_mem_replicate h]
  rfl

@[simp] theorem ofDigits_zeros (k : Nat) : ofDigits (zeros k) = 0 := by
  rw [ofDigits_eq_ofDigitChars, zeros, Nat.ofDigitChars_replicate_zero, Nat.mul_zero]

/-- What is dropped from the end of digits are zeros. -/
theorem exists_dropTrailingZeros_append (digits : List Char) :
    ∃ k, digits = dropTrailingZeros digits ++ zeros k := by
  refine ⟨(digits.reverse.takeWhile (· == '0')).length, ?_⟩
  have hzeros : zeros (digits.reverse.takeWhile (· == '0')).length =
      (digits.reverse.takeWhile (· == '0')).reverse := by
    refine (List.eq_replicate_iff.mpr ⟨List.length_reverse, fun c hc => ?_⟩).symm
    have hmem : c ∈ digits.reverse.takeWhile (· == '0') := List.mem_reverse.mp hc
    simpa using List.mem_takeWhile_imp hmem
  rw [hzeros, dropTrailingZeros, ← List.reverse_append, List.takeWhile_append_dropWhile,
    List.reverse_reverse]

theorem mem_of_mem_dropTrailingZeros {digits : List Char} {c : Char}
    (h : c ∈ dropTrailingZeros digits) : c ∈ digits := by
  obtain ⟨k, hk⟩ := exists_dropTrailingZeros_append digits
  rw [hk]
  exact List.mem_append_left _ h

theorem isDigit_of_mem_padLeft {width : Nat} {digits : List Char}
    (h : ∀ c ∈ digits, c.isDigit = true) {c : Char} (hc : c ∈ padLeft width digits) :
    c.isDigit = true := by
  rcases List.mem_append.mp hc with hc | hc
  · exact isDigit_of_mem_zeros hc
  · exact h c hc

theorem ofDigits_padLeft (width : Nat) (digits : List Char) :
    ofDigits (padLeft width digits) = ofDigits digits := by
  rw [padLeft, ofDigits_append, ofDigits_zeros, Nat.mul_zero, Nat.zero_add]

theorem length_padLeft {width : Nat} {digits : List Char} (h : digits.length ≤ width) :
    (padLeft width digits).length = width := by
  rw [padLeft, List.length_append, length_zeros]
  omega

end Decimal

open Decimal

/-- A text that is read as one number: digits, and possibly a point and more digits. -/
structure Numeral where
  /-- The digits before the point. -/
  whole : List Char
  /-- The digits after the point; if there are none, there is no point. -/
  fraction : List Char
  /-- Something stands before the point. -/
  whole_ne_nil : whole ≠ []
  /-- Only digits stand before the point. -/
  isDigit_whole : ∀ c ∈ whole, c.isDigit = true
  /-- Only digits stand after the point. -/
  isDigit_fraction : ∀ c ∈ fraction, c.isDigit = true

namespace Numeral

/-- The characters of a numeral. -/
def text (n : Numeral) : List Char :=
  n.whole ++ if n.fraction.isEmpty then [] else '.' :: n.fraction

/-- The decimal that a numeral denotes. -/
def decimal (n : Numeral) : Decimal :=
  ⟨ofDigits (n.whole ++ n.fraction), -(n.fraction.length : Int)⟩

theorem text_of_fraction_eq_nil {n : Numeral} (h : n.fraction = []) : n.text = n.whole := by
  simp [text, h]

theorem text_of_fraction_ne_nil {n : Numeral} (h : n.fraction ≠ []) :
    n.text = n.whole ++ '.' :: n.fraction := by
  simp [text, h]

/-- The digits before the point are the digits at the start. -/
theorem takeWhile_isDigit_text (n : Numeral) : n.text.takeWhile Char.isDigit = n.whole := by
  rw [text, List.takeWhile_append_of_pos n.isDigit_whole]
  split
  · simp
  · simp

theorem dropWhile_isDigit_text (n : Numeral) :
    n.text.dropWhile Char.isDigit = if n.fraction.isEmpty then [] else '.' :: n.fraction := by
  rw [text, List.dropWhile_append_of_pos n.isDigit_whole]
  split
  · simp
  · simp

/-- A numeral denotes what its digits and its point say. -/
theorem ofNumeral_text (n : Numeral) : Decimal.ofNumeral n.text = n.decimal := by
  have hfraction : (n.text.dropWhile Char.isDigit).drop 1 = n.fraction := by
    rw [dropWhile_isDigit_text]
    split
    · next h => simp [List.isEmpty_iff.mp h]
    · rfl
  rw [Decimal.ofNumeral, takeWhile_isDigit_text, hfraction, decimal]

/-- The value of a numeral: a place after the point is a tenth of the one before. -/
theorem value_decimal (n : Numeral) :
    n.decimal.value = ofDigits (n.whole ++ n.fraction) / 10 ^ n.fraction.length := by
  rw [Decimal.value, decimal, zpow_neg, zpow_natCast, div_eq_mul_inv]

/-! ### Whole numbers -/

/-- A natural number in full. -/
def ofNat (n : Nat) : Numeral where
  whole := digitsOf n
  fraction := []
  whole_ne_nil := digitsOf_ne_nil n
  isDigit_whole _ := isDigit_of_mem_digitsOf
  isDigit_fraction _ h := by simp at h

@[simp] theorem text_ofNat (n : Nat) : (ofNat n).text = digitsOf n := text_of_fraction_eq_nil rfl

theorem value_ofNat (n : Nat) : (ofNat n).decimal.value = n := by
  simp [value_decimal, ofNat]

/-! ### Hundredths -/

/-- A number of hundredths, without zeros at the end of the two places. -/
def ofHundredths (n : Nat) : Numeral where
  whole := digitsOf (n / 100)
  fraction := dropTrailingZeros (padLeft 2 (digitsOf (n % 100)))
  whole_ne_nil := digitsOf_ne_nil _
  isDigit_whole _ := isDigit_of_mem_digitsOf
  isDigit_fraction _ h :=
    isDigit_of_mem_padLeft (fun _ => isDigit_of_mem_digitsOf) (mem_of_mem_dropTrailingZeros h)

theorem value_ofHundredths (n : Nat) : (ofHundredths n).decimal.value = n / 100 := by
  have hlength : (digitsOf (n % 100)).length ≤ 2 :=
    (Nat.length_toDigits_le_iff (by decide) (by decide)).mpr (by omega)
  obtain ⟨k, hk⟩ := exists_dropTrailingZeros_append (padLeft 2 (digitsOf (n % 100)))
  rw [value_decimal]
  simp only [ofHundredths]
  generalize dropTrailingZeros (padLeft 2 (digitsOf (n % 100))) = places at hk ⊢
  have hplaces : places.length + k = 2 := by
    have := congrArg List.length hk
    rw [length_padLeft hlength, List.length_append, length_zeros] at this
    exact this.symm
  -- With the dropped zeros put back, the digits are those of the hundredths.
  have hdigits : ofDigits (digitsOf (n / 100) ++ places) * 10 ^ k = n := by
    have hpadded : ofDigits (padLeft 2 (digitsOf (n % 100))) = n % 100 := by
      rw [ofDigits_padLeft, ofDigits_digitsOf]
    rw [hk, ofDigits_append, ofDigits_zeros, length_zeros, Nat.add_zero] at hpadded
    rw [ofDigits_append, ofDigits_digitsOf, Nat.add_mul, Nat.mul_right_comm, ← Nat.pow_add, hplaces,
      Nat.mul_comm (ofDigits places), hpadded]
    omega
  have hcast : (ofDigits (digitsOf (n / 100) ++ places) : ℚ) * 10 ^ k = n := by
    exact_mod_cast hdigits
  have hpow : (10 : ℚ) ^ places.length * 10 ^ k = 100 := by
    rw [← pow_add, hplaces]
    norm_num
  rw [div_eq_div_iff (by positivity) (by norm_num), ← hcast, ← hpow]
  ring

/-! ### Digits with a point among them

The point stands before all digits, after all of them, or between two of them. The value is the same
expression in the three cases, a power of ten times the number that the digits denote. -/

/-- Significant digits with a point at the given place, filled up with zeros up to the point. -/
def positional (digits : List Char) (h : ∀ c ∈ digits, c.isDigit = true) (point : Int) :
    Numeral where
  whole :=
    if point ≤ 0 then ['0']
    else if (digits.length : Int) ≤ point then digits ++ zeros (point.toNat - digits.length)
    else digits.take point.toNat
  fraction :=
    if point ≤ 0 then zeros (-point).toNat ++ digits
    else if (digits.length : Int) ≤ point then ['0']
    else digits.drop point.toNat
  whole_ne_nil := by
    split
    · simp
    · split
      · intro hnil
        have hlength := congrArg List.length hnil
        rw [List.length_append, length_zeros, List.length_nil] at hlength
        omega
      · intro hnil
        have hlength := congrArg List.length hnil
        rw [List.length_take, List.length_nil] at hlength
        omega
  isDigit_whole := by
    intro c hc
    split at hc
    · rw [List.mem_singleton.mp hc]
      rfl
    · split at hc
      · rcases List.mem_append.mp hc with hc | hc
        · exact h c hc
        · exact isDigit_of_mem_zeros hc
      · exact h c (List.mem_of_mem_take hc)
  isDigit_fraction := by
    intro c hc
    split at hc
    · rcases List.mem_append.mp hc with hc | hc
      · exact isDigit_of_mem_zeros hc
      · exact h c hc
    · split at hc
      · rw [List.mem_singleton.mp hc]
        rfl
      · exact h c (List.mem_of_mem_drop hc)

variable {digits : List Char} {point : Int}

/-- The text is the one that numbers are printed with. -/
theorem text_positional (h : ∀ c ∈ digits, c.isDigit = true) (hne : digits ≠ []) :
    (positional digits h point).text = positionalText numberLayout digits point := by
  rw [text, positionalText, positional]
  split
  · simp [hne]
  · split
    · simp [numberLayout]
    · have hdrop : digits.drop point.toNat ≠ [] := by
        rw [Ne, List.drop_eq_nil_iff]
        omega
      simp [hdrop]

/-- The value is that of the digits, with the point where it stands. -/
theorem value_positional (h : ∀ c ∈ digits, c.isDigit = true) :
    (positional digits h point).decimal.value = ofDigits digits * 10 ^ (point - digits.length) := by
  rw [value_decimal, positional]
  split
  · next hpoint =>
    have hexponent : point - digits.length = -(((-point).toNat + digits.length : Nat) : Int) := by
      omega
    rw [ofDigits_append, ofDigits_append, List.length_append, length_zeros, hexponent, zpow_neg,
      zpow_natCast, div_eq_mul_inv, ofDigits_zeros]
    simp [ofDigits, digitValue]
  · split
    · next hpoint hlength =>
      have hexponent : point - digits.length = ((point.toNat - digits.length : Nat) : Int) := by
        omega
      rw [ofDigits_append, ofDigits_append, hexponent, zpow_natCast, ofDigits_zeros, length_zeros]
      have hzero : ofDigits ['0'] = 0 := rfl
      rw [hzero]
      push_cast
      simp
      ring
    · next hpoint hlength =>
      have hexponent : point - digits.length = -((digits.length - point.toNat : Nat) : Int) := by
        omega
      rw [List.take_append_drop, List.length_drop, hexponent, zpow_neg, zpow_natCast,
        div_eq_mul_inv]

end Numeral

end SchoolAlgebra
