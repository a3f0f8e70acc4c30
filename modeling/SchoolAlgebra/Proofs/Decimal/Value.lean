import Mathlib
import SchoolAlgebra.Decimal.Shortest
import SchoolAlgebra.Proofs.Binary64.Rounding

/-!
# The value of a decimal

A decimal denotes a rational number, and the binary64 number it reads as depends on that number
alone. Reading keeps the order, and a decimal whose value is representable reads as that value.

## Rationals stand for pairs

`Decimal.toUnits` gives a numerator and a denominator, and many pairs stand for one quotient. The
value takes the pairs out of the statements: to compare what two decimals read as it is enough to
compare two rationals, and the monotonicity of `Number.round?` does the rest.

## Main definitions

* `Decimal.value` — the rational number that a decimal denotes
* `Decimal.point` — where the point stands, counted from the first digit

## Main results

* `Decimal.toBinary64_congr` — reading depends on the value
* `Decimal.magnitude_le_of_value_le` — reading keeps the order
* `Decimal.toBinary64_of_value_eq` — a representable value is read exactly
* `Number.toBinary64_shortestDecimal` — the shortest decimal of a number reads as the number
-/

namespace SchoolAlgebra

-- The number of units in one has 1075 bits, and nothing here depends on which they are.
attribute [local irreducible] oneUnits

theorem Binary64.round_eq_finite {negative : Bool} {num den : Nat} {x : Number} :
    Binary64.round negative num den = .finite x ↔ Number.round? negative num den = some x := by
  unfold Binary64.round
  cases Number.round? negative num den with
  | none => exact ⟨nofun, nofun⟩
  | some y =>
    exact ⟨fun h => congrArg some (Binary64.finite.inj h), fun h => congrArg _ (Option.some.inj h)⟩

namespace Decimal

variable {d d' : Decimal} {x y : Number}

/-- The rational number that a decimal denotes. -/
def value (d : Decimal) : ℚ := d.digits * 10 ^ d.exponent

theorem toUnits_snd_pos (d : Decimal) : 0 < d.toUnits.2 := by
  rw [toUnits]
  split
  · exact Nat.one_pos
  · exact Nat.pow_pos (by decide)

/-- Numerator and denominator in units are those of the value. -/
theorem cast_toUnits_fst (d : Decimal) :
    (d.toUnits.1 : ℚ) = d.value * oneUnits * d.toUnits.2 := by
  rw [toUnits, value]
  generalize oneUnits = units
  split
  · next e he =>
    rw [he]
    simp only [Int.ofNat_eq_natCast, zpow_natCast, Nat.cast_mul, Nat.cast_pow, Nat.cast_ofNat,
      Nat.cast_one]
    ring
  · next e he =>
    rw [he, zpow_negSucc]
    have hne : (10 : ℚ) ^ (e + 1) ≠ 0 := by positivity
    simp only [Nat.cast_mul, Nat.cast_pow, Nat.cast_ofNat]
    field_simp

/-- An inequality between values is one between products of numerators and denominators. -/
theorem toUnits_mul_le_of_value_le (h : d.value ≤ d'.value) :
    d.toUnits.1 * d'.toUnits.2 ≤ d'.toUnits.1 * d.toUnits.2 := by
  have hcast : (d.toUnits.1 : ℚ) * d'.toUnits.2 ≤ d'.toUnits.1 * d.toUnits.2 := by
    rw [cast_toUnits_fst d, cast_toUnits_fst d', mul_right_comm (d'.value * _)]
    gcongr
  exact_mod_cast hcast

/-- Decimals of the same value read as the same number. -/
theorem toBinary64_congr (h : d.value = d'.value) : d.toBinary64 = d'.toBinary64 := by
  have heq : d.toUnits.1 * d'.toUnits.2 = d'.toUnits.1 * d.toUnits.2 :=
    le_antisymm (toUnits_mul_le_of_value_le h.le) (toUnits_mul_le_of_value_le h.ge)
  have hround := Number.round?_congr false d.toUnits_snd_pos d'.toUnits_snd_pos heq
  unfold toBinary64 Binary64.round
  rw [hround]

/-- A larger decimal reads as no smaller number. -/
theorem magnitude_le_of_value_le (h : d.value ≤ d'.value) (hx : d.toBinary64 = .finite x)
    (hy : d'.toBinary64 = .finite y) : x.magnitude ≤ y.magnitude :=
  Number.magnitude_le_of_round? d.toUnits_snd_pos d'.toUnits_snd_pos
    (toUnits_mul_le_of_value_le h) (Binary64.round_eq_finite.mp hx) (Binary64.round_eq_finite.mp hy)

/-- A decimal whose value is a number reads as that number. -/
theorem toBinary64_of_value_eq (h : d.value * oneUnits = x.magnitude) :
    d.toBinary64 = .finite { x with negative := false } := by
  have hnum : d.toUnits.1 = x.magnitude * d.toUnits.2 := by
    have hcast := cast_toUnits_fst d
    rw [h] at hcast
    exact_mod_cast hcast
  rw [toBinary64, Binary64.round_eq_finite, hnum]
  exact Number.round?_magnitude false x d.toUnits_snd_pos

/-! ### The place of the point

Where the point stands says between which powers of ten a decimal lies. With the text of a number as
a decimal, this is what decides between writing it in full and writing an exponent part. -/

/-- Where the point stands, counted from the first digit. -/
def point (d : Decimal) : Int := (digitsOf d.digits).length + d.exponent

theorem digits_lt_pow_length (n : Nat) : n < 10 ^ (digitsOf n).length :=
  (Nat.length_toDigits_le_iff (by decide) Nat.length_toDigits_pos).mp le_rfl

theorem pow_length_le_digits {n : Nat} (h : n ≠ 0) : 10 ^ ((digitsOf n).length - 1) ≤ n := by
  by_contra hlt
  rcases Nat.eq_zero_or_pos ((digitsOf n).length - 1) with hzero | hpos
  · rw [hzero] at hlt
    omega
  · have hle := (Nat.length_toDigits_le_iff (b := 10) (by decide) hpos).mpr (not_le.mp hlt)
    have hlength : 0 < (Nat.toDigits 10 n).length := Nat.length_toDigits_pos
    rw [digitsOf] at hle hpos
    omega

/-- The value is below the power of ten at the point. -/
theorem value_lt_zpow_point (d : Decimal) : d.value < 10 ^ d.point := by
  rw [value, point, zpow_add₀ (by norm_num), zpow_natCast]
  have hlt : (d.digits : ℚ) < 10 ^ (digitsOf d.digits).length := by
    exact_mod_cast digits_lt_pow_length d.digits
  gcongr

/-- The value of a decimal other than zero is at least the power of ten before the point. -/
theorem zpow_point_le_value (h : d.digits ≠ 0) : 10 ^ (d.point - 1) ≤ d.value := by
  have hlength : 0 < (digitsOf d.digits).length := Nat.length_toDigits_pos
  have hexponent : d.point - 1 = ((digitsOf d.digits).length - 1 : Nat) + d.exponent := by
    rw [point]
    omega
  have hle : (10 : ℚ) ^ ((digitsOf d.digits).length - 1) ≤ d.digits := by
    exact_mod_cast pow_length_le_digits h
  rw [hexponent, zpow_add₀ (by norm_num), zpow_natCast, value]
  gcongr

end Decimal

namespace Number

variable {x : Number}

/-! ### The shortest decimal reads back

Either the search for a short decimal ends in one that was tested to read as the number, or the
exact decimal is taken, whose value is the number. -/

theorem value_exactDecimal (x : Number) : x.exactDecimal.value * oneUnits = x.magnitude := by
  have hten : (10 : ℚ) ^ unitBits = 5 ^ unitBits * 2 ^ unitBits := by
    rw [← mul_pow]
    norm_num
  have hunits : (oneUnits : ℚ) = 2 ^ unitBits := by
    rw [oneUnits]
    push_cast
    rfl
  rw [exactDecimal, Decimal.value, zpow_neg, zpow_natCast, hten, hunits]
  have htwo : (2 : ℚ) ^ unitBits ≠ 0 := by positivity
  have hfive : (5 : ℚ) ^ unitBits ≠ 0 := by positivity
  push_cast
  field_simp

theorem toBinary64_exactDecimal (x : Number) :
    x.exactDecimal.toBinary64 = .finite { x with negative := false } :=
  Decimal.toBinary64_of_value_eq x.value_exactDecimal

/-- The shortest decimal of a number reads as the number without its sign. -/
theorem toBinary64_shortestDecimal (x : Number) :
    x.shortestDecimal.toBinary64 = .finite { x with negative := false } := by
  rw [shortestDecimal]
  cases hfound : (List.range sufficientDigits).findSome? fun n => x.decimalWithDigits? (n + 1) with
  | none => exact x.toBinary64_exactDecimal
  | some d =>
    obtain ⟨n, -, hd⟩ := List.exists_of_findSome?_eq_some hfound
    have hread : x.isReadFrom d = true := List.find?_some hd
    exact of_decide_eq_true hread

/-- The shortest decimal of a number other than zero is not zero. -/
theorem digits_shortestDecimal_ne_zero (h : x.magnitude ≠ 0) : x.shortestDecimal.digits ≠ 0 := by
  intro hzero
  have hvalue : x.shortestDecimal.value * oneUnits = zero.magnitude := by
    rw [Decimal.value, hzero, magnitude_zero, Nat.cast_zero, zero_mul, zero_mul]
  have hread := x.toBinary64_shortestDecimal
  rw [Decimal.toBinary64_of_value_eq hvalue] at hread
  have heq : ({ zero with negative := false } : Number) = { x with negative := false } :=
    Binary64.finite.inj hread
  exact h (congrArg magnitude heq).symm

/-- The shortest decimal does not depend on the sign. -/
theorem shortestDecimal_unsigned (x : Number) :
    ({ x with negative := false } : Number).shortestDecimal = x.shortestDecimal := rfl

end Number

end SchoolAlgebra
