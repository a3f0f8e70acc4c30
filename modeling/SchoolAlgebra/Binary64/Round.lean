import SchoolAlgebra.Binary64.Basic

/-!
# Rounding to the nearest number

`Number.round?` takes an exact positive or zero quotient, in units, to the nearest finite number; a
tie goes to the even mantissa. All arithmetic of the library is an exact computation followed by
this one rounding.

## Implementation notes

The scale is read off the whole part of the quotient: it is the least one that brings the whole
part below `2 ^ 53`. Rounding may then carry the mantissa to `2 ^ 53`, which is `2 ^ 52` at the next
scale. What is left out of range has overflowed, and has no result.

## Main results

* `roundHalfEven_near` — the rounded quotient is at most half a step away
* `Number.round?_magnitude` — a number is the nearest one to its own magnitude
-/

namespace SchoolAlgebra

/-- The natural number nearest to `num / den`; of two nearest ones the even one. -/
def roundHalfEven (num den : Nat) : Nat :=
  let whole := num / den
  let twice := 2 * (num % den)
  if twice < den ∨ (twice = den ∧ whole % 2 = 0) then whole else whole + 1

/-- A whole quotient is not rounded. -/
theorem roundHalfEven_mul_right {den : Nat} (whole : Nat) (h : 0 < den) :
    roundHalfEven (whole * den) den = whole := by
  simp [roundHalfEven, Nat.mul_div_cancel _ h, h]

/-- Rounding moves the whole part up by at most one. -/
theorem roundHalfEven_bounds (num den : Nat) :
    num / den ≤ roundHalfEven num den ∧ roundHalfEven num den ≤ num / den + 1 := by
  simp only [roundHalfEven]
  split <;> omega

/-- The rounded quotient is at most half a step away from the quotient, on either side. -/
theorem roundHalfEven_near {num den : Nat} (h : 0 < den) :
    2 * num ≤ (2 * roundHalfEven num den + 1) * den ∧
      2 * roundHalfEven num den * den ≤ 2 * num + den := by
  have hsplit := Nat.div_add_mod num den
  have hlt := Nat.mod_lt num h
  rw [Nat.mul_comm] at hsplit
  simp only [roundHalfEven]
  split <;> simp only [Nat.add_mul, Nat.mul_add, Nat.mul_assoc, Nat.one_mul] <;> omega

/-- The least scale at which the whole part of `num / den` has at most 53 bits. -/
def fittingScale (num den : Nat) : Nat := (num / den).log2 - 52

theorem fittingScale_mul_right {den : Nat} (whole : Nat) (h : 0 < den) :
    fittingScale (whole * den) den = whole.log2 - 52 := by
  rw [fittingScale, Nat.mul_div_cancel _ h]

private theorem log2_mul_two_pow {n : Nat} (h : n ≠ 0) (k : Nat) :
    (n * 2 ^ k).log2 = n.log2 + k := by
  induction k with
  | zero => simp
  | succ k ih =>
    have hne : n * 2 ^ k ≠ 0 := Nat.mul_ne_zero h (Nat.ne_of_gt (Nat.two_pow_pos k))
    rw [Nat.pow_succ, ← Nat.mul_assoc, Nat.mul_comm _ 2, Nat.log2_two_mul hne, ih]
    rfl

/-- The scale of a number is the one that fits its magnitude. -/
theorem Number.log2_magnitude_sub (x : Number) : x.magnitude.log2 - 52 = x.scale := by
  obtain ⟨hm, -, hleast⟩ := x.canonical
  by_cases hzero : x.mantissa = 0
  · have hscale : x.scale = 0 := by omega
    simp [Number.magnitude, hzero, hscale]
  · have hlog : x.magnitude.log2 = x.mantissa.log2 + x.scale := by
      rw [Number.magnitude, log2_mul_two_pow hzero]
    have hhigh : x.mantissa.log2 < 53 := (Nat.log2_lt hzero).mpr hm
    rcases hleast with hlow | hlow
    · have := (Nat.le_log2 hzero).mpr hlow
      omega
    · omega

/-- The finite number nearest to `num / den` units, with the given sign; none on overflow. -/
def Number.round? (negative : Bool) (num den : Nat) : Option Number :=
  let scale := fittingScale num den
  let mantissa := roundHalfEven num (den * 2 ^ scale)
  if mantissa = 2 ^ 53 then
    Number.ofParts? negative (2 ^ 52) (scale + 1)
  else
    Number.ofParts? negative mantissa scale

/-- A number is not rounded: it is the nearest one to its own magnitude. -/
theorem Number.round?_magnitude (negative : Bool) (x : Number) {den : Nat} (h : 0 < den) :
    Number.round? negative (x.magnitude * den) den = some { x with negative } := by
  have hne : x.mantissa ≠ 2 ^ 53 := Nat.ne_of_lt x.canonical.1
  have hround : roundHalfEven (x.magnitude * den) (den * 2 ^ x.scale) = x.mantissa := by
    rw [Number.magnitude, Nat.mul_assoc, Nat.mul_comm (2 ^ x.scale) den]
    exact roundHalfEven_mul_right _ (Nat.mul_pos h (Nat.two_pow_pos _))
  simp only [Number.round?, fittingScale_mul_right _ h, Number.log2_magnitude_sub, hround,
    if_neg hne]
  exact Number.ofParts?_self { x with negative }

/-- The binary64 number nearest to `num / den` units: an infinity on overflow. -/
def Binary64.round (negative : Bool) (num den : Nat) : Binary64 :=
  match Number.round? negative num den with
  | some x => .finite x
  | none => .infinite negative

end SchoolAlgebra
