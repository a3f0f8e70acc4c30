import Mathlib
import SchoolAlgebra.Binary64.Round

/-!
# Rounding depends on the quotient and keeps order

`Number.round?` is given a numerator and a denominator. Here it is shown to be a function of the
quotient alone, and a monotone one. Both follow from what the fitting scale does: below it the whole
part of the quotient has at most 53 bits, and exactly 53 if the scale is not the least.

## The carry

A mantissa that is rounded up to `2 ^ 53` has one bit too many, so `Number.round?` writes `2 ^ 52`
at the next scale in its place. The number of units is the same before and after. Every statement
here is therefore about `Number.magnitude`, the mantissa times two to the scale, and never about the
two fields: seen that way a carry is no special case.

## Main results

* `Number.round?_mul_mul_right` — a common factor does not matter
* `Number.magnitude_of_round?` — the magnitude of a result, before and after a carry
* `Number.magnitude_le_of_round?` — a larger quotient has no smaller result
* `Number.isSome_round?` — a quotient that fits has a result
-/

namespace SchoolAlgebra

variable {num num' den den' : Nat}

/-! ### A common factor

Neither the whole part of a quotient nor the side on which its rest lies of one half changes when
both of its numbers are multiplied. Two fractions of one quotient are compared by multiplying each
with the denominator of the other. -/

theorem roundHalfEven_mul_mul_right (num den : Nat) {k : Nat} (hk : 0 < k) :
    roundHalfEven (num * k) (den * k) = roundHalfEven num den := by
  have hmod : num * k % (den * k) = num % den * k := Nat.mul_mod_mul_right k num den
  have hlt : 2 * (num % den * k) < den * k ↔ 2 * (num % den) < den := by
    rw [← Nat.mul_assoc]
    exact Nat.mul_lt_mul_right hk
  have heq : 2 * (num % den * k) = den * k ↔ 2 * (num % den) = den := by
    rw [← Nat.mul_assoc]
    exact Nat.mul_left_inj hk.ne'
  simp only [roundHalfEven, Nat.mul_div_mul_right _ _ hk, hmod, hlt, heq]

theorem fittingScale_mul_mul_right (num den : Nat) {k : Nat} (hk : 0 < k) :
    fittingScale (num * k) (den * k) = fittingScale num den := by
  rw [fittingScale, Nat.mul_div_mul_right _ _ hk, fittingScale]

/-- Numerator and denominator may be multiplied by the same number. -/
theorem Number.round?_mul_mul_right (negative : Bool) (num den : Nat) {k : Nat} (hk : 0 < k) :
    Number.round? negative (num * k) (den * k) = Number.round? negative num den := by
  have hround (scale : Nat) :
      roundHalfEven (num * k) (den * k * 2 ^ scale) = roundHalfEven num (den * 2 ^ scale) := by
    rw [Nat.mul_right_comm]
    exact roundHalfEven_mul_mul_right _ _ hk
  simp only [Number.round?, fittingScale_mul_mul_right _ _ hk, hround]

/-- The result depends on the quotient only. -/
theorem Number.round?_congr (negative : Bool) (hden : 0 < den) (hden' : 0 < den')
    (h : num * den' = num' * den) :
    Number.round? negative num den = Number.round? negative num' den' := by
  rw [← Number.round?_mul_mul_right negative num den hden',
    ← Number.round?_mul_mul_right negative num' den' hden, h, Nat.mul_comm den den']

/-! ### The scale

The fitting scale is the least at which the whole part of the quotient has no more than 53 bits.
Unless the scale is zero it has all of them. Between them the two bounds are all that later proofs
use of the scale. -/

theorem fittingScale_mono (den : Nat) (h : num ≤ num') :
    fittingScale num den ≤ fittingScale num' den := by
  have hquotient : num / den ≤ num' / den := Nat.div_le_div_right h
  rcases Nat.eq_zero_or_pos (num / den) with hzero | hpos
  · simp [fittingScale, hzero]
  · have hlog : (num / den).log2 ≤ (num' / den).log2 := by
      rw [Nat.le_log2 (by omega)]
      exact (Nat.log2_self_le hpos.ne').trans hquotient
    exact Nat.sub_le_sub_right hlog 52

/-- At the fitting scale the whole part has at most 53 bits. -/
theorem div_fittingScale_lt (num den : Nat) : num / (den * 2 ^ fittingScale num den) < 2 ^ 53 := by
  rw [← Nat.div_div_eq_div_mul, Nat.div_lt_iff_lt_mul (Nat.two_pow_pos _), ← Nat.pow_add]
  have hlt : num / den < 2 ^ ((num / den).log2 + 1) := Nat.lt_log2_self
  refine hlt.trans_le (Nat.pow_le_pow_right (by decide) ?_)
  rw [fittingScale]
  omega

/-- At a fitting scale other than the least the whole part has 53 bits. -/
theorem le_div_fittingScale (h : fittingScale num den ≠ 0) :
    2 ^ 52 ≤ num / (den * 2 ^ fittingScale num den) := by
  rw [← Nat.div_div_eq_div_mul, Nat.le_div_iff_mul_le (Nat.two_pow_pos _), ← Nat.pow_add]
  rw [fittingScale] at h ⊢
  have hne : num / den ≠ 0 := by
    intro hzero
    simp [hzero] at h
  have hexponent : 52 + ((num / den).log2 - 52) = (num / den).log2 := by omega
  rw [hexponent]
  exact Nat.log2_self_le hne

theorem roundHalfEven_fittingScale_le (num den : Nat) :
    roundHalfEven num (den * 2 ^ fittingScale num den) ≤ 2 ^ 53 :=
  (roundHalfEven_bounds _ _).2.trans (div_fittingScale_lt num den)

theorem le_roundHalfEven_fittingScale (h : fittingScale num den ≠ 0) :
    2 ^ 52 ≤ roundHalfEven num (den * 2 ^ fittingScale num den) :=
  (le_div_fittingScale h).trans (roundHalfEven_bounds _ _).1

namespace Number

variable {negative negative' : Bool} {x y : Number}

/-! ### The result -/

theorem eq_of_ofParts? {mantissa scale : Nat} (h : ofParts? negative mantissa scale = some x) :
    x.negative = negative ∧ x.mantissa = mantissa ∧ x.scale = scale := by
  rw [ofParts?] at h
  split at h
  · cases h
    exact ⟨rfl, rfl, rfl⟩
  · cases h

/-- The magnitude of a rounded quotient. A mantissa that carries has the same magnitude at the next
scale. -/
theorem magnitude_of_round? (h : round? negative num den = some x) :
    x.magnitude =
      roundHalfEven num (den * 2 ^ fittingScale num den) * 2 ^ fittingScale num den := by
  simp only [round?] at h
  split at h
  · next hcarry =>
    obtain ⟨-, hmantissa, hscale⟩ := eq_of_ofParts? h
    rw [magnitude, hmantissa, hscale, hcarry, ← Nat.pow_add, ← Nat.pow_add]
    congr 1
    omega
  · obtain ⟨-, hmantissa, hscale⟩ := eq_of_ofParts? h
    rw [magnitude, hmantissa, hscale]

theorem negative_of_round? (h : round? negative num den = some x) : x.negative = negative := by
  simp only [round?] at h
  split at h <;> exact (eq_of_ofParts? h).1

/-- A quotient whose scale is in range, with room for a carry, has a result. -/
theorem isSome_round? (num den : Nat) (negative : Bool) (h : fittingScale num den ≤ 2044) :
    (round? negative num den).isSome = true := by
  simp only [round?]
  split
  · have hcanonical : Canonical (2 ^ 52) (fittingScale num den + 1) :=
      ⟨by decide, by omega, .inl le_rfl⟩
    simp [ofParts?, hcanonical]
  · next hne =>
    have hcanonical : Canonical (roundHalfEven num (den * 2 ^ fittingScale num den))
        (fittingScale num den) := by
      refine ⟨lt_of_le_of_ne (roundHalfEven_fittingScale_le num den) hne, by omega, ?_⟩
      by_cases hzero : fittingScale num den = 0
      · exact .inr hzero
      · exact .inl (le_roundHalfEven_fittingScale hzero)
    simp [ofParts?, hcanonical]

/-- Numbers of one sign and one magnitude are the same. -/
theorem ext_magnitude (hsign : x.negative = y.negative) (h : x.magnitude = y.magnitude) :
    x = y := by
  have hx := round?_magnitude x.negative x Nat.one_pos
  have hy := round?_magnitude y.negative y Nat.one_pos
  rw [h, hsign] at hx
  have heq : ({ x with negative := y.negative } : Number) = y := Option.some.inj (hx.symm.trans hy)
  rw [← heq, ← hsign]

/-! ### Order

At one scale a larger quotient has no smaller mantissa. At two scales the mantissas do not compare,
but the smaller result is at most `2 ^ 53` steps of its scale and the larger at least `2 ^ 52` steps
of a scale above it. -/

end Number

theorem roundHalfEven_mono (h : num ≤ num') : roundHalfEven num den ≤ roundHalfEven num' den := by
  have hquotient : num / den ≤ num' / den := Nat.div_le_div_right h
  rcases hquotient.lt_or_eq with hlt | heq
  · have hupper := (roundHalfEven_bounds num den).2
    have hlower := (roundHalfEven_bounds num' den).1
    omega
  · have hmod : num % den ≤ num' % den := by
      have hsplit := Nat.div_add_mod num den
      have hsplit' := Nat.div_add_mod num' den
      rw [← heq] at hsplit'
      omega
    simp only [roundHalfEven, ← heq]
    split <;> split <;> omega

namespace Number

variable {negative negative' : Bool} {x y : Number}

private theorem magnitude_le_of_round?_same (h : num ≤ num')
    (hx : round? negative num den = some x) (hy : round? negative' num' den = some y) :
    x.magnitude ≤ y.magnitude := by
  rw [magnitude_of_round? hx, magnitude_of_round? hy]
  rcases (fittingScale_mono den h).lt_or_eq with hlt | heq
  · have hupper := roundHalfEven_fittingScale_le num den
    have hlower := @le_roundHalfEven_fittingScale num' den (by omega)
    -- The mantissa of the smaller one is at most `2 ^ 53`, which is `2 ^ 52` at the next scale.
    calc roundHalfEven num (den * 2 ^ fittingScale num den) * 2 ^ fittingScale num den
        ≤ 2 ^ 53 * 2 ^ fittingScale num den := Nat.mul_le_mul_right _ hupper
      _ = 2 ^ 52 * 2 ^ (fittingScale num den + 1) := by
        rw [← Nat.pow_add, ← Nat.pow_add]
        congr 1
        omega
      _ ≤ 2 ^ 52 * 2 ^ fittingScale num' den :=
        Nat.mul_le_mul_left _ (Nat.pow_le_pow_right (by decide) hlt)
      _ ≤ _ := Nat.mul_le_mul_right _ hlower
  · rw [← heq]
    exact Nat.mul_le_mul_right _ (roundHalfEven_mono h)

/-- Rounding keeps the order of quotients. -/
theorem magnitude_le_of_round? (hden : 0 < den) (hden' : 0 < den')
    (h : num * den' ≤ num' * den) (hx : round? negative num den = some x)
    (hy : round? negative' num' den' = some y) : x.magnitude ≤ y.magnitude := by
  rw [← round?_mul_mul_right negative num den hden'] at hx
  rw [← round?_mul_mul_right negative' num' den' hden, Nat.mul_comm den'] at hy
  exact magnitude_le_of_round?_same h hx hy

end Number

end SchoolAlgebra
