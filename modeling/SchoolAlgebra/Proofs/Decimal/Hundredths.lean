import Mathlib
import SchoolAlgebra.Proofs.Decimal.NumberText

/-!
# Two places are kept

The short text of a number is rounded to hundredths, so reading it gives another number. That number
has the same hundredths, and so the same short text.

The proof compares the step between neighbouring numbers with a hundredth. Where the step is smaller
than a hundredth, the number that is read is less than half a hundredth away from the hundredths
that were written. Where it is larger, the hundredths are less than half a step away from the number
that was written, which is therefore read.

## Main results

* `Number.exists_toBinary64_shortNumeral` — the short numeral reads as a number with the same
  hundredths
-/

namespace SchoolAlgebra

/-! ### Reading a number of hundredths

A number of hundredths is read as the quotient of that many units by one hundred. Since one hundred
is no power of two, a step of a scale is never just a hundredth: it is smaller or larger. -/

attribute [local irreducible] oneUnits

/-- A quotient less than half a step away from a natural number is rounded to it. -/
theorem roundHalfEven_eq_of_near {num den whole : Nat} (hupper : 2 * num < (2 * whole + 1) * den)
    (hlower : 2 * whole * den < 2 * num + den) : roundHalfEven num den = whole := by
  have hden : 0 < den := by
    rcases Nat.eq_zero_or_pos den with rfl | h
    · omega
    · exact h
  obtain ⟨hnear, hnear'⟩ := @roundHalfEven_near num den hden
  have hle : roundHalfEven num den < whole + 1 := by
    by_contra h
    have := Nat.mul_le_mul_right den (not_lt.mp h)
    linarith
  have hge : whole < roundHalfEven num den + 1 := by
    by_contra h
    have := Nat.mul_le_mul_right den (not_lt.mp h)
    linarith
  omega

theorem Decimal.toBinary64_eq_round {d : Decimal} {num den : Nat} (hden : 0 < den)
    (h : d.value * oneUnits * den = num) : d.toBinary64 = Binary64.round false num den := by
  have hcast : (d.toUnits.1 : ℚ) * den = num * d.toUnits.2 := by
    rw [Decimal.cast_toUnits_fst, ← h]
    ring
  have hround := Number.round?_congr false d.toUnits_snd_pos hden (by exact_mod_cast hcast)
  unfold Decimal.toBinary64 Binary64.round
  rw [hround]

theorem Numeral.toBinary64_ofHundredths (n : Nat) :
    (Numeral.ofHundredths n).decimal.toBinary64 = Binary64.round false (n * oneUnits) 100 := by
  apply Decimal.toBinary64_eq_round (by decide)
  rw [Numeral.value_ofHundredths]
  push_cast
  ring

/-- No step is exactly a hundredth. -/
theorem hundred_mul_two_pow_ne (k : Nat) : 100 * 2 ^ k ≠ oneUnits := by
  intro h
  have hdvd : 5 ∣ 2 ^ unitBits := by
    rw [← oneUnits, ← h]
    exact Dvd.dvd.mul_right (by decide) _
  have hfive : 5 ∣ 2 := Nat.Prime.dvd_of_dvd_pow (by decide) hdvd
  omega

namespace Number

/-! ### The hundredths of a number -/

variable {x y : Number}

theorem hundredths_congr (h : x.magnitude = y.magnitude) : x.hundredths = y.hundredths := by
  rw [hundredths, hundredths, h]

/-- The hundredths are at most half a hundredth away. -/
theorem hundredths_near (x : Number) :
    2 * (x.magnitude * 100) ≤ (2 * x.hundredths + 1) * oneUnits ∧
      2 * x.hundredths * oneUnits ≤ 2 * (x.magnitude * 100) + oneUnits :=
  roundHalfEven_near oneUnits_pos

/-- The step at the hundredths of a number below `2 ^ 53`. -/
theorem fittingScale_hundredths_le (h : x.magnitude < 2 ^ 53 * oneUnits) :
    fittingScale (x.hundredths * oneUnits) 100 ≤ 1076 := by
  rcases Nat.eq_zero_or_pos (fittingScale (x.hundredths * oneUnits) 100) with hzero | hpos
  · omega
  · have hle := le_div_fittingScale hpos.ne'
    rw [Nat.le_div_iff_mul_le (by positivity)] at hle
    have hnear := x.hundredths_near.2
    have hlt : 2 ^ fittingScale (x.hundredths * oneUnits) 100 < 2 ^ 2 * oneUnits := by
      linarith
    generalize fittingScale (x.hundredths * oneUnits) 100 = s at hlt ⊢
    rw [oneUnits, ← Nat.pow_add, Nat.pow_lt_pow_iff_right (by decide), unitBits] at hlt
    omega

/-! ### The two cases

In the coarse case the number usually lies among the steps at which its hundredths are read, and
then it is the nearest of them. The exception is a number just below the place where the step
doubles, with hundredths just above it. These hundredths are then the first integer after the
doubling, and an integer is read exactly. -/

/-- A number that is not below the 53-bit integers at a scale counts steps of that scale. -/
theorem exists_magnitude_eq_mul {scale : Nat} (h : 2 ^ 52 * 2 ^ scale ≤ x.magnitude) :
    ∃ k, x.magnitude = k * 2 ^ scale := by
  have hscale : scale ≤ x.scale := by
    by_contra hlt
    have hpow : 2 ^ (x.scale + 1) ≤ 2 ^ scale := Nat.pow_le_pow_right (by decide) (by omega)
    have hmantissa : x.magnitude < 2 ^ 53 * 2 ^ x.scale :=
      Nat.mul_lt_mul_of_pos_right x.canonical.1 (Nat.two_pow_pos _)
    rw [Nat.pow_succ] at hpow
    linarith
  refine ⟨x.mantissa * 2 ^ (x.scale - scale), ?_⟩
  rw [Nat.mul_assoc, ← Nat.pow_add, Nat.sub_add_cancel hscale, magnitude]

/-- Reading hundredths where the step is smaller than a hundredth. -/
theorem hundredths_of_fine_step {n : Nat}
    (hstep : 100 * 2 ^ fittingScale (n * oneUnits) 100 < oneUnits)
    (hy : y.magnitude = roundHalfEven (n * oneUnits) (100 * 2 ^ fittingScale (n * oneUnits) 100) *
      2 ^ fittingScale (n * oneUnits) 100) : y.hundredths = n := by
  obtain ⟨hnear, hnear'⟩ := @roundHalfEven_near (n * oneUnits)
    (100 * 2 ^ fittingScale (n * oneUnits) 100) (by positivity)
  have hmagnitude : y.magnitude * 100 =
      roundHalfEven (n * oneUnits) (100 * 2 ^ fittingScale (n * oneUnits) 100) *
        (100 * 2 ^ fittingScale (n * oneUnits) 100) := by
    rw [hy]
    ring
  apply roundHalfEven_eq_of_near
  · linarith
  · linarith

/-- A number below the integers at which the step grows whose hundredths have reached them: its
hundredths are the first of these integers. -/
theorem exists_hundredths_eq_of_lt {scale : Nat} (hstep : oneUnits < 100 * 2 ^ scale)
    (hlow : 2 ^ 52 * (100 * 2 ^ scale) ≤ x.hundredths * oneUnits)
    (hlt : x.magnitude < 2 ^ 52 * 2 ^ scale) :
    ∃ c, 2 ^ 52 * 2 ^ scale = c * oneUnits ∧ x.hundredths = c * 100 := by
  have hscale : unitBits ≤ 52 + scale := by
    have hpow : oneUnits < 2 ^ (7 + scale) := by
      rw [Nat.pow_add]
      linarith
    rw [oneUnits, Nat.pow_lt_pow_iff_right (by decide)] at hpow
    omega
  have hinteger : 2 ^ 52 * 2 ^ scale = 2 ^ (52 + scale - unitBits) * oneUnits := by
    rw [oneUnits, ← Nat.pow_add, ← Nat.pow_add, Nat.sub_add_cancel hscale]
  refine ⟨2 ^ (52 + scale - unitBits), hinteger, ?_⟩
  generalize 2 ^ (52 + scale - unitBits) = c at hinteger
  apply le_antisymm
  · have hmono : x.hundredths ≤ roundHalfEven (c * 100 * oneUnits) oneUnits := by
      apply roundHalfEven_mono
      linarith
    rwa [roundHalfEven_mul_right _ oneUnits_pos] at hmono
  · refine Nat.le_of_mul_le_mul_right ?_ oneUnits_pos
    linarith

/-! ### Every number

An integral number is written without places and read back as itself. Any other is below `2 ^ 53`,
where the scale is far from its bound, so that reading gives a number at all. -/

/-- Reading hundredths where the step is larger than a hundredth. -/
theorem hundredths_of_coarse_step
    (hstep : oneUnits < 100 * 2 ^ fittingScale (x.hundredths * oneUnits) 100)
    (hy : y.magnitude = roundHalfEven (x.hundredths * oneUnits)
      (100 * 2 ^ fittingScale (x.hundredths * oneUnits) 100) *
        2 ^ fittingScale (x.hundredths * oneUnits) 100) : y.hundredths = x.hundredths := by
  generalize hs : fittingScale (x.hundredths * oneUnits) 100 = s at hstep hy
  have hpos : fittingScale (x.hundredths * oneUnits) 100 ≠ 0 := by
    rw [hs]
    rintro rfl
    have hlarge : 2 ^ 7 ≤ oneUnits := by
      rw [oneUnits]
      exact Nat.pow_le_pow_right (by decide) (by decide)
    omega
  have hlow := le_div_fittingScale hpos
  rw [hs, Nat.le_div_iff_mul_le (by positivity)] at hlow
  rcases le_or_gt (2 ^ 52 * 2 ^ s) x.magnitude with hle | hlt
  · -- The number counts steps of this size, and its hundredths are within half a step.
    obtain ⟨k, hk⟩ := exists_magnitude_eq_mul hle
    obtain ⟨hnear, hnear'⟩ := x.hundredths_near
    have hk' : k * (100 * 2 ^ s) = x.magnitude * 100 := by
      rw [hk]
      ring
    have hround : roundHalfEven (x.hundredths * oneUnits) (100 * 2 ^ s) = k := by
      apply roundHalfEven_eq_of_near
      · linarith
      · linarith
    apply hundredths_congr
    rw [hy, hround, hk]
  · -- The hundredths are an integer that is read exactly.
    obtain ⟨c, hinteger, heq⟩ := exists_hundredths_eq_of_lt hstep hlow hlt
    have hround : roundHalfEven (x.hundredths * oneUnits) (100 * 2 ^ s) = 2 ^ 52 := by
      have hnum : x.hundredths * oneUnits = 2 ^ 52 * (100 * 2 ^ s) := by
        rw [heq]
        linarith
      rw [hnum, roundHalfEven_mul_right _ (by positivity)]
    rw [hundredths, hy, hround, hinteger, Nat.mul_right_comm,
      roundHalfEven_mul_right _ oneUnits_pos, heq]

/-- The short numeral of an integral number reads as the number without its sign. -/
theorem toBinary64_shortNumeral_of_mod_eq_zero (h : x.magnitude % oneUnits = 0) :
    x.shortNumeral.decimal.toBinary64 = .finite { x with negative := false } := by
  apply Decimal.toBinary64_of_value_eq
  have hsplit := Nat.div_add_mod x.magnitude oneUnits
  rw [h, Nat.add_zero] at hsplit
  rw [shortNumeral, Numeral.value_ofHundredths, hundredths_of_mod_eq_zero h]
  push_cast
  rw [mul_div_cancel_right₀ _ (by norm_num), mul_comm]
  exact_mod_cast hsplit

/-- **The short numeral of a number reads as a number with the same hundredths.** -/
theorem exists_toBinary64_shortNumeral (x : Number) :
    ∃ y : Number, x.shortNumeral.decimal.toBinary64 = .finite y ∧ y.negative = false ∧
      y.hundredths = x.hundredths := by
  by_cases hwhole : x.magnitude % oneUnits = 0
  · exact ⟨{ x with negative := false }, toBinary64_shortNumeral_of_mod_eq_zero hwhole, rfl, rfl⟩
  · have hlt : x.magnitude < 2 ^ 53 * oneUnits := by
      by_contra h
      exact hwhole (mod_eq_zero_of_le_magnitude (not_lt.mp h))
    have hscale := fittingScale_hundredths_le hlt
    obtain ⟨y, hy⟩ := Option.isSome_iff_exists.mp
      (isSome_round? (x.hundredths * oneUnits) 100 false (by omega))
    refine ⟨y, ?_, negative_of_round? hy, ?_⟩
    · rw [shortNumeral, Numeral.toBinary64_ofHundredths]
      exact Binary64.round_eq_finite.mpr hy
    · have hmagnitude := magnitude_of_round? hy
      rcases (hundred_mul_two_pow_ne
        (fittingScale (x.hundredths * oneUnits) 100)).lt_or_gt with hstep | hstep
      · exact hundredths_of_fine_step hstep hmagnitude
      · exact hundredths_of_coarse_step hstep hmagnitude

end Number

end SchoolAlgebra
