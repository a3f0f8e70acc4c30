import Mathlib
import SchoolAlgebra.Proofs.Decimal.Numeral

/-!
# What is printed for a number

The short text of a number is a numeral, after a minus sign if the number is below zero. So is the
exact text, unless the number is so small that it is written with an exponent part. The numeral of
an exact text reads back as the number.

## Implementation notes

Where the exponent part begins is decided by the shortest decimal, not by the number. The two
agree: the shortest decimal of the number nearest to one ten-thousandth is one ten-thousandth, and
reading keeps the order everywhere else.

## Main definitions

* `Number.shortNumeral`, `Number.exactNumeral` — the numerals of the two texts
* `Binary64.Plain` — the number is finite and its exact text has no exponent part

## Main results

* `Number.toList_shortText` — the short text of a finite number
* `Number.toList_exactText` — the exact text of a plain number
* `Number.toBinary64_exactNumeral` — the exact numeral reads back as the number
* `Number.toList_exactText_of_tiny` — the exact text of any other finite number
-/

namespace SchoolAlgebra

attribute [local irreducible] oneUnits

namespace Number

variable {x : Number}

/-! ### Integral numbers

Whether a number is integral, zero or below zero is said of its magnitude and its sign. From `2 ^
53` on every number is integral, so all others have a magnitude below that bound. -/

/-- The minus sign of a number below zero. -/
def minusText (x : Number) : List Char := if x.isBelowZero then ['-'] else []

theorem isZero_iff_magnitude (x : Number) : x.isZero = true ↔ x.magnitude = 0 := by
  simp [isZero, magnitude]

theorem isBelowZero_of_magnitude_ne_zero (h : x.magnitude ≠ 0) :
    x.isBelowZero = x.negative := by
  have hzero : x.isZero = false := by
    rw [← Bool.not_eq_true, isZero_iff_magnitude]
    exact h
  simp [isBelowZero, hzero]

theorem isBelowZero_of_magnitude_eq_zero (h : x.magnitude = 0) : x.isBelowZero = false := by
  simp [isBelowZero, (isZero_iff_magnitude x).mpr h]

theorem toInt?_isSome_iff (x : Number) :
    x.toInt?.isSome = true ↔ x.magnitude % oneUnits = 0 := by
  rw [toInt?]
  split <;> simp [*]

theorem toInt?_eq_none_iff (x : Number) : x.toInt? = none ↔ x.magnitude % oneUnits ≠ 0 := by
  rw [toInt?]
  split <;> simp [*]

theorem toInt?_of_mod_eq_zero (h : x.magnitude % oneUnits = 0) :
    x.toInt? = some (if x.negative then -((x.magnitude / oneUnits : Nat) : Int)
      else (x.magnitude / oneUnits : Nat)) := by
  rw [toInt?, if_pos h]

/-- A number from `2 ^ 53` on is integral. -/
theorem mod_eq_zero_of_le_magnitude (h : 2 ^ 53 * oneUnits ≤ x.magnitude) :
    x.magnitude % oneUnits = 0 := by
  have hscale : unitBits ≤ x.scale := by
    by_contra hlt
    have hpow : 2 ^ x.scale ≤ oneUnits := by
      rw [oneUnits]
      exact Nat.pow_le_pow_right (by decide) (by omega)
    have hmantissa : x.mantissa * oneUnits < 2 ^ 53 * oneUnits :=
      Nat.mul_lt_mul_of_pos_right x.canonical.1 oneUnits_pos
    exact absurd (h.trans (Nat.mul_le_mul_left x.mantissa hpow)) (not_le.mpr hmantissa)
  refine Nat.mod_eq_zero_of_dvd (Dvd.dvd.mul_left ?_ x.mantissa)
  rw [oneUnits]
  exact Nat.pow_dvd_pow 2 hscale

/-- An integer is written as its digits, after a minus sign if it is below zero. -/
theorem toList_toString_toInt (h : x.magnitude % oneUnits = 0) {n : Int} (hn : x.toInt? = some n) :
    (toString n).toList = x.minusText ++ Decimal.digitsOf (x.magnitude / oneUnits) := by
  rw [toInt?_of_mod_eq_zero h] at hn
  have hmagnitude := Nat.div_add_mod x.magnitude oneUnits
  obtain rfl := Option.some.inj hn
  generalize hwhole : x.magnitude / oneUnits = whole at *
  rw [Int.toString_eq_repr, Int.repr_eq_if, minusText]
  by_cases hzero : whole = 0
  · have hbelow : x.isBelowZero = false := by
      apply isBelowZero_of_magnitude_eq_zero
      rw [← hmagnitude, hzero, h, Nat.mul_zero]
    rw [hzero, hbelow]
    simp [Decimal.digitsOf]
  · have hbelow : x.isBelowZero = x.negative := by
      apply isBelowZero_of_magnitude_ne_zero
      rw [← hmagnitude, h, Nat.add_zero]
      exact Nat.mul_ne_zero oneUnits_pos.ne' hzero
    rw [hbelow]
    cases x.negative with
    | false => simp [Decimal.digitsOf]
    | true => simp [Decimal.digitsOf, hzero]

/-! ### The short text -/

/-- The number of hundredths nearest to the magnitude. -/
def hundredths (x : Number) : Nat := roundHalfEven (x.magnitude * 100) oneUnits

/-- The numeral of the short text. -/
def shortNumeral (x : Number) : Numeral := .ofHundredths x.hundredths

/-- A whole number of hundredths is written without places. -/
theorem text_ofHundredths_mul (n : Nat) :
    (Numeral.ofHundredths (n * 100)).text = Decimal.digitsOf n := by
  have hfraction : (Numeral.ofHundredths (n * 100)).fraction = [] := by
    rw [Numeral.ofHundredths]
    simp only [Nat.mul_mod_left]
    decide
  rw [Numeral.text_of_fraction_eq_nil hfraction, Numeral.ofHundredths]
  simp

theorem hundredths_of_mod_eq_zero (h : x.magnitude % oneUnits = 0) :
    x.hundredths = x.magnitude / oneUnits * 100 := by
  have hmagnitude : x.magnitude * 100 = x.magnitude / oneUnits * 100 * oneUnits := by
    have hsplit := Nat.div_add_mod x.magnitude oneUnits
    rw [h, Nat.add_zero] at hsplit
    rw [Nat.mul_right_comm, Nat.mul_comm _ oneUnits, hsplit]
  rw [hundredths, hmagnitude, roundHalfEven_mul_right _ oneUnits_pos]

/-- The short text is a numeral, after a minus sign if the number is below zero. -/
theorem toList_shortText (x : Number) :
    (Binary64.finite x).shortText.toList = x.minusText ++ x.shortNumeral.text := by
  rw [Binary64.shortText]
  by_cases h : x.magnitude % oneUnits = 0
  · obtain ⟨n, hn⟩ := Option.isSome_iff_exists.mp ((toInt?_isSome_iff x).mpr h)
    simp only [hn]
    rw [toList_toString_toInt h hn, shortNumeral, hundredths_of_mod_eq_zero h,
      text_ofHundredths_mul]
  · have hne : x.magnitude ≠ 0 := by
      intro hzero
      simp [hzero] at h
    simp only [(toInt?_eq_none_iff x).mpr h]
    rw [hundredthsText, minusText, isBelowZero_of_magnitude_ne_zero hne, signText]
    simp only [shortNumeral, Numeral.text, Numeral.ofHundredths, hundredths, String.toList_ofList,
      List.append_assoc]
    rfl

/-! ### The least number without an exponent part

The two bounds, one ten-thousandth and ten to the sixteenth, are not both numbers. Each is compared
through the number that it reads as: reading is monotone, so a decimal lies on one side of the bound
if the number does. -/

/-- The number nearest to one ten-thousandth; it is a little larger. -/
def tenThousandth : Number := ⟨false, 7378697629483821, 1008, by decide⟩

/-- One ten-thousandth as a decimal. -/
def tenThousandthDecimal : Decimal := ⟨1, -4⟩

theorem toBinary64_tenThousandthDecimal :
    tenThousandthDecimal.toBinary64 = .finite tenThousandth := by decide +kernel

theorem shortestDecimal_tenThousandth :
    tenThousandth.shortestDecimal = tenThousandthDecimal := by decide +kernel

theorem oneUnits_le_tenThousandth : oneUnits ≤ 10 ^ 4 * tenThousandth.magnitude := by
  decide +kernel

theorem value_tenThousandthDecimal : tenThousandthDecimal.value = 10 ^ (-4 : Int) := by
  simp [tenThousandthDecimal, Decimal.value]

theorem value_le_exactDecimal_iff (x : Number) :
    tenThousandthDecimal.value ≤ x.exactDecimal.value ↔ oneUnits ≤ 10 ^ 4 * x.magnitude := by
  have hpos : (0 : ℚ) < oneUnits := by exact_mod_cast oneUnits_pos
  have hvalue : x.exactDecimal.value = x.magnitude / oneUnits := by
    rw [eq_div_iff hpos.ne', value_exactDecimal]
  have hcast : (oneUnits : ℚ) ≤ 10 ^ 4 * x.magnitude ↔ oneUnits ≤ 10 ^ 4 * x.magnitude := by
    exact_mod_cast Iff.rfl
  have hten : (10 : ℚ) ^ (-4 : Int) = 1 / 10 ^ 4 := by norm_num
  rw [value_tenThousandthDecimal, hvalue, ← hcast, hten,
    div_le_div_iff₀ (by norm_num) hpos, one_mul, mul_comm (x.magnitude : ℚ)]

/-- The shortest decimal is at least one ten-thousandth exactly if the number is. -/
theorem value_le_shortestDecimal_iff (x : Number) :
    10 ^ (-4 : Int) ≤ x.shortestDecimal.value ↔ oneUnits ≤ 10 ^ 4 * x.magnitude := by
  rw [← value_tenThousandthDecimal]
  constructor
  · intro h
    have hle := Decimal.magnitude_le_of_value_le h toBinary64_tenThousandthDecimal
      x.toBinary64_shortestDecimal
    exact oneUnits_le_tenThousandth.trans (Nat.mul_le_mul_left _ hle)
  · intro h
    have hge := Decimal.magnitude_le_of_value_le ((value_le_exactDecimal_iff x).mpr h)
      toBinary64_tenThousandthDecimal x.toBinary64_exactDecimal
    by_contra hlt
    have hle := Decimal.magnitude_le_of_value_le (not_le.mp hlt).le x.toBinary64_shortestDecimal
      toBinary64_tenThousandthDecimal
    -- The number is the one nearest to a ten-thousandth, whose shortest decimal is known.
    have heq : ({ x with negative := false } : Number) = tenThousandth :=
      ext_magnitude rfl (le_antisymm hle hge)
    rw [← shortestDecimal_unsigned, heq, shortestDecimal_tenThousandth] at hlt
    exact hlt le_rfl

/-- Ten to the sixteenth as a decimal. -/
def tenToSixteenDecimal : Decimal := ⟨1, 16⟩

/-- Ten to the sixteenth as a number. -/
def tenToSixteen : Number := ⟨false, 5000000000000000, 1075, by decide⟩

theorem toBinary64_tenToSixteenDecimal :
    tenToSixteenDecimal.toBinary64 = .finite tenToSixteen := by decide +kernel

theorem le_tenToSixteen : 2 ^ 53 * oneUnits ≤ tenToSixteen.magnitude := by decide +kernel

/-- The shortest decimal of a number that is not integral is below ten to the sixteenth. -/
theorem shortestDecimal_value_lt (h : x.magnitude % oneUnits ≠ 0) :
    x.shortestDecimal.value < 10 ^ (16 : Int) := by
  have hvalue : tenToSixteenDecimal.value = 10 ^ (16 : Int) := by
    simp [tenToSixteenDecimal, Decimal.value]
  rw [← hvalue]
  by_contra hge
  have hle := Decimal.magnitude_le_of_value_le (not_lt.mp hge) toBinary64_tenToSixteenDecimal
    x.toBinary64_shortestDecimal
  exact h (mod_eq_zero_of_le_magnitude (x := x) (le_tenToSixteen.trans hle))

/-! ### The exact text

The digits of the shortest decimal, with a point among them or before them, are a numeral of the
same value, and the shortest decimal reads as the number. Below one ten-thousandth the digits are
followed by an exponent part with a minus sign, which no numeral has. -/

/-- The digits of the shortest decimal, without zeros at their end. -/
def significantDigits (x : Number) : List Char :=
  Decimal.dropTrailingZeros (Decimal.digitsOf x.shortestDecimal.digits)

theorem isDigit_of_mem_significantDigits {c : Char} (h : c ∈ x.significantDigits) :
    c.isDigit = true :=
  Decimal.isDigit_of_mem_digitsOf (Decimal.mem_of_mem_dropTrailingZeros h)

/-- The significant digits with the point where it stands have the value of the decimal. -/
theorem value_significantDigits (x : Number) :
    (Decimal.ofDigits x.significantDigits : ℚ) *
      10 ^ (x.shortestDecimal.point - x.significantDigits.length) = x.shortestDecimal.value := by
  obtain ⟨k, hk⟩ :=
    Decimal.exists_dropTrailingZeros_append (Decimal.digitsOf x.shortestDecimal.digits)
  have hdigits : x.shortestDecimal.digits = Decimal.ofDigits x.significantDigits * 10 ^ k := by
    have h := congrArg Decimal.ofDigits hk
    rw [Decimal.ofDigits_digitsOf, Decimal.ofDigits_append, Decimal.ofDigits_zeros,
      Decimal.length_zeros, Nat.add_zero, Nat.mul_comm] at h
    exact h
  have hpoint : x.shortestDecimal.point - x.significantDigits.length =
      k + x.shortestDecimal.exponent := by
    have h := congrArg List.length hk
    rw [List.length_append, Decimal.length_zeros] at h
    rw [Decimal.point, significantDigits, h]
    push_cast
    ring
  rw [hpoint, Decimal.value, zpow_add₀ (by norm_num), zpow_natCast]
  have hcast : (x.shortestDecimal.digits : ℚ) = Decimal.ofDigits x.significantDigits * 10 ^ k := by
    exact_mod_cast hdigits
  rw [hcast]
  ring

theorem significantDigits_ne_nil (h : x.magnitude ≠ 0) : x.significantDigits ≠ [] := by
  intro hnil
  have hvalue := x.value_significantDigits
  rw [hnil, Decimal.value] at hvalue
  have hdigits : (x.shortestDecimal.digits : ℚ) ≠ 0 := by
    exact_mod_cast digits_shortestDecimal_ne_zero h
  have hpow : (10 : ℚ) ^ x.shortestDecimal.exponent ≠ 0 := by positivity
  refine mul_ne_zero hdigits hpow ?_
  rw [← hvalue]
  simp [Decimal.ofDigits]

/-- The numeral of the exact text of a number that is written without an exponent part. -/
def exactNumeral (x : Number) : Numeral :=
  if x.magnitude % oneUnits = 0 then .ofNat (x.magnitude / oneUnits)
  else .positional x.significantDigits (fun _ => isDigit_of_mem_significantDigits)
    x.shortestDecimal.point

/-- The exact numeral reads back as the number. -/
theorem toBinary64_exactNumeral (x : Number) :
    x.exactNumeral.decimal.toBinary64 = .finite { x with negative := false } := by
  rw [exactNumeral]
  split
  · next h =>
    apply Decimal.toBinary64_of_value_eq
    have hsplit := Nat.div_add_mod x.magnitude oneUnits
    rw [h, Nat.add_zero] at hsplit
    rw [Numeral.value_ofNat, mul_comm]
    exact_mod_cast hsplit
  · rw [← toBinary64_shortestDecimal]
    apply Decimal.toBinary64_congr
    rw [Numeral.value_positional, value_significantDigits]

theorem fullText_of_magnitude_ne_zero (h : x.magnitude ≠ 0) :
    x.fullText.toList = x.minusText ++ x.shortestDecimal.toText numberLayout := by
  have hzero : x.isZero = false := by
    rw [← Bool.not_eq_true, isZero_iff_magnitude]
    exact h
  simp [fullText, hzero, minusText, isBelowZero_of_magnitude_ne_zero h, signText]

/-- The exact text of a number that is integral or not too small is a numeral, after a minus sign
if the number is below zero. -/
theorem toList_exactText (h : x.magnitude % oneUnits = 0 ∨ oneUnits ≤ 10 ^ 4 * x.magnitude) :
    (Binary64.finite x).exactText.toList = x.minusText ++ x.exactNumeral.text := by
  rw [Binary64.exactText, exactNumeral]
  by_cases hwhole : x.magnitude % oneUnits = 0
  · obtain ⟨n, hn⟩ := Option.isSome_iff_exists.mp ((toInt?_isSome_iff x).mpr hwhole)
    simp only [hn]
    rw [toList_toString_toInt hwhole hn, if_pos hwhole, Numeral.text_ofNat]
  · have hne : x.magnitude ≠ 0 := by
      intro hzero
      simp [hzero] at hwhole
    have hge : 10 ^ (-4 : Int) ≤ x.shortestDecimal.value :=
      (value_le_shortestDecimal_iff x).mpr (h.resolve_left hwhole)
    have hlower : -4 < x.shortestDecimal.point :=
      (zpow_lt_zpow_iff_right₀ (by norm_num)).mp (hge.trans_lt (Decimal.value_lt_zpow_point _))
    have hupper : x.shortestDecimal.point - 1 < 16 :=
      (zpow_lt_zpow_iff_right₀ (by norm_num)).mp
        ((Decimal.zpow_point_le_value (digits_shortestDecimal_ne_zero hne)).trans_lt
          (shortestDecimal_value_lt hwhole))
    have hlayout : numberLayout.leastPositional < x.shortestDecimal.point ∧
        x.shortestDecimal.point ≤ numberLayout.positionalBound := by
      simp only [numberLayout]
      omega
    simp only [(toInt?_eq_none_iff x).mpr hwhole]
    rw [fullText_of_magnitude_ne_zero hne, if_neg hwhole,
      Numeral.text_positional _ (significantDigits_ne_nil hne)]
    rw [Decimal.point] at hlayout ⊢
    simp only [Decimal.toText, if_pos hlayout, significantDigits]

/-- The exact text of any other finite number has an exponent part, and the exponent is negative. -/
theorem toList_exactText_of_tiny (hwhole : x.magnitude % oneUnits ≠ 0)
    (h : 10 ^ 4 * x.magnitude < oneUnits) :
    ∃ mantissa exponent : Numeral, (Binary64.finite x).exactText.toList =
      x.minusText ++ mantissa.text ++ 'e' :: '-' :: exponent.text := by
  have hne : x.magnitude ≠ 0 := by
    intro hzero
    simp [hzero] at hwhole
  have hlt : x.shortestDecimal.value < 10 ^ (-4 : Int) :=
    not_le.mp (mt (value_le_shortestDecimal_iff x).mp (not_le.mpr h))
  have hpoint : x.shortestDecimal.point - 1 < -4 :=
    (zpow_lt_zpow_iff_right₀ (by norm_num)).mp
      ((Decimal.zpow_point_le_value (digits_shortestDecimal_ne_zero hne)).trans_lt hlt)
  have hlayout : ¬ (numberLayout.leastPositional < x.shortestDecimal.point ∧
      x.shortestDecimal.point ≤ numberLayout.positionalBound) := by
    simp only [numberLayout]
    omega
  have hsignificant := significantDigits_ne_nil hne
  let exponentDigits := Decimal.padLeft 2 (Decimal.digitsOf (x.shortestDecimal.point - 1).natAbs)
  refine ⟨⟨x.significantDigits.take 1, x.significantDigits.drop 1, ?_, ?_, ?_⟩,
    ⟨exponentDigits, [], ?_, ?_, ?_⟩, ?_⟩
  · simpa using hsignificant
  · exact fun c hc => isDigit_of_mem_significantDigits (List.mem_of_mem_take hc)
  · exact fun c hc => isDigit_of_mem_significantDigits (List.mem_of_mem_drop hc)
  · simp [exponentDigits, Decimal.padLeft, Decimal.digitsOf_ne_nil]
  · exact fun c hc =>
      Decimal.isDigit_of_mem_padLeft (fun _ => Decimal.isDigit_of_mem_digitsOf) hc
  · simp
  · rw [Binary64.exactText]
    simp only [(toInt?_eq_none_iff x).mpr hwhole]
    rw [fullText_of_magnitude_ne_zero hne]
    have hnegative : x.shortestDecimal.point - 1 < 0 := by omega
    rw [Decimal.point] at hlayout hnegative
    simp only [Decimal.toText, if_neg hlayout, Decimal.scientificText, Decimal.exponentText,
      if_pos hnegative, Numeral.text, significantDigits, exponentDigits, Decimal.point,
      List.isEmpty_iff, List.drop_eq_nil_iff, List.append_assoc, List.append_nil, if_true]
    rfl

end Number

namespace Binary64

/-- A finite number that is integral or at least one ten-thousandth in magnitude: one whose exact
text has no exponent part. -/
def Plain : Binary64 → Prop
  | .finite x => x.magnitude % oneUnits = 0 ∨ oneUnits ≤ 10 ^ 4 * x.magnitude
  | .infinite _ => False

instance (x : Binary64) : Decidable x.Plain :=
  match x with
  | .finite _ => inferInstanceAs (Decidable (_ ∨ _))
  | .infinite _ => inferInstanceAs (Decidable False)

end Binary64

end SchoolAlgebra
