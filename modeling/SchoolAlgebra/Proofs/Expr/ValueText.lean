import Mathlib
import SchoolAlgebra.Expr.Source
import SchoolAlgebra.Proofs.Binary64.SameValue
import SchoolAlgebra.Proofs.Decimal.Hundredths
import SchoolAlgebra.Proofs.Expr.Derivation
import SchoolAlgebra.Proofs.Expr.Exact

/-!
# The text of a value is read again

A number has no expression of its own below zero: the text `-5` is five with its sign changed. So a
printed value is read as a numeral, possibly under a sign, and this says what that is worth.

A source that has a value simplifies to it, and the value is printed to two places. What is read of
that text has the same hundredths. Each of the two numbers is at most half a hundredth away from
them, so they are at most one hundredth apart, however large the steps between numbers are there.

## Only the hundredths are kept

A value is not read back from its text, for other values have the same text. What the two have in
common are the hundredths, and two numbers with the same hundredths lie in one interval of length
one hundredth. This holds for integral values as well, but these are printed in full and come back
as they are.

## Main results

* `Expr.valueOfSource?_of_scansAs` — the value of a numeral after a sign
* `Number.abs_toReal_sub_le` — numbers with the same hundredths are at most one hundredth apart
* `Expr.exists_valueOfSource?_simplifySource` — a simplified constant keeps its value to two places
-/

namespace SchoolAlgebra

attribute [local irreducible] oneUnits

open Phrase

/-! ### Numerals with a sign

A numeral after a sign has a derivation of at most two nodes. It is worth the number that the
numeral is read as, with the sign put back. -/

namespace Number

/-- A magnitude with the sign of a number below zero. -/
def signedAs (y x : Number) : Number := if x.isBelowZero then y.neg else y

/-- A magnitude gets its sign back. -/
theorem sameValue_signedAs (x : Number) :
    (({ x with negative := false } : Number).signedAs x).SameValue x := by
  cases hzero : x.isZero with
  | true =>
    have hbelow : x.isBelowZero = false := by simp [isBelowZero, hzero]
    rw [signedAs, hbelow]
    exact .of_isZero hzero hzero
  | false =>
    have hbelow : x.isBelowZero = x.negative := by simp [isBelowZero, hzero]
    obtain ⟨negative, mantissa, scale, canonical⟩ := x
    rw [signedAs, hbelow]
    cases negative <;> exact .refl _

end Number

namespace Expr

variable {source : String} {e : Expr} {x y : Number} {n : Numeral}

/-- The value of an expression does not depend on its spans. -/
theorem value?_bare (e : Expr) : e.bare.value? = e.value? := by
  induction e with
  | num v s => rfl
  | var name coefficient s => rw [bare, value?_var, value?_var]
  | neg e s ih => rw [bare, value?_neg, value?_neg, ih]
  | power base exponent s ih => rw [bare, value?_power, value?_power, ih]
  | binary op left right s ihl ihr => rw [bare, value?_binary, value?_binary, ihl, ihr]

theorem valueOfSource?_eq_some_iff {v : Number} :
    valueOfSource? source = some v ↔ ∃ e, parse source = .ok e ∧ e.value? = some v := by
  rw [valueOfSource?, Option.bind_eq_some_iff]
  simp only [parse?_eq_some_iff]

/-- The derivation of a numeral after the sign of a number. -/
def signedNumeral (x : Number) (n : Numeral) : Printed :=
  .signed x.isBelowZero (.number (String.ofList n.text) n.decimal.toBinary64)

/-- A numeral after a sign is worth what it is read as, with the sign. -/
theorem valueOfSource?_of_scansAs
    (hscans : ScansAs source.toList (signLexemes x.isBelowZero ++ [n.lexeme]))
    (hread : n.decimal.toBinary64 = .finite y) :
    valueOfSource? source = some (y.signedAs x) := by
  have hscan : Lexeme.scan source.toList =
      (signedNumeral x n).asSum.lexemes ++ [.finish] := by
    rw [signedNumeral, Printed.lexemes_signed]
    exact hscans.scan_eq
  have hclosed : (signedNumeral x n).Closed := Printed.closed_signed _ trivial
  obtain ⟨e, he, htree⟩ := Sum.exists_parse hscan (hclosed .finish)
  refine valueOfSource?_eq_some_iff.mpr ⟨e, he, ?_⟩
  rw [← value?_bare, htree, signedNumeral, Printed.tree_signed, hread, Number.signedAs]
  split <;> rfl

end Expr

/-! ### Two places

Each magnitude is at most half a hundredth away from its hundredths. The two numbers have the same
sign, that of the one that was printed, so they are as far apart as their magnitudes are. -/

namespace Number

variable {x y : Number}

theorem units_eq (x : Number) :
    x.units = if x.isBelowZero then -(x.magnitude : Int) else x.magnitude := by
  by_cases hzero : x.magnitude = 0
  · rw [units, isBelowZero_of_magnitude_eq_zero hzero, hzero]
    split <;> rfl
  · rw [units, isBelowZero_of_magnitude_ne_zero hzero]

/-- The real value is the magnitude with the sign of a number below zero. -/
theorem toReal_eq (x : Number) :
    x.toReal = (if x.isBelowZero then -1 else 1) * (x.magnitude / oneUnits) := by
  rw [toReal, units_eq]
  split
  · push_cast
    ring
  · push_cast
    ring

theorem toReal_signedAs (hy : y.negative = false) (x : Number) :
    (y.signedAs x).toReal = (if x.isBelowZero then -1 else 1) * (y.magnitude / oneUnits) := by
  have hunits : y.units = y.magnitude := by rw [units, hy, if_neg Bool.false_ne_true]
  rw [signedAs]
  split
  · rw [toReal, units_neg, hunits]
    push_cast
    ring
  · rw [toReal, hunits]
    push_cast
    ring

/-- The magnitude is at most half a hundredth away from the hundredths. -/
theorem abs_magnitude_sub_hundredths_le (x : Number) :
    |(x.magnitude : ℝ) / oneUnits - x.hundredths / 100| ≤ 1 / 200 := by
  obtain ⟨hupper, hlower⟩ := x.hundredths_near
  have hupper' : 2 * ((x.magnitude : ℝ) * 100) ≤ (2 * x.hundredths + 1) * oneUnits := by
    exact_mod_cast hupper
  have hlower' : 2 * (x.hundredths : ℝ) * oneUnits ≤ 2 * (x.magnitude * 100) + oneUnits := by
    exact_mod_cast hlower
  have hle : (x.magnitude : ℝ) / oneUnits ≤ (2 * x.hundredths + 1) / 200 := by
    rw [div_le_div_iff₀ cast_oneUnits_pos (by norm_num)]
    linarith
  have hge : (2 * (x.hundredths : ℝ) - 1) / 200 ≤ x.magnitude / oneUnits := by
    rw [div_le_div_iff₀ (by norm_num) cast_oneUnits_pos]
    linarith
  rw [abs_le]
  constructor <;> linarith

/-- **Numbers with the same hundredths are at most one hundredth apart.** -/
theorem abs_toReal_sub_le (hsame : y.hundredths = x.hundredths) (hy : y.negative = false) :
    |(y.signedAs x).toReal - x.toReal| ≤ 1 / 100 := by
  have hx := abs_le.mp x.abs_magnitude_sub_hundredths_le
  have hy' := abs_le.mp y.abs_magnitude_sub_hundredths_le
  rw [hsame] at hy'
  rw [toReal_signedAs hy, toReal_eq, ← mul_sub, abs_mul]
  have hsign : |(if x.isBelowZero then -1 else 1 : ℝ)| = 1 := by split <;> simp
  rw [hsign, one_mul, abs_le]
  constructor <;> linarith

end Number

namespace Expr

/-- The text of a value, as it is printed in a simplified expression. -/
theorem simplifySource_eq {source : String} {v : Number} (h : valueOfSource? source = some v) :
    simplifySource source = (Binary64.finite v).shortText := by
  obtain ⟨e, he, hv⟩ := valueOfSource?_eq_some_iff.mp h
  rw [simplifySource, parse?_eq_some_iff.mpr he]
  simp only [simplify_of_value?_eq_some hv]
  rfl

/-- **A simplified constant keeps its value to two places.** If a source has a value, the simplified
source has one too. It is the same, but for the sign of a zero, if the value is integral, and at
most one hundredth away otherwise. -/
theorem exists_valueOfSource?_simplifySource (source : String) (v : Number)
    (h : valueOfSource? source = some v) :
    ∃ w, valueOfSource? (simplifySource source) = some w ∧
      (v.toInt?.isSome = true → w.SameValue v) ∧ |w.toReal - v.toReal| ≤ 1 / 100 := by
  obtain ⟨y, hread, hsign, hsame⟩ := v.exists_toBinary64_shortNumeral
  have hscans := scansAs_shortText_finite v
  rw [simplifySource_eq h]
  refine ⟨y.signedAs v, valueOfSource?_of_scansAs hscans hread, fun hwhole => ?_,
    Number.abs_toReal_sub_le hsame hsign⟩
  rw [Number.toInt?_isSome_iff] at hwhole
  obtain rfl : y = { v with negative := false } :=
    Binary64.finite.inj (hread.symm.trans (Number.toBinary64_shortNumeral_of_mod_eq_zero hwhole))
  exact v.sameValue_signedAs

/-- Two thirds below zero, as they come out of `1/3-1`. -/
def negativeTwoThirds : Number := ⟨true, 6004799503160662, 1021, by decide⟩

/-- Two thirds below zero are printed as `-0.67`, which reads as a number close by. -/
theorem exists_valueOfSource?_simplifySource_negativeTwoThirds :
    valueOfSource? "1/3-1" = some negativeTwoThirds ∧ simplifySource "1/3-1" = "-0.67" ∧
      ∃ w, valueOfSource? "-0.67" = some w ∧ |w.toReal - negativeTwoThirds.toReal| ≤ 1 / 100 := by
  have hvalue : valueOfSource? "1/3-1" = some negativeTwoThirds := by decide +kernel
  have htext : simplifySource "1/3-1" = "-0.67" := by decide +kernel
  obtain ⟨w, hw, -, hnear⟩ := exists_valueOfSource?_simplifySource "1/3-1" _ hvalue
  exact ⟨hvalue, htext, w, htext ▸ hw, hnear⟩

end Expr

end SchoolAlgebra
