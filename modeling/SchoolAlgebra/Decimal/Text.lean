import SchoolAlgebra.Decimal.Shortest

/-!
# The text of a number

A number is written in one of three ways.

* `Number.fullText` has the fewest digits that read back, and always a point or an exponent.
* `Binary64.exactText` is the integer in full if the value is one, and the full text otherwise.
* `Binary64.shortText` is the integer in full if the value is one, and otherwise rounded to two
  places, trailing zeros dropped.

The last two agree on the infinities, for which the expression language has no numeral.
-/

namespace SchoolAlgebra

/-- The choices left open by the digits of a number: where positional writing ends, and how an
exponent looks. -/
structure NumberLayout where
  /-- The least exponent of a leading digit that is written positionally. -/
  leastPositional : Int
  /-- The least exponent of a leading digit that is too large to be written positionally. -/
  positionalBound : Int
  /-- What follows the digits of a whole number. -/
  wholeMark : String
  /-- The least count of digits in an exponent. -/
  exponentWidth : Nat

/-- Numbers are written positionally from one ten-thousandth to below ten to the sixteenth; outside,
the exponent has a sign and at least two digits. -/
def numberLayout : NumberLayout := ⟨-4, 16, ".0", 2⟩

namespace Decimal

/-- A run of zeros. -/
def zeros (count : Nat) : List Char := List.replicate count '0'

/-- Digits filled up with leading zeros. -/
def padLeft (width : Nat) (digits : List Char) : List Char :=
  zeros (width - digits.length) ++ digits

/-- Digits without the zeros at their end. -/
def dropTrailingZeros (digits : List Char) : List Char :=
  (digits.reverse.dropWhile (· == '0')).reverse

/-- The exponent part: a mark, a sign and the digits. -/
def exponentText (layout : NumberLayout) (exponent : Int) : List Char :=
  'e' :: (if exponent < 0 then '-' else '+') ::
    padLeft layout.exponentWidth (digitsOf exponent.natAbs)

/-- Significant digits written with a point at the given place, counted from the first digit. -/
def positionalText (layout : NumberLayout) (digits : List Char) (point : Int) : List Char :=
  if point ≤ 0 then
    '0' :: '.' :: zeros (-point).toNat ++ digits
  else if (digits.length : Int) ≤ point then
    digits ++ zeros (point.toNat - digits.length) ++ layout.wholeMark.toList
  else
    digits.take point.toNat ++ '.' :: digits.drop point.toNat

/-- Significant digits written with a point after the first one, and an exponent. -/
def scientificText (layout : NumberLayout) (digits : List Char) (exponent : Int) : List Char :=
  digits.take 1 ++ (if digits.length ≤ 1 then [] else '.' :: digits.drop 1) ++
    exponentText layout exponent

/-- The text of a decimal other than zero. -/
def toText (layout : NumberLayout) (d : Decimal) : List Char :=
  let digits := digitsOf d.digits
  let point := digits.length + d.exponent
  let significant := dropTrailingZeros digits
  if layout.leastPositional < point ∧ point ≤ layout.positionalBound then
    positionalText layout significant point
  else
    scientificText layout significant (point - 1)

end Decimal

namespace Number

/-- The text of the sign. -/
def signText (x : Number) : List Char := if x.negative then ['-'] else []

/-- The fewest digits that read back, with a point or an exponent. -/
def fullText (x : Number) : String :=
  let digits :=
    if x.isZero then '0' :: numberLayout.wholeMark.toList
    else x.shortestDecimal.toText numberLayout
  String.ofList (x.signText ++ digits)

/-- The value rounded to two places, a tie to the even hundredth, without trailing zeros. -/
def hundredthsText (x : Number) : String :=
  let hundredths := roundHalfEven (x.magnitude * 100) oneUnits
  let whole := Decimal.digitsOf (hundredths / 100)
  let places :=
    Decimal.dropTrailingZeros (Decimal.padLeft 2 (Decimal.digitsOf (hundredths % 100)))
  String.ofList (x.signText ++ whole ++ (if places.isEmpty then [] else '.' :: places))

end Number

namespace Binary64

/-- The text of an infinity. -/
def infinityText (negative : Bool) : String := if negative then "-inf" else "inf"

/-- An integer in full, any other number by the fewest digits that read back. -/
def exactText : Binary64 → String
  | .infinite negative => infinityText negative
  | .finite x =>
    match x.toInt? with
    | some n => toString n
    | none => x.fullText

/-- An integer in full, any other number to two places. -/
def shortText : Binary64 → String
  | .infinite negative => infinityText negative
  | .finite x =>
    match x.toInt? with
    | some n => toString n
    | none => x.hundredthsText

end Binary64

end SchoolAlgebra
