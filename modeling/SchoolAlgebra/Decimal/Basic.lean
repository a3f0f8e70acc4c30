import SchoolAlgebra.Binary64.Round

/-!
# Decimal numerals

A `Decimal` is an exact decimal number, digits and a power of ten. It is what a numeral denotes
before the number nearest to it is taken, and what a number is turned into before it is written.

`Decimal.ofNumeral` reads a numeral of the expression language: digits, optionally a point and more
digits, or a point and digits.
-/

namespace SchoolAlgebra

/-- The number `digits * 10 ^ exponent`. -/
structure Decimal where
  /-- All digits, as one natural number. -/
  digits : Nat
  /-- The power of ten that the last digit counts. -/
  exponent : Int
  deriving DecidableEq

namespace Decimal

/-- The value of a decimal digit. -/
def digitValue (c : Char) : Nat := c.toNat - '0'.toNat

/-- The number that a run of digits denotes, the first digit weighing most. -/
def ofDigits (digits : List Char) : Nat := digits.foldl (fun n c => 10 * n + digitValue c) 0

/-- The digits of a natural number, without leading zeros. -/
def digitsOf (n : Nat) : List Char := Nat.toDigits 10 n

/-- The decimal that a numeral denotes: what follows the point scales the digits down. -/
def ofNumeral (numeral : List Char) : Decimal :=
  let whole := numeral.takeWhile Char.isDigit
  let fraction := (numeral.dropWhile Char.isDigit).drop 1
  ⟨ofDigits (whole ++ fraction), -(fraction.length : Int)⟩

/-- The value in units, as a numerator and a denominator. -/
def toUnits (d : Decimal) : Nat × Nat :=
  match d.exponent with
  | .ofNat e => (d.digits * 10 ^ e * oneUnits, 1)
  | .negSucc e => (d.digits * oneUnits, 10 ^ (e + 1))

/-- The number nearest to a decimal: an infinity if it is too large. -/
def toBinary64 (d : Decimal) : Binary64 :=
  Binary64.round false d.toUnits.1 d.toUnits.2

end Decimal

end SchoolAlgebra
