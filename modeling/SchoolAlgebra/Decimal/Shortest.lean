import SchoolAlgebra.Decimal.Basic

/-!
# The shortest decimal of a number

`Number.shortestDecimal` is a decimal with the fewest significant digits among those that read back
as the magnitude of a number, and of these the nearest to it.

## Implementation notes

The decimals with a given count of significant digits form a grid around the number. If any point
of the grid reads back, one of the number's two neighbours on the grid does, so only these two are
tried, the nearer one first. Seventeen digits always suffice; the exact expansion of the number is
there so that reading back holds without that theorem.
-/

namespace SchoolAlgebra

namespace Decimal

/-- The number of digits before the point of `num / den`, or minus the number of zeros between the
point and the first digit: the least `p` for which the quotient is below `10 ^ p`. -/
def pointOf (num den : Nat) : Int :=
  if den ≤ num then (digitsOf (num / den)).length
  else 1 - ((digitsOf ((den - 1) / num)).length : Int)

/-- The quotient `num / den` counted in steps of `10 ^ exponent`. -/
def inSteps (num den : Nat) : Int → Nat × Nat
  | .ofNat e => (num, den * 10 ^ e)
  | .negSucc e => (num * 10 ^ (e + 1), den)

end Decimal

namespace Number

/-- Whether a decimal reads as the number without its sign. -/
def isReadFrom (x : Number) (d : Decimal) : Bool :=
  d.toBinary64 = .finite { x with negative := false }

/-- The decimal with the given count of significant digits that reads back as the number, if there
is one: the nearest of its grid, else the neighbour on the other side. -/
def decimalWithDigits? (x : Number) (count : Nat) : Option Decimal :=
  let step := Decimal.pointOf x.magnitude oneUnits - count
  let (num, den) := Decimal.inSteps x.magnitude oneUnits step
  [roundHalfEven num den, num / den, num / den + 1].map (Decimal.mk · step) |>.find? x.isReadFrom

/-- The exact decimal expansion of the magnitude. -/
def exactDecimal (x : Number) : Decimal := ⟨x.magnitude * 5 ^ unitBits, -(unitBits : Int)⟩

/-- The most digits that a number needs in order to be told from all others. -/
def sufficientDigits : Nat := 17

/-- A decimal with the fewest digits that reads back as the magnitude of the number. -/
def shortestDecimal (x : Number) : Decimal :=
  ((List.range sufficientDigits).findSome? fun n => x.decimalWithDigits? (n + 1)).getD
    x.exactDecimal

end Number

end SchoolAlgebra
