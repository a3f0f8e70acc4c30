import SchoolAlgebra.Binary64.Arithmetic
import SchoolAlgebra.Binary64.Bits

/-!
# Powers

`Number.pow?` raises a finite number to any binary64 exponent. It has no result where the power is
not a finite number: zero to a negative exponent, a negative base to a fractional one, overflow.

## Implementation notes

The cases that are limits or matters of sign are settled first: exponent zero, base zero, an
infinite exponent. A small integral power that is itself a number is computed exactly. What remains
is not representable, and is rounded by the machine's own power function.
-/

namespace SchoolAlgebra

namespace Number

/-- The base to an infinite exponent: one from a base of magnitude one, else zero or no result. -/
def limitPower? (x : Number) (negativeExponent : Bool) : Option Number :=
  if x.magnitude = oneUnits then some one
  else if decide (x.magnitude < oneUnits) != negativeExponent then some zero
  else none

/-- Zero to a finite exponent other than zero: a zero, with the base's sign if the exponent is odd,
and no result for a negative exponent. -/
def zeroPower? (x exponent : Number) : Option Number :=
  if exponent.negative then none
  else if exponent.isOdd then some x
  else some zero

/-- The largest integral exponent, in magnitude, that an exact power is computed for. -/
def largestExactExponent : Nat := 64

/-- The number that is exactly `num / den`, with the given sign; none if no number is. -/
def exactQuotient? (negative : Bool) (num den : Nat) : Option Number :=
  (round? negative (num * oneUnits) den).filter fun r => r.magnitude * den = num * oneUnits

/-- The base to a small integral exponent, if that power is itself a number. -/
def exactPower? (x exponent : Number) : Option Number :=
  match exponent.toInt? with
  | none => none
  | some n =>
    if n.natAbs ≤ largestExactExponent then
      let shared := Nat.gcd x.magnitude oneUnits
      let num := (x.magnitude / shared) ^ n.natAbs
      let den := (oneUnits / shared) ^ n.natAbs
      let negative := x.negative && exponent.isOdd
      if n < 0 then exactQuotient? negative den num else exactQuotient? negative num den
    else
      none

/-- The base to the exponent as the machine computes it, unless the result is not finite. -/
def machinePower? (x exponent : Number) : Option Number :=
  match Binary64.ofFloat? (Float.pow (Binary64.finite x).toFloat (Binary64.finite exponent).toFloat)
      with
  | some (.finite r) => some r
  | _ => none

/-- The base to the exponent, unless that is not a finite number. -/
def pow? (x : Number) : Binary64 → Option Number
  | .infinite negative => x.limitPower? negative
  | .finite exponent =>
    if exponent.isZero then some one
    else if x.isZero then x.zeroPower? exponent
    else (x.exactPower? exponent).or (x.machinePower? exponent)

end Number

end SchoolAlgebra
