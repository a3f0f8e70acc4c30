import SchoolAlgebra.Binary64.Round

/-!
# Arithmetic on finite numbers

Each operation is the exact operation on values, rounded once. An operation whose result is not a
finite number has no result: a sum, a product or a quotient that overflows, a division by zero.

## Implementation notes

An exact result of zero keeps the sign that the interchange format gives it: a sum is minus zero
only if both operands are negative, a product or a quotient if exactly one is.

## Main results

* `Number.mul?_one`, `Number.one_mul?`, `Number.div?_one` — one changes nothing, exactly
* `Number.add?_of_isZero` — adding a zero changes at most the sign of a zero
-/

namespace SchoolAlgebra

namespace Number

/-- The sum, unless it overflows. -/
def add? (x y : Number) : Option Number :=
  let sum := x.units + y.units
  let negative := if sum = 0 then x.negative && y.negative else decide (sum < 0)
  round? negative sum.natAbs 1

/-- The difference, unless it overflows. -/
def sub? (x y : Number) : Option Number := x.add? y.neg

/-- The product, unless it overflows. -/
def mul? (x y : Number) : Option Number :=
  round? (x.negative != y.negative) (x.magnitude * y.magnitude) oneUnits

/-- The quotient, unless the divisor is zero or the quotient overflows. -/
def div? (x y : Number) : Option Number :=
  if y.isZero then
    none
  else
    round? (x.negative != y.negative) (x.magnitude * oneUnits) y.magnitude

/-! ### Operations that change nothing -/

theorem magnitude_eq_zero {x : Number} (h : x.isZero = true) : x.magnitude = 0 := by
  have hmantissa : x.mantissa = 0 := by simpa [isZero] using h
  simp [magnitude, hmantissa]

theorem units_eq_zero {x : Number} (h : x.isZero = true) : x.units = 0 := by
  simp [units, magnitude_eq_zero h]

theorem natAbs_units (x : Number) : x.units.natAbs = x.magnitude := by
  unfold units
  split <;> simp

@[simp] theorem mul?_one (x : Number) : x.mul? one = some x := by
  rw [mul?, magnitude_one, round?_magnitude _ x oneUnits_pos]
  simp [one]

@[simp] theorem one_mul? (x : Number) : one.mul? x = some x := by
  rw [mul?, magnitude_one, Nat.mul_comm, round?_magnitude _ x oneUnits_pos]
  simp [one]

@[simp] theorem div?_one (x : Number) : x.div? one = some x := by
  rw [div?, magnitude_one, if_neg (by decide), round?_magnitude _ x oneUnits_pos]
  simp [one]

/-- Adding a zero leaves the value as it is, but for the sign of a zero. -/
theorem add?_of_isZero {x zero : Number} (h : zero.isZero = true) :
    ∃ negative, x.add? zero = some { x with negative } := by
  have hround (negative : Bool) : round? negative x.magnitude 1 = some { x with negative } := by
    simpa using round?_magnitude negative x Nat.one_pos
  rw [add?, units_eq_zero h, Int.add_zero, natAbs_units]
  exact ⟨_, hround _⟩

end Number

end SchoolAlgebra
