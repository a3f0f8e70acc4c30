/-!
# Binary64 numbers

The numbers of the library are those of the 64-bit binary interchange format. `Number` holds the
finite ones; `Binary64` adds the two infinities, which a literal too large to be represented reads
as. There is no NaN: no literal denotes one, and an operation without a finite result has no
result at all.

## Implementation notes

Every finite binary64 number is a whole multiple of the least positive one, `2 ^ -1074`, called
the *unit* here. A number is therefore a sign and a magnitude `mantissa * 2 ^ scale` in units, two
natural numbers, and all exact arithmetic stays in `Nat` and `Int`.

`Number.Canonical` leaves exactly one pair of mantissa and scale for each magnitude, so equality of
the type is equality of sign and magnitude. The two zeros are different numbers of equal value;
`Binary64.unsignZero` makes them one where only the value counts.
-/

namespace SchoolAlgebra

-- A power of natural numbers is the core library's in every module, whatever else is imported.
attribute [instance (2000), default_instance (20000)] instPowNat

/-- How many units make up the number one, as a power of two. -/
def unitBits : Nat := 1074

/-- The magnitude of the number one, in units. -/
def oneUnits : Nat := 2 ^ unitBits

theorem oneUnits_pos : 0 < oneUnits := Nat.two_pow_pos unitBits

/-- A mantissa of 53 bits, its top bit set unless the scale is least, and a scale in range. -/
def Number.Canonical (mantissa scale : Nat) : Prop :=
  mantissa < 2 ^ 53 ∧ scale ≤ 2045 ∧ (2 ^ 52 ≤ mantissa ∨ scale = 0)

instance (mantissa scale : Nat) : Decidable (Number.Canonical mantissa scale) :=
  inferInstanceAs (Decidable (_ ∧ _))

/-- A finite binary64 number: `mantissa * 2 ^ scale` units, with a sign. -/
structure Number where
  /-- Whether the sign is minus; a zero has a sign too. -/
  negative : Bool
  /-- The significant bits. -/
  mantissa : Nat
  /-- The power of two, in units, that the mantissa counts. -/
  scale : Nat
  /-- The pair is the only one of its magnitude. -/
  canonical : Number.Canonical mantissa scale
  deriving DecidableEq

namespace Number

/-- The number with the given sign, mantissa and scale, if the pair is canonical. -/
def ofParts? (negative : Bool) (mantissa scale : Nat) : Option Number :=
  if h : Canonical mantissa scale then some ⟨negative, mantissa, scale, h⟩ else none

@[simp] theorem ofParts?_self (x : Number) :
    ofParts? x.negative x.mantissa x.scale = some x := by
  simp [ofParts?, x.canonical]

/-- Positive zero. -/
def zero : Number := ⟨false, 0, 0, by decide⟩

/-- The number one. -/
def one : Number := ⟨false, 2 ^ 52, 1022, by decide⟩

/-- The number two, the exponent of a caret that no number follows. -/
def two : Number := ⟨false, 2 ^ 52, 1023, by decide⟩

/-- The same magnitude with the other sign. -/
def neg (x : Number) : Number := { x with negative := !x.negative }

@[simp] theorem neg_neg (x : Number) : x.neg.neg = x := by
  cases x; simp [neg]

/-- The distance from zero, in units. -/
def magnitude (x : Number) : Nat := x.mantissa * 2 ^ x.scale

@[simp] theorem magnitude_neg (x : Number) : x.neg.magnitude = x.magnitude := rfl

@[simp] theorem magnitude_zero : zero.magnitude = 0 := rfl

/-- The number one is one. -/
theorem magnitude_one : one.magnitude = oneUnits := by decide +kernel

/-- The value in units. -/
def units (x : Number) : Int := if x.negative then -(x.magnitude : Int) else x.magnitude

theorem units_neg (x : Number) : x.neg.units = -x.units := by
  cases h : x.negative <;> simp [units, neg, h, magnitude]

/-- Whether the value is zero, of either sign. -/
def isZero (x : Number) : Bool := x.mantissa == 0

/-- Whether the value is below zero; negative zero is not. -/
def isBelowZero (x : Number) : Bool := x.negative && !x.isZero

@[simp] theorem isZero_neg (x : Number) : x.neg.isZero = x.isZero := rfl

/-- The value as an integer, if it is one. -/
def toInt? (x : Number) : Option Int :=
  if x.magnitude % oneUnits = 0 then
    let whole : Int := (x.magnitude / oneUnits : Nat)
    some (if x.negative then -whole else whole)
  else
    none

/-- Whether the value is an odd integer. -/
def isOdd (x : Number) : Bool :=
  match x.toInt? with
  | some n => n % 2 == 1
  | none => false

end Number

/-- A binary64 number, infinities included. -/
inductive Binary64 where
  /-- A number that the format represents. -/
  | finite (value : Number)
  /-- A number past the largest finite one, or below the least one. -/
  | infinite (negative : Bool)
  deriving DecidableEq

namespace Binary64

/-- The number one. -/
def one : Binary64 := .finite .one

/-- The number two. -/
def two : Binary64 := .finite .two

/-- The number minus one. -/
def minusOne : Binary64 := .finite Number.one.neg

/-- The same magnitude with the other sign. -/
def neg : Binary64 → Binary64
  | .finite x => .finite x.neg
  | .infinite negative => .infinite !negative

@[simp] theorem neg_neg (x : Binary64) : x.neg.neg = x := by
  cases x <;> simp [neg]

/-- The number, unless it is infinite. -/
def finite? : Binary64 → Option Number
  | .finite x => some x
  | .infinite _ => none

/-- Whether the value is below zero; negative zero is not. -/
def isBelowZero : Binary64 → Bool
  | .finite x => x.isBelowZero
  | .infinite negative => negative

/-- The value as an integer, if it is one. -/
def toInt? : Binary64 → Option Int
  | .finite x => x.toInt?
  | .infinite _ => none

/-- The number with the sign of a zero forgotten. -/
def unsignZero : Binary64 → Binary64
  | .finite x => if x.isZero then .finite .zero else .finite x
  | .infinite negative => .infinite negative

@[simp] theorem unsignZero_unsignZero (x : Binary64) :
    x.unsignZero.unsignZero = x.unsignZero := by
  cases x with
  | infinite negative => rfl
  | finite x =>
    by_cases h : x.isZero = true
    · simp only [unsignZero, if_pos h]
      rfl
    · simp only [unsignZero, if_neg h]

end Binary64

end SchoolAlgebra
