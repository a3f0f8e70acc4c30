import SchoolAlgebra.Binary64.Basic

/-!
# The bit pattern of a number

A binary64 number is stored in 64 bits: one of sign, eleven of exponent, 52 of fraction. An exponent
field of zero holds the numbers below `2 ^ 52` units, a field of all ones the infinities; otherwise
the field is the scale plus one and the fraction is the mantissa without its top bit.

`Binary64.ofBits?` has no answer for the patterns that are not a number. It reads what
`Binary64.toBits` writes, which is `Binary64.ofBits?_toBits`.
-/

namespace SchoolAlgebra

namespace Binary64

/-- The exponent field of the infinities. -/
def fullField : Nat := 2047

/-- The bits of the given sign, exponent field and fraction. -/
def assembleBits (negative : Bool) (field fraction : Nat) : Nat :=
  (if negative then 2 ^ 63 else 0) + field * 2 ^ 52 + fraction

/-- The three fields can be read back from the bits that hold them. -/
theorem fields_assembleBits (negative : Bool) {field fraction : Nat} (hfield : field < 2 ^ 11)
    (hfraction : fraction < 2 ^ 52) :
    (assembleBits negative field fraction / 2 ^ 63 % 2 == 1) = negative ∧
      assembleBits negative field fraction / 2 ^ 52 % 2 ^ 11 = field ∧
      assembleBits negative field fraction % 2 ^ 52 = fraction := by
  cases negative <;> simp only [assembleBits, beq_iff_eq, beq_eq_false_iff_ne, if_true] <;>
    refine ⟨?_, ?_, ?_⟩ <;> simp <;> omega

/-- The bit pattern, as a natural number below `2 ^ 64`. -/
def toBits : Binary64 → Nat
  | .finite x =>
    if x.mantissa < 2 ^ 52 then
      assembleBits x.negative 0 x.mantissa
    else
      assembleBits x.negative (x.scale + 1) (x.mantissa - 2 ^ 52)
  | .infinite negative => assembleBits negative fullField 0

/-- The number of a bit pattern; none for a pattern that is not a number. -/
def ofBits? (bits : Nat) : Option Binary64 :=
  let negative := bits / 2 ^ 63 % 2 == 1
  let field := bits / 2 ^ 52 % 2 ^ 11
  let fraction := bits % 2 ^ 52
  if field = fullField then
    if fraction = 0 then some (.infinite negative) else none
  else if field = 0 then
    (Number.ofParts? negative fraction 0).map .finite
  else
    (Number.ofParts? negative (2 ^ 52 + fraction) (field - 1)).map .finite

/-- The machine's floating-point number of the same value. -/
def toFloat (x : Binary64) : Float := Float.ofBits x.toBits.toUInt64

/-- The number of a machine's floating-point number; none if it is not a number. -/
def ofFloat? (x : Float) : Option Binary64 := ofBits? x.toBits.toNat

/-- Writing a number in bits loses nothing. -/
theorem ofBits?_toBits (x : Binary64) : ofBits? x.toBits = some x := by
  cases x with
  | infinite negative => cases negative <;> rfl
  | finite x =>
    obtain ⟨negative, mantissa, scale, h⟩ := x
    have hcanonical := h
    obtain ⟨hmantissa, hscale, hleast⟩ := h
    by_cases hlow : mantissa < 2 ^ 52
    · obtain rfl : scale = 0 := by omega
      obtain ⟨h₁, h₂, h₃⟩ := fields_assembleBits negative (by decide : 0 < 2 ^ 11) hlow
      have hfull : 0 ≠ fullField := by decide
      simp only [toBits, ofBits?, hlow, h₁, h₂, h₃, if_true, hfull, if_false, Number.ofParts?,
        hcanonical, dif_pos, Option.map_some]
    · obtain ⟨h₁, h₂, h₃⟩ := fields_assembleBits negative
        (by omega : scale + 1 < 2 ^ 11) (by omega : mantissa - 2 ^ 52 < 2 ^ 52)
      have hfull : scale + 1 ≠ fullField := by simp only [fullField]; omega
      have hsum : 2 ^ 52 + (mantissa - 2 ^ 52) = mantissa := by omega
      simp only [toBits, ofBits?, hlow, h₁, h₂, h₃, if_false, hfull, hsum, Number.ofParts?,
        Nat.add_sub_cancel, hcanonical, dif_pos, Nat.succ_ne_zero, Option.map_some]

end Binary64

end SchoolAlgebra
