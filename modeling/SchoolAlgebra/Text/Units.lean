/-!
# Offsets in UTF-16 units

Editors count the characters of a line in UTF-16 code units: two for a character outside the basic
plane, one for any other.
-/

namespace SchoolAlgebra

namespace Text

/-- The number of UTF-16 units of a character. -/
def charUnits (c : Char) : Nat := if c.toNat < 0x10000 then 1 else 2

theorem charUnits_pos (c : Char) : 0 < charUnits c := by
  unfold charUnits; split <;> decide

/-- The number of UTF-16 units of a run of characters. -/
def units : List Char → Nat
  | [] => 0
  | c :: rest => charUnits c + units rest

@[simp] theorem units_nil : units [] = 0 := rfl

@[simp] theorem units_cons (c : Char) (chars : List Char) :
    units (c :: chars) = charUnits c + units chars := rfl

/-- The offset in UTF-16 units of a character offset. An offset past the end of the text, such as
that of an error at the end of input, keeps its distance from the end. -/
def unitOffset (text : String) (offset : Nat) : Nat :=
  units (text.toList.take offset) + (offset - text.toList.length)

end Text

end SchoolAlgebra
