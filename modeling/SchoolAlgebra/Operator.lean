/-!
# The four operators

Each operator has an ASCII symbol, which tokens and outlines show, and a display glyph, which
printed expressions show. Both are read back as the operator.
-/

namespace SchoolAlgebra

/-- An arithmetic operator between two operands. -/
inductive Operator where
  | add
  | subtract
  | multiply
  | divide
  deriving DecidableEq

namespace Operator

/-- The ASCII symbol. -/
def symbol : Operator → String
  | .add => "+"
  | .subtract => "-"
  | .multiply => "*"
  | .divide => "/"

/-- The glyph in a printed expression. -/
def glyph : Operator → String
  | .add => "+"
  | .subtract => "-"
  | .multiply => "×"
  | .divide => "÷"

/-- The operator that a character of an expression spells. A multiplication may also be written
with the multiplication sign or the middle dot, a division with the division sign. -/
def ofChar? : Char → Option Operator
  | '+' => some .add
  | '-' => some .subtract
  | '*' | '×' | '·' => some .multiply
  | '/' | '÷' => some .divide
  | _ => none

/-- Every operator is read from its symbol. -/
theorem ofChar?_symbol (op : Operator) : op.symbol.toList.map ofChar? = [some op] := by
  cases op <;> rfl

/-- Every operator is read from its glyph. -/
theorem ofChar?_glyph (op : Operator) : op.glyph.toList.map ofChar? = [some op] := by
  cases op <;> rfl

/-- Whether the operator joins the terms of a sum. -/
def isAdditive : Operator → Bool
  | .add | .subtract => true
  | .multiply | .divide => false

/-- Whether the operator joins the factors of a term. -/
def isMultiplicative (op : Operator) : Bool := !op.isAdditive

/-- How tightly the operator binds its operands. -/
def precedence (op : Operator) : Nat := if op.isAdditive then 1 else 2

/-- Whether an equally binding operand on the right keeps its own grouping. -/
def separatesRight : Operator → Bool
  | .subtract | .divide => true
  | .add | .multiply => false

end Operator

end SchoolAlgebra
