import SchoolAlgebra.Decimal.Text
import SchoolAlgebra.Expr.Basic

/-!
# Printing expressions

`Expr.render` writes an expression in display glyphs with a parenthesis only where the grouping
needs one: around a looser operand, around an equally binding operand to the right of a minus or a
division, around a sum or a product under a sign, and around a base that starts with a sign or is
not a single operand.
-/

namespace SchoolAlgebra

namespace Expr

/-- A text in parentheses. -/
def parenthesized (text : String) : String := "(" ++ text ++ ")"

/-- A text in parentheses if they are needed. -/
def parenthesizedIf (needed : Bool) (text : String) : String :=
  if needed then parenthesized text else text

/-- Whether an expression is two operands joined by an operator. -/
def isBinary : Expr → Bool
  | .binary .. => true
  | _ => false

/-- Whether an operand left of an operator needs parentheses. -/
def needsParensLeft (parent : Operator) : Expr → Bool
  | .binary child .. => child.precedence < parent.precedence
  | _ => false

/-- Whether an operand right of an operator needs parentheses. -/
def needsParensRight (parent : Operator) : Expr → Bool
  | .binary child .. =>
    child.precedence < parent.precedence ||
      (parent.separatesRight && child.precedence == parent.precedence)
  | _ => false

/-- Whether an expression needs parentheses under an exponent. -/
def needsParensBase : Expr → Bool
  | .binary .. | .neg .. => true
  | .num v _ => v.isBelowZero
  | .var _ coefficient _ => coefficient != .one
  | .power .. => false

/-- The text of a multiple of a variable; the coefficients one and minus one are not written. -/
def variableText (name : String) (coefficient : Binary64) : String :=
  if coefficient = .one then name
  else if coefficient = .minusOne then "-" ++ name
  else coefficient.shortText ++ name

/-- The text of an expression. -/
def render : Expr → String
  | .num v _ => v.shortText
  | .var name coefficient _ => variableText name coefficient
  | .neg e _ => "-" ++ parenthesizedIf e.isBinary e.render
  | .power base exponent _ =>
    parenthesizedIf base.needsParensBase base.render ++ "^" ++ exponent.exactText
  | .binary op left right _ =>
    parenthesizedIf (needsParensLeft op left) left.render ++ " " ++ op.glyph ++ " " ++
      parenthesizedIf (needsParensRight op right) right.render

end Expr

end SchoolAlgebra
