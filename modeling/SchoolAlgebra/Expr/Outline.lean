import SchoolAlgebra.Decimal.Text
import SchoolAlgebra.Expr.Basic

/-!
# Outlines

The outline of an expression has a line for each node, parents before their operands and operands in
order, two spaces of indentation for each level. It shows all that a node holds.
-/

namespace SchoolAlgebra

namespace Expr

/-- The indentation of a level. -/
def indent (level : Nat) : String := String.ofList (List.replicate (2 * level) ' ')

/-- The end of a node's line: its span, if it has one. -/
def spanText : Option Span → String
  | none => ""
  | some s => "  [" ++ toString s.start ++ ":" ++ toString s.stop ++ "]"

/-- A coefficient other than one. -/
def coefficientText (coefficient : Binary64) : String :=
  if coefficient = .one then "" else " coefficient=" ++ coefficient.exactText

/-- The line of a node, without its indentation and span. -/
def headline : Expr → String
  | .num v _ => "Number " ++ v.exactText
  | .var name coefficient _ => "Variable " ++ name ++ coefficientText coefficient
  | .neg .. => "Unary -"
  | .power _ exponent _ => "Power ^" ++ exponent.exactText
  | .binary op .. => "Binary " ++ op.symbol

/-- The lines of an expression that stands at a level. -/
def outlineAt (level : Nat) (e : Expr) : String :=
  indent level ++ e.headline ++ spanText e.span ++ "\n" ++
    match e with
    | .num .. | .var .. => ""
    | .neg operand _ => operand.outlineAt (level + 1)
    | .power base _ _ => base.outlineAt (level + 1)
    | .binary _ left right _ => left.outlineAt (level + 1) ++ right.outlineAt (level + 1)

/-- The outline of an expression. -/
def outline (e : Expr) : String := e.outlineAt 0

end Expr

end SchoolAlgebra
