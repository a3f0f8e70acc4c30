import SchoolAlgebra.Expr.Basic

/-!
# The numbers of an expression

`Expr.literals` lists the numbers that occur in an expression as operands, from left to right.
Exponents and coefficients are not among them.
-/

namespace SchoolAlgebra

/-- A number that occurs in an expression, and where. -/
structure Literal where
  /-- The number. -/
  value : Binary64
  /-- Where it stands. -/
  span : Option Span
  deriving DecidableEq

namespace Literal

/-- The size of an integer; other numbers have none. -/
def size? (l : Literal) : Option Int := l.value.toInt?.map fun n => (n.natAbs : Int)

/-- Whether a number is an integer that a factor divides. -/
def isMultipleOf (factor : Int) (l : Literal) : Bool := l.size?.any (· % factor == 0)

/-- The places at which numbers stand. -/
def spans (literals : List Literal) : List Span := literals.filterMap Literal.span

end Literal

namespace Expr

/-- The numbers of an expression, from left to right. -/
def literals : Expr → List Literal
  | .num v s => [⟨v, s⟩]
  | .var .. => []
  | .binary _ left right _ => left.literals ++ right.literals
  | .neg e _ => e.literals
  | .power base _ _ => base.literals

end Expr

end SchoolAlgebra
