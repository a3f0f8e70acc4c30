import SchoolAlgebra.Hint.Basic
import SchoolAlgebra.Hint.Literal

/-!
# Reducible fractions

A fraction of two numbers can be reduced if both are integers and have a divisor above one in
common. `Hint.reducibleFractions` finds every such fraction in an expression, the outer ones first.
-/

namespace SchoolAlgebra

namespace Hint

/-- The hint for a fraction, if both operands are numbers in a source and it can be reduced. -/
def ofFraction? : Expr → Expr → Option Hint
  | .num n (some above), .num d (some below) => do
    let a ← Literal.size? ⟨n, some above⟩
    let b ← Literal.size? ⟨d, some below⟩
    let divisor : Int := Int.gcd a b
    if b ≠ 0 ∧ 1 < divisor then some (.reducibleFraction divisor above below) else none
  | _, _ => none

/-- The fractions of numbers that can be reduced, in the order in which they begin. -/
def reducibleFractions : Expr → List Hint
  | .num .. | .var .. => []
  | .binary .divide left right _ =>
    (ofFraction? left right).toList ++ (reducibleFractions left ++ reducibleFractions right)
  | .binary _ left right _ => reducibleFractions left ++ reducibleFractions right
  | .neg e _ => reducibleFractions e
  | .power base _ _ => reducibleFractions base

end Hint

end SchoolAlgebra
