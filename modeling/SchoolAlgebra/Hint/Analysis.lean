import SchoolAlgebra.Hint.CommonFactor
import SchoolAlgebra.Hint.Fraction
import SchoolAlgebra.Hint.LikeTerms

/-!
# Analysis

All hints for an expression, or for a fraction whose two sides are displayed apart. A side that is
missing has no hints.
-/

namespace SchoolAlgebra

namespace Hint

/-- The hints for an expression: like terms first, then fractions. -/
def ofExpr (e : Expr) : List Hint := likeTermGroups e ++ reducibleFractions e

/-- The hints for an expression, if there is one. -/
def ofExpr? (e? : Option Expr) : List Hint := (e?.map ofExpr).getD []

/-- The hints for a fraction: common factors, then those of each side by itself. -/
def ofFraction (numerator denominator : Expr) : List Hint :=
  commonFactors numerator denominator ++ ofExpr numerator ++ ofExpr denominator

/-- The hints for a fraction of which a side may be missing. -/
def ofSides? : Option Expr → Option Expr → List Hint
  | some numerator, some denominator => ofFraction numerator denominator
  | numerator?, denominator? => ofExpr? numerator? ++ ofExpr? denominator?

end Hint

end SchoolAlgebra
