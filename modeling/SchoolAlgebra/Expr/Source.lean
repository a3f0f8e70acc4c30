import SchoolAlgebra.Expr.Parse
import SchoolAlgebra.Expr.Print
import SchoolAlgebra.Expr.Simplify

/-!
# From source to answer

The two questions that can be asked of a source without looking at its tree: what it is worth, and
what it looks like when simplified.
-/

namespace SchoolAlgebra

namespace Expr

/-- The value of a source; none if it is no expression, or one without a value. -/
def valueOfSource? (source : String) : Option Number := (parse? source).bind value?

/-- A source in its simplified form; a source that is no expression stays as it is. -/
def simplifySource (source : String) : String :=
  match parse? source with
  | some e => e.simplify.render
  | none => source

end Expr

end SchoolAlgebra
