import SchoolAlgebra.Decimal.Text
import SchoolAlgebra.Json
import SchoolAlgebra.Text.Span

/-!
# Hints

A hint says that an expression, or the fraction of two expressions, can be made simpler, and where
in the source the parts stand that can be put together.
-/

namespace SchoolAlgebra

/-- A way to make an expression simpler. -/
inductive Hint where
  /-- A factor of numbers in the numerator and of numbers in the denominator of a fraction. -/
  | commonFactor (factor : Int) (numerator denominator : List Span)
  /-- Terms of a sum with the same variable and exponent; constants have no variable. -/
  | likeTerms (name? : Option String) (exponent : Binary64) (terms : List Span)
  /-- A number divided by a number with which it shares a divisor. -/
  | reducibleFraction (divisor : Int) (numerator denominator : Span)
  deriving DecidableEq

namespace Hint

/-- A variable with its exponent; an exponent of one is not written. -/
def powerText (name : String) (exponent : Binary64) : String :=
  if exponent = .one then name else name ++ "^" ++ exponent.exactText

/-- A one-line description. -/
def describe : Hint → String
  | .commonFactor factor .. => "numerator and denominator share the factor " ++ toString factor
  | .likeTerms none .. => "constant terms can be combined"
  | .likeTerms (some name) exponent _ =>
    "like terms in " ++ powerText name exponent ++ " can be combined"
  | .reducibleFraction divisor .. => "fraction can be reduced by " ++ toString divisor

/-- A span as a pair of offsets. -/
def spanJson (s : Span) : Json := .array [.integer s.start, .integer s.stop]

/-- Spans as pairs of offsets. -/
def spansJson (spans : List Span) : Json := .array (spans.map spanJson)

/-- The hint as a JSON object. -/
def toJson : Hint → Json
  | .commonFactor factor numerator denominator =>
    .object [("kind", .string "common-factor"), ("factor", .integer factor),
      ("numerator_spans", spansJson numerator), ("denominator_spans", spansJson denominator)]
  | .likeTerms name? exponent terms =>
    .object [("kind", .string "like-terms"), ("variable", (name?.map .string).getD .null),
      ("exponent", .number exponent), ("spans", spansJson terms)]
  | .reducibleFraction divisor numerator denominator =>
    .object [("kind", .string "reducible-fraction"), ("gcd", .integer divisor),
      ("numerator_span", spanJson numerator), ("denominator_span", spanJson denominator)]

end Hint

end SchoolAlgebra
