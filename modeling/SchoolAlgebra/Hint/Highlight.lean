import SchoolAlgebra.Hint.Basic

/-!
# Highlights

Which hints concern a stretch of displayed text. A fraction is displayed as two texts, an expression
as one, and the question names the text.
-/

namespace SchoolAlgebra

/-- A displayed text. -/
inductive DisplayPart where
  | numerator
  | denominator
  | expression
  deriving DecidableEq

namespace Hint

/-- The spans that a hint highlights in a displayed text. -/
def spansIn (part : DisplayPart) : Hint → List Span
  | .commonFactor _ numerator denominator =>
    if part = .denominator then denominator else numerator
  | .likeTerms _ _ terms => terms
  | .reducibleFraction _ numerator denominator =>
    match part with
    | .numerator => [numerator]
    | .denominator => [denominator]
    | .expression => []

/-- Whether a hint highlights some of a span. -/
def touches (span : Span) (part : DisplayPart) (h : Hint) : Bool :=
  (h.spansIn part).any (·.overlaps span)

/-- Whether any hint highlights some of a span. -/
def isHighlighted (span : Span) (hints : List Hint) (part : DisplayPart) : Bool :=
  hints.any (touches span part)

/-- The hints that highlight some of a span. -/
def hintsAt (span : Span) (hints : List Hint) (part : DisplayPart) : List Hint :=
  hints.filter (touches span part)

/-- The spans of a line that a hint about an expression is shown at: each like term, and a fraction
as a whole. A common factor is not about one expression. -/
def lineSpans : Hint → List Span
  | .commonFactor .. => []
  | .likeTerms _ _ terms => terms
  | .reducibleFraction _ numerator denominator => [⟨numerator.start, denominator.stop⟩]

end Hint

end SchoolAlgebra
