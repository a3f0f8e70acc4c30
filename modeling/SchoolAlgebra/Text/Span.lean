/-!
# Spans of text

A span is a half-open range of character offsets into a source text. Offsets count characters, so
that a span can be cut out of the list of characters without regard to how they are stored.
-/

namespace SchoolAlgebra

/-- The characters from offset `start` up to, not including, offset `stop`. -/
structure Span where
  /-- The offset of the first character. -/
  start : Nat
  /-- The offset after the last character. -/
  stop : Nat
  deriving DecidableEq

namespace Span

/-- Whether two spans have a character in common, as far as their ends tell. -/
def overlaps (a b : Span) : Bool := a.start < b.stop && b.start < a.stop

theorem overlaps_comm (a b : Span) : a.overlaps b = b.overlaps a := by
  simp [overlaps, Bool.and_comm]

/-- Whether a span holds no character. -/
def isEmpty (a : Span) : Bool := a.start == a.stop

/-- The text of a span; what lies past the end of the source is left out. -/
def excerpt (a : Span) (source : String) : String :=
  String.ofList ((source.toList.take a.stop).drop a.start)

end Span

end SchoolAlgebra
