import SchoolAlgebra.Text.Lines

/-!
# Locations and error reports

An offset into a source is shown to a reader as a line and a column, both counted from one, and in a
report that quotes the line with a caret under the column.

Lines are counted by line feeds alone, while the quoted line is taken from `Text.lines`, which knows
further line ends.
-/

namespace SchoolAlgebra

namespace Text

/-- The number of the line that holds an offset: one more than the line feeds before it. -/
def lineNumber (source : String) (offset : Nat) : Nat :=
  (source.toList.take offset).count '\n' + 1

/-- The offset of the first character after the last line feed before an offset. -/
def lineStart (source : String) (offset : Nat) : Nat :=
  let before := source.toList.take offset
  before.length - (before.reverse.takeWhile (· != '\n')).length

/-- The column of an offset in its line. -/
def columnNumber (source : String) (offset : Nat) : Nat := offset - lineStart source offset + 1

/-- A run of spaces. -/
def spaces (count : Nat) : String := String.ofList (List.replicate count ' ')

/-- An error message, the place it is about, and the source line with a caret under that place. The
gutter is as wide as the line number. -/
def report (message : String) (offset : Nat) (source fileName : String) : String :=
  let line := lineNumber source offset
  let column := columnNumber source offset
  let number := toString line
  let gutter := spaces (number.length + 1)
  let quoted := ((lines source)[line - 1]?).getD ""
  "error: " ++ message ++ "\n" ++
    gutter ++ "--> " ++ fileName ++ ":" ++ number ++ ":" ++ toString column ++ "\n" ++
    gutter ++ "|\n" ++
    number ++ " | " ++ quoted ++ "\n" ++
    gutter ++ "| " ++ spaces (column - 1) ++ "^"

end Text

end SchoolAlgebra
