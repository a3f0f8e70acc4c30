/-!
# Lines

A document is divided into lines at every character that ends a line, a carriage return followed by
a line feed counting as one end. An end at the very end of the text starts no further line.
-/

namespace SchoolAlgebra

namespace Text

/-- Whether a character ends a line: line feed, vertical tab, form feed, carriage return, the file,
group and record separators, next line, line separator, paragraph separator. -/
def isLineEnd (c : Char) : Bool :=
  let n := c.toNat
  (0x0A ≤ n && n ≤ 0x0D) || (0x1C ≤ n && n ≤ 0x1E) || n == 0x85 || n == 0x2028 || n == 0x2029

/-- The text before the first line end, and each piece of text after a line end. -/
def pieces : List Char → List Char × List (List Char)
  | [] => ([], [])
  | '\r' :: '\n' :: rest =>
    let (line, more) := pieces rest
    ([], line :: more)
  | c :: rest =>
    let (line, more) := pieces rest
    if isLineEnd c then ([], line :: more) else (c :: line, more)

/-- The lines of a text, without their ends. -/
def lines (text : String) : List String :=
  let (line, more) := pieces text.toList
  let all := line :: more
  (if all.getLast? = some [] then all.dropLast else all).map String.ofList

end Text

end SchoolAlgebra
