/-!
# Digits and letters

The two classes of text that numerals and names are made of, for texts of any length. Both know
ASCII only.
-/

namespace SchoolAlgebra

namespace Text

/-- The ten digits in order. -/
def digitRow : List Char := ['0', '1', '2', '3', '4', '5', '6', '7', '8', '9']

/-- Whether one list of characters stands somewhere inside another. -/
def occursIn (part : List Char) : List Char → Bool
  | [] => part.isEmpty
  | c :: rest => part.isPrefixOf (c :: rest) || occursIn part rest

/-- Whether a text is a digit or a run of successive digits, each one more than the one before. -/
def isDigits (text : String) : Bool := !text.isEmpty && occursIn text.toList digitRow

/-- Whether a text is a letter or a run of letters. -/
def isLetters (text : String) : Bool := !text.isEmpty && text.toList.all Char.isAlpha

end Text

end SchoolAlgebra
