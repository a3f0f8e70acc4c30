import SchoolAlgebra.Token.Basic

/-!
# Tokens for display

What an editor shows of a token: a kind to style it by, and its text in display glyphs. Tokens
without text of their own, the end of the source and an unwritten multiplication, are not shown.
-/

namespace SchoolAlgebra

/-- How a token is styled. -/
inductive DisplayKind where
  | number
  | variable
  | operator
  | power
  | paren
  deriving DecidableEq

/-- The word for a kind. -/
def DisplayKind.name : DisplayKind → String
  | .number => "number"
  | .variable => "variable"
  | .operator => "operator"
  | .power => "power"
  | .paren => "paren"

/-- A token as an editor shows it. -/
structure DisplayToken where
  /-- How it is styled. -/
  kind : DisplayKind
  /-- Its text, operators as display glyphs. -/
  text : String
  /-- Where it stands in the source. -/
  span : Span
  /-- The value of a numeral. -/
  value? : Option Binary64
  deriving DecidableEq

namespace Lexeme

/-- How a lexeme is styled; the end of the source is not shown. -/
def displayKind? : Lexeme → Option DisplayKind
  | .number .. => some .number
  | .name _ => some .variable
  | .operator _ => some .operator
  | .caret => some .power
  | .leftParen | .rightParen => some .paren
  | .finish => none

/-- The text of a lexeme with display glyphs. -/
def displayText : Lexeme → String
  | .operator op => op.glyph
  | lexeme => lexeme.text

end Lexeme

namespace Token

/-- Whether a token is a multiplication that the source leaves unwritten. -/
def isImplicitMultiply (t : Token) : Bool :=
  t.lexeme = .operator .multiply && t.span.isEmpty

/-- The token as an editor shows it, if it does. -/
def display? (t : Token) : Option DisplayToken :=
  if t.isImplicitMultiply then none
  else t.lexeme.displayKind?.map (⟨·, t.lexeme.displayText, t.span, t.lexeme.value?⟩)

/-- The tokens that an editor shows. -/
def display (tokens : List Token) : List DisplayToken := tokens.filterMap display?

end Token

end SchoolAlgebra
