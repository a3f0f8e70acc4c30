import SchoolAlgebra.Binary64.Basic
import SchoolAlgebra.Operator
import SchoolAlgebra.Text.Span

/-!
# Tokens

A token is a lexeme together with the span of source text that it was read from. The list of tokens
of a source ends with a `finish` lexeme at the end of the text, so that every position at which an
expression can go wrong is the position of a token.
-/

namespace SchoolAlgebra

/-- A word or a sign of the expression language. -/
inductive Lexeme where
  /-- A numeral, with the number nearest to what it denotes. -/
  | number (text : String) (value : Binary64)
  /-- The name of a variable. -/
  | name (text : String)
  /-- An operator; a minus also where it is a sign. -/
  | operator (op : Operator)
  /-- The sign before an exponent. -/
  | caret
  | leftParen
  | rightParen
  /-- The end of the source. -/
  | finish
  deriving DecidableEq

namespace Lexeme

/-- The text of a lexeme in ASCII spelling; empty at the end of the source. -/
def text : Lexeme → String
  | .number text _ => text
  | .name text => text
  | .operator op => op.symbol
  | .caret => "^"
  | .leftParen => "("
  | .rightParen => ")"
  | .finish => ""

/-- The value of a numeral. -/
def value? : Lexeme → Option Binary64
  | .number _ value => some value
  | _ => none

/-- Whether the lexeme is a numeral. -/
def isNumber (l : Lexeme) : Bool := l.value?.isSome

end Lexeme

/-- A lexeme and where it stands. -/
structure Token where
  /-- What was read. -/
  lexeme : Lexeme
  /-- Where it was read. -/
  span : Span
  deriving DecidableEq

end SchoolAlgebra
