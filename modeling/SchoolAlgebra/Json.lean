import SchoolAlgebra.Decimal.Text

/-!
# JSON text

The JSON values that results are reported as, and their text: one line, a comma and a space between
elements, a colon and a space after a name, names in the order in which they were given.

A string escapes the quotation mark, the backslash and the control characters below the space; in
`Charset.ascii` it escapes everything outside the printable characters of ASCII as well, a character
beyond the basic plane as two escapes.
-/

namespace SchoolAlgebra

/-- A value to be reported. -/
inductive Json where
  | null
  /-- An integer, of any size. -/
  | integer (n : Int)
  /-- A binary64 number, written with a point or an exponent. -/
  | number (x : Binary64)
  | string (text : String)
  | array (items : List Json)
  | object (fields : List (String × Json))

namespace Json

/-- Which characters a string may hold as they are. -/
inductive Charset where
  /-- Printable ASCII. -/
  | ascii
  /-- Everything but the control characters below the space. -/
  | unicode
  deriving DecidableEq

/-- A digit of a hexadecimal numeral, in lower case. -/
def hexDigit (n : Nat) : Char := (Nat.digitChar (n % 16))

/-- An escape of a UTF-16 unit, four hexadecimal digits. -/
def unitEscape (n : Nat) : List Char :=
  ['\\', 'u', hexDigit (n / 4096), hexDigit (n / 256), hexDigit (n / 16), hexDigit n]

/-- The escapes of a character's UTF-16 units. -/
def unitEscapes (c : Char) : List Char :=
  let n := c.toNat
  if n < 0x10000 then unitEscape n
  else unitEscape (0xD800 + (n - 0x10000) / 0x400) ++ unitEscape (0xDC00 + (n - 0x10000) % 0x400)

/-- Whether a character stands for itself in a string. -/
def isPlain (charset : Charset) (c : Char) : Bool :=
  0x20 ≤ c.toNat && (charset = .unicode || c.toNat < 0x7F)

/-- A character inside a string. -/
def escape (charset : Charset) (c : Char) : List Char :=
  match c with
  | '"' => ['\\', '"']
  | '\\' => ['\\', '\\']
  | '\n' => ['\\', 'n']
  | '\r' => ['\\', 'r']
  | '\t' => ['\\', 't']
  | '\x08' => ['\\', 'b']
  | '\x0c' => ['\\', 'f']
  | c => if isPlain charset c then [c] else unitEscapes c

/-- A string between quotation marks. -/
def quote (charset : Charset) (text : String) : String :=
  String.ofList ('"' :: text.toList.flatMap (escape charset) ++ ['"'])

/-- The text of a number. -/
def numberText : Binary64 → String
  | .finite x => x.fullText
  | .infinite negative => if negative then "-Infinity" else "Infinity"

mutual

/-- The text of a value. -/
def textIn (charset : Charset) : Json → String
  | .null => "null"
  | .integer n => toString n
  | .number x => numberText x
  | .string text => quote charset text
  | .array items => "[" ++ ", ".intercalate (itemTexts charset items) ++ "]"
  | .object fields => "\x7b" ++ ", ".intercalate (fieldTexts charset fields) ++ "\x7d"

/-- The texts of the items of an array. -/
def itemTexts (charset : Charset) : List Json → List String
  | [] => []
  | item :: rest => item.textIn charset :: itemTexts charset rest

/-- The texts of the fields of an object. -/
def fieldTexts (charset : Charset) : List (String × Json) → List String
  | [] => []
  | (name, value) :: rest =>
    (quote charset name ++ ": " ++ value.textIn charset) :: fieldTexts charset rest

end

/-- The text of a value, characters outside ASCII as they are. -/
def text (value : Json) : String := value.textIn .unicode

/-- The text of a value in ASCII. -/
def asciiText (value : Json) : String := value.textIn .ascii

end Json

end SchoolAlgebra
