import SchoolAlgebra.Text.Hidden
import SchoolAlgebra.Toml.Moment

/-!
# TOML values

The values that a TOML document assigns to keys, and their text in a message. A table keeps its
fields in the order in which the document gives them.
-/

namespace SchoolAlgebra

namespace Toml

/-- A TOML value. -/
inductive Value where
  | string (text : String)
  | integer (n : Int)
  | float (x : Binary64)
  /-- The float that is not a number. -/
  | notANumber
  | boolean (b : Bool)
  | moment (moment : Moment)
  | array (items : List Value)
  | table (fields : List (String × Value))

/-- The fields of a table. -/
abbrev Fields : Type := List (String × Value)

/-- The value of a key, if the table has it. -/
def Fields.find? (fields : Fields) (key : String) : Option Value := fields.lookup key

/-- The fields with a key given a new value, in the place of its old one if it had one. -/
def Fields.put (fields : Fields) (key : String) (value : Value) : Fields :=
  if (fields.find? key).isSome then
    fields.map fun field => if field.1 = key then (key, value) else field
  else
    fields ++ [(key, value)]

namespace Value

/-- The last `count` digits of a hexadecimal numeral. -/
def hexDigits (count n : Nat) : List Char :=
  (List.range count).reverse.map fun place => Nat.digitChar (n / 16 ^ place % 16)

/-- A hidden character by its code point, in as many digits as needed of two, four and eight. -/
def codePointText (c : Char) : List Char :=
  let n := c.toNat
  if n < 0x100 then '\\' :: 'x' :: hexDigits 2 n
  else if n < 0x10000 then '\\' :: 'u' :: hexDigits 4 n
  else '\\' :: 'U' :: hexDigits 8 n

/-- A character of a quoted text. -/
def quotedChar (quote c : Char) : List Char :=
  if c = quote ∨ c = '\\' then ['\\', c]
  else if c = '\n' then ['\\', 'n']
  else if c = '\r' then ['\\', 'r']
  else if c = '\t' then ['\\', 't']
  else if Text.isHidden c then codePointText c
  else [c]

/-- A text between apostrophes, or between quotation marks if it holds an apostrophe and no
quotation mark. -/
def quoted (text : String) : String :=
  let chars := text.toList
  let quote := if chars.contains '\'' && !chars.contains '"' then '"' else '\''
  String.ofList (quote :: chars.flatMap (quotedChar quote) ++ [quote])

/-- The text of a float; whole numbers show that they are floats. -/
def floatText : Binary64 → String
  | .finite x => x.fullText
  | .infinite negative => Binary64.infinityText negative

mutual

/-- The text of a value inside another one. -/
def innerText : Value → String
  | .string text => quoted text
  | .integer n => toString n
  | .float x => floatText x
  | .notANumber => "nan"
  | .boolean b => if b then "True" else "False"
  | .moment m => m.call
  | .array items => "[" ++ ", ".intercalate (itemTexts items) ++ "]"
  | .table fields => "\x7b" ++ ", ".intercalate (fieldTexts fields) ++ "\x7d"

/-- The texts of the items of an array. -/
def itemTexts : List Value → List String
  | [] => []
  | item :: rest => item.innerText :: itemTexts rest

/-- The texts of the fields of a table. -/
def fieldTexts : List (String × Value) → List String
  | [] => []
  | (key, value) :: rest => (quoted key ++ ": " ++ value.innerText) :: fieldTexts rest

end

/-- The text of a value in a message: a string as it is, a moment in its usual notation, all else as
inside another value. -/
def text : Value → String
  | .string text => text
  | .moment m => m.text
  | value => value.innerText

end Value

end Toml

end SchoolAlgebra
