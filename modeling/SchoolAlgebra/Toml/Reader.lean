import SchoolAlgebra.Toml.Value

/-!
# Reading a TOML document piece by piece

A `Reader` takes characters from the front of a text and fails without saying why: a document that
is not TOML is reported as such, and no more. This module has the readers for blanks, comments, keys
and strings.

## Implementation notes

A reader that repeats itself takes `fuel`, the number of times that it may still do so. It is always
given more than the length of the text, and every repetition takes a character, so that it never
runs out.
-/

namespace SchoolAlgebra

namespace Toml

/-- A step of reading: it answers and leaves the rest of the text, or fails. -/
abbrev Reader (α : Type) : Type := StateT (List Char) Option α

namespace Reader

/-- The next character, which is not taken. -/
def peek? : Reader (Option Char) := do return (← get).head?

/-- Takes the longest run of characters of a class. -/
def takeWhile (p : Char → Bool) : Reader (List Char) := do
  let chars ← get
  set (chars.dropWhile p)
  return chars.takeWhile p

/-- Passes over the longest run of characters of a class. -/
def skipWhile (p : Char → Bool) : Reader Unit := modify (·.dropWhile p)

/-- Takes a given text, if it comes next. -/
def accept (text : String) : Reader Bool := do
  let chars ← get
  if text.toList.isPrefixOf chars then
    set (chars.drop text.length)
    return true
  else
    return false

/-- Takes a given text, which must come next. -/
def expect (text : String) : Reader Unit := do
  if ← accept text then return () else failure

/-- Takes what a function finds at the front of the text, if it finds something. -/
def optional {α : Type} (f : List Char → Option (α × List Char)) : Reader (Option α) := do
  match f (← get) with
  | some (a, rest) =>
    set rest
    return some a
  | none => return none

end Reader

open Reader

/-! ### Blanks and comments -/

/-- A blank inside a line. -/
def isLineBlank (c : Char) : Bool := c = ' ' || c = '\t'

/-- A blank, line ends included. -/
def isAnyBlank (c : Char) : Bool := isLineBlank c || c = '\n'

/-- Whether a character may stand in a comment or in a string of one line. -/
def isAllowed (c : Char) : Bool := c = '\t' || (0x20 ≤ c.toNat && c.toNat != 0x7F)

/-- Whether a character may stand in a string of several lines. -/
def isAllowedInLines (c : Char) : Bool := c = '\n' || isAllowed c

/-- Passes over a comment, if one comes next. -/
def skipComment : Reader Unit := do
  if (← peek?) = some '#' then
    if (← Reader.takeWhile (· != '\n')).all isAllowed then return () else failure

/-- Passes over blanks, line ends and comments. -/
def skipLines : (fuel : Nat) → Reader Unit
  | 0 => failure
  | fuel + 1 => do
    skipWhile isAnyBlank
    if (← peek?) = some '#' then
      skipComment
      skipLines fuel

/-! ### Strings -/

/-- The value of a hexadecimal digit. -/
def hexValue? (c : Char) : Option Nat :=
  if c.isDigit then some (c.toNat - '0'.toNat)
  else if 'a' ≤ c ∧ c ≤ 'f' then some (c.toNat - 'a'.toNat + 10)
  else if 'A' ≤ c ∧ c ≤ 'F' then some (c.toNat - 'A'.toNat + 10)
  else none

/-- The character of a code point, unless it is a surrogate or too large. -/
def scalar? (n : Nat) : Option Char := if n.isValidChar then some (Char.ofNat n) else none

/-- The character whose code point the given count of hexadecimal digits spells. -/
def codePoint? (count : Nat) (chars : List Char) : Option Char := do
  let digits ← (chars.take count).mapM hexValue?
  if digits.length = count then scalar? (digits.foldl (fun n d => 16 * n + d) 0) else none

/-- The character that a letter stands for after a backslash. -/
def escaped? : Char → Option Char
  | 'b' => some '\x08'
  | 't' => some '\t'
  | 'n' => some '\n'
  | 'f' => some '\x0c'
  | 'r' => some '\r'
  | '"' => some '"'
  | '\\' => some '\\'
  | _ => none

/-- The text after a backslash that ends a line: blanks up to the line end, which may also be the
end of the text, and all blanks after it are passed over. -/
def afterLineEnd? (chars : List Char) : Option (List Char) :=
  match chars.dropWhile isLineBlank with
  | [] => some []
  | '\n' :: rest => some (rest.dropWhile isAnyBlank)
  | _ => none

/-- What a backslash and the text after it stand for, and the rest of the text. -/
def escape? (multiline : Bool) : List Char → Option (List Char × List Char)
  | 'u' :: rest => (codePoint? 4 rest).map fun c => ([c], rest.drop 4)
  | 'U' :: rest => (codePoint? 8 rest).map fun c => ([c], rest.drop 8)
  | c :: rest =>
    if multiline && isAnyBlank c then (afterLineEnd? (c :: rest)).map ([], ·)
    else (escaped? c).map ([·], rest)
  | [] => none

/-- The inside of a string with escapes, up to and with its closing quotation marks. -/
def basicBody? (multiline : Bool) : (fuel : Nat) → List Char → Option (List Char × List Char)
  | 0, _ | _, [] => none
  | fuel + 1, '"' :: rest =>
    if !multiline then some ([], rest)
    else
      match rest with
      | '"' :: '"' :: rest => some ([], rest)
      | _ => (basicBody? multiline fuel rest).map fun r => ('"' :: r.1, r.2)
  | fuel + 1, '\\' :: rest => do
    let (chars, rest) ← escape? multiline rest
    let (body, rest) ← basicBody? multiline fuel rest
    return (chars ++ body, rest)
  | fuel + 1, c :: rest =>
    if if multiline then isAllowedInLines c else isAllowed c then
      (basicBody? multiline fuel rest).map fun r => (c :: r.1, r.2)
    else
      none

/-- The inside of a string without escapes on one line. -/
def literalBody? : List Char → Option (List Char × List Char)
  | [] => none
  | '\'' :: rest => some ([], rest)
  | c :: rest => if isAllowed c then (literalBody? rest).map fun r => (c :: r.1, r.2) else none

/-- The inside of a string without escapes on several lines. -/
def literalLines? : List Char → Option (List Char × List Char)
  | [] => none
  | '\'' :: '\'' :: '\'' :: rest => some ([], rest)
  | c :: rest =>
    if isAllowedInLines c then (literalLines? rest).map fun r => (c :: r.1, r.2) else none

/-- A function that may fail, as a reader. -/
def mustTake {α : Type} (f : List Char → Option (α × List Char)) : Reader α := fun chars => f chars

/-- The inside of a string with escapes. -/
def basicBody (multiline : Bool) : Reader (List Char) := do
  let fuel := (← get).length
  mustTake (basicBody? multiline fuel)

/-- Up to two quotation marks directly after the closing ones, which belong to the string. -/
def extraQuotes (quote : Char) : Reader (List Char) := do
  let extra := ((← get).take 2).takeWhile (· = quote)
  modify (·.drop extra.length)
  return extra

/-- A string of several lines, after its opening quotation marks. -/
def linesString (quote : Char) : Reader (List Char) := do
  let _ ← accept "\n"
  let body ← if quote = '"' then basicBody true else mustTake literalLines?
  return body ++ (← extraQuotes quote)

/-- A string of one line, after its opening quotation mark. -/
def lineString (quote : Char) : Reader (List Char) :=
  if quote = '"' then basicBody false else mustTake literalBody?

/-! ### Keys -/

/-- Whether a character may stand in a key without quotation marks. -/
def isBareKeyChar (c : Char) : Bool := c.isAlphanum || c = '_' || c = '-'

/-- One part of a key. -/
def keyPart : Reader String := do
  match ← peek? with
  | some '"' =>
    expect "\""
    return String.ofList (← lineString '"')
  | some '\'' =>
    expect "'"
    return String.ofList (← lineString '\'')
  | _ =>
    match ← Reader.takeWhile isBareKeyChar with
    | [] => failure
    | part => return String.ofList part

/-- The parts of a key that follow its first part, each after a point. -/
def moreKeyParts : (fuel : Nat) → Reader (List String)
  | 0 => failure
  | fuel + 1 => do
    skipWhile isLineBlank
    if ← accept "." then
      skipWhile isLineBlank
      let part ← keyPart
      return part :: (← moreKeyParts fuel)
    else
      return []

/-- A key: one or more parts with points between them, and the blanks after it. -/
def key : Reader (List String) := do
  let part ← keyPart
  return part :: (← moreKeyParts ((← get).length + 1))

end Toml

end SchoolAlgebra
