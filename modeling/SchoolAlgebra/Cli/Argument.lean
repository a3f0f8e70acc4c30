import SchoolAlgebra.Text.DecimalDigit

/-!
# Command-line arguments

`Word.recognizeAll` says what each argument is: an option, perhaps with a value attached, an
operand, or the separator after which all arguments are operands.

Options have a long name after two hyphens, of which any unambiguous beginning will do, and some
have a letter after one hyphen. A value is attached to a long name by an equals sign and to a letter
directly or by an equals sign. What is attached in this way to an option without a value is read as
further letters, all of which must be letters of options.

An argument that begins with a hyphen is an operand nevertheless if it is a lone hyphen, looks like
a negative number, or holds a space.
-/

namespace SchoolAlgebra

namespace Cli

/-- An option of the command line. -/
inductive Flag where
  /-- Asks for help. -/
  | help
  /-- Names a file with an expression on each line. -/
  | file
  /-- Gives the denominator under each expression. -/
  | over
  /-- Says what to do with each expression. -/
  | mode
  /-- Asks for results as JSON. -/
  | json
  /-- Names the configuration file. -/
  | config
  /-- Asks for the outline of each expression. -/
  | debug
  deriving DecidableEq

namespace Flag

/-- All options. -/
def all : List Flag := [.help, .file, .over, .mode, .json, .config, .debug]

/-- The name after two hyphens. -/
def name : Flag → String
  | .help => "help"
  | .file => "file"
  | .over => "over"
  | .mode => "mode"
  | .json => "json"
  | .config => "config"
  | .debug => "debug"

/-- The option with a given letter. -/
def ofLetter? : Char → Option Flag
  | 'h' => some .help
  | 'f' => some .file
  | 'm' => some .mode
  | _ => none

/-- Whether the option has a value. -/
def takesValue : Flag → Bool
  | .file | .over | .mode | .config => true
  | .help | .json | .debug => false

/-- The options whose name begins with a text. -/
def withBeginning (text : List Char) : List Flag :=
  all.filter fun f => text.isPrefixOf f.name.toList

/-- The option whose name is a text. -/
def ofName? (text : List Char) : Option Flag := all.find? fun f => f.name.toList = text

@[simp] theorem ofName?_name (f : Flag) : ofName? f.name.toList = some f := by
  cases f <;> rfl

end Flag

/-- Why the command line stops the program before it does anything. -/
inductive Stop where
  /-- Help is asked for. -/
  | help
  /-- The arguments are not understood. -/
  | misuse
  deriving DecidableEq

/-- What an argument is. -/
inductive Word where
  /-- Text that is not an option: an operand, or the value of the option before it. -/
  | plain (text : String)
  /-- The first argument of two hyphens. -/
  | separator
  /-- An option with the value attached to it, after the options without value whose letters stand
  before its own. -/
  | option (before : List Flag) (flag : Flag) (attached : Option String)
  /-- An option with a value that it cannot have. -/
  | malformed
  /-- Text that looks like an option and is none. -/
  | unknown
  deriving DecidableEq

namespace Word

/-- What the letter of an option and the text directly after it are: the option with its value, or,
if it has none, with the options whose letters follow. There are two conventions for a letter among
them that no option has, as in `-hx`. The one followed here is the older one: the whole argument is
malformed, and the options before that letter are not looked at, so that this is misuse. By the
later one they count first, and the answer is help. -/
def ofLetters (before : List Flag) (flag : Flag) : List Char → Word
  | [] => .option before flag none
  | c :: rest =>
    if flag.takesValue then .option before flag (some (String.ofList (c :: rest)))
    else
      match Flag.ofLetter? c with
      | some next => ofLetters (before ++ [flag]) next rest
      | none => .malformed

/-- What the letter of an option and the text after an equals sign are. -/
def ofLetterEquals (flag : Flag) (value : List Char) : Word :=
  if flag.takesValue then .option [] flag (some (String.ofList value))
  else if value.isEmpty then .malformed
  else ofLetters [] flag value

/-- A long name with a value attached to it. -/
def withValue (flag : Flag) (value : List Char) : Word :=
  if flag.takesValue then .option [] flag (some (String.ofList value)) else .malformed

/-- Whether a text is a minus sign before a decimal numeral; a line feed may follow. -/
def looksNegative (chars : List Char) : Bool :=
  match chars with
  | '-' :: rest =>
    let rest := if rest.getLast? = some '\n' then rest.dropLast else rest
    let isNumeral (digits : List Char) := !digits.isEmpty && digits.all Text.isDecimalDigit
    match rest.dropWhile Text.isDecimalDigit with
    | '.' :: fraction => isNumeral fraction
    | _ => isNumeral rest
  | _ => false

/-- An argument that is no option by its beginning. -/
def ofOther (chars : List Char) : Word :=
  if looksNegative chars || chars.contains ' ' then .plain (String.ofList chars) else .unknown

/-- What an argument is that begins with two hyphens, given the text after them. -/
def recognizeLong (body : List Char) : Except Stop Word :=
  let name := body.takeWhile (· != '=')
  let value? := (body.dropWhile (· != '=')).tail?
  let candidates := match Flag.ofName? name with
    | some flag => [flag]
    | none => Flag.withBeginning name
  match candidates, value? with
  | [], _ => .ok (ofOther ('-' :: '-' :: body))
  | [flag], none => .ok (.option [] flag none)
  | [flag], some value => .ok (withValue flag value)
  | _, _ => .error .misuse

/-- What an argument is that begins with one hyphen, given the character after it and the rest. -/
def recognizeShort (c : Char) (rest : List Char) : Word :=
  match Flag.ofLetter? c with
  | some flag =>
    match rest with
    | '=' :: value => ofLetterEquals flag value
    | _ => ofLetters [] flag rest
  | none => ofOther ('-' :: c :: rest)

/-- What an argument is before a separator. -/
def recognize (argument : String) : Except Stop Word :=
  match argument.toList with
  | '-' :: '-' :: body => recognizeLong body
  | '-' :: c :: rest => .ok (recognizeShort c rest)
  | _ => .ok (.plain argument)

/-- What each argument is. An ambiguous beginning of a name stops the program at once. -/
def recognizeAll : List String → Except Stop (List Word)
  | [] => .ok []
  | argument :: rest =>
    if argument = "--" then .ok (.separator :: rest.map .plain)
    else do return (← recognize argument) :: (← recognizeAll rest)

end Word

end Cli

end SchoolAlgebra
