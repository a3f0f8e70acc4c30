import SchoolAlgebra.Cli.Argument

/-!
# What the command line asks for

`Request.ofArguments` turns the arguments into a `Request`, or into the reason to stop. Options may
be repeated, and the last value counts; two hyphens attached to an option are no value, and take
back the one before. All operands have to stand together: an operand after an option that comes
after an operand is a mistake, and so is an unknown option.

Mistakes of this kind are only reported once all arguments have been gone through, so that a request
for help among them is answered first; a missing or wrong value is reported at once.
-/

namespace SchoolAlgebra

/-- What to do with an expression. -/
inductive Mode where
  | evaluate
  | simplify
  | analyze
  | tokens
  deriving DecidableEq

namespace Mode

/-- All modes. -/
def all : List Mode := [.evaluate, .simplify, .analyze, .tokens]

/-- The word for a mode. -/
def name : Mode → String
  | .evaluate => "evaluate"
  | .simplify => "simplify"
  | .analyze => "analyze"
  | .tokens => "tokens"

/-- The mode that a word names. -/
def ofName? (text : String) : Option Mode := all.find? fun m => m.name = text

@[simp] theorem ofName?_name (m : Mode) : ofName? m.name = some m := by
  cases m <;> rfl

end Mode

namespace Cli

/-- What an option was given. -/
inductive Given (α : Type) where
  /-- Two hyphens, which are no value. -/
  | nothing
  | value (value : α)
  deriving DecidableEq

namespace Given

/-- What the text attached to an option gives. There are two conventions for two hyphens, as in
`--over=--`. The one followed here is the older one: they are dropped, and the option is left
without a value. By the later one they are the value. -/
def ofText (text : String) : Given String := if text = "--" then .nothing else .value text

/-- The value, if it is one. -/
def value? {α : Type} : Given α → Option α
  | .nothing => none
  | .value a => some a

@[simp] theorem value?_ofText {text : String} (h : text ≠ "--") :
    (ofText text).value? = some text := by
  simp [ofText, h, value?]

end Given

/-- What the command line asks for. -/
structure Request where
  /-- The expressions among the arguments. -/
  expressions : List String
  /-- The file with further expressions. -/
  file? : Option String
  /-- The denominator under each expression. -/
  over? : Option (Given String)
  /-- What to do. -/
  mode? : Option (Given Mode)
  /-- Whether JSON is asked for. -/
  json : Bool
  /-- The configuration file. -/
  config? : Option String
  /-- Whether outlines are asked for. -/
  debug : Bool
  deriving DecidableEq

namespace Request

/-- Nothing is asked for. -/
def empty : Request := ⟨[], none, none, none, false, none, false⟩

/-- The request after an option without value. -/
def withFlag (r : Request) : Flag → Except Stop Request
  | .help => .error .help
  | .json => .ok { r with json := true }
  | .debug => .ok { r with debug := true }
  | _ => .error .misuse

/-- The mode that an option was given; none if a text names no mode. -/
def modeOf? : Given String → Option (Given Mode)
  | .nothing => some .nothing
  | .value text => (Mode.ofName? text).map .value

/-- The request after an option that was given something. -/
def withValue (r : Request) (given : Given String) : Flag → Except Stop Request
  | .file => .ok { r with file? := given.value? }
  | .over => .ok { r with over? := some given }
  | .config => .ok { r with config? := given.value? }
  | .mode =>
    match modeOf? given with
    | some mode => .ok { r with mode? := some mode }
    | none => .error .misuse
  | _ => .error .misuse

end Request

/-- Where the arguments stand with respect to the operands. -/
inductive OperandPhase where
  /-- No operand has come. -/
  | before
  /-- The last argument was an operand. -/
  | within
  /-- An option has come after the operands. -/
  | after
  deriving DecidableEq

/-- The arguments as far as they have been gone through. -/
structure Progress where
  /-- What they ask for. -/
  request : Request
  /-- Whether operands may still come. -/
  phase : OperandPhase
  /-- Whether an argument was out of place. -/
  misplaced : Bool

namespace Progress

/-- No argument has been gone through. -/
def start : Progress := ⟨.empty, .before, false⟩

/-- The progress after operands, of which a separator is an empty list. -/
def addOperands (p : Progress) (operands : List String) : Progress :=
  if p.phase = .after then { p with misplaced := true }
  else
    { p with
      request := { p.request with expressions := p.request.expressions ++ operands }
      phase := .within }

/-- The progress after an argument that is not an operand. -/
def closeOperands (p : Progress) : Progress :=
  { p with phase := if p.phase = .within then .after else p.phase }

/-- The progress after some options without value, and an option with its value if it takes one. -/
def addOption (p : Progress) (before : List Flag) (flag : Flag) (value? : Option String) :
    Except Stop Progress := do
  let request ← before.foldlM Request.withFlag p.request
  let request ← match value? with
    | some value => request.withValue (.ofText value) flag
    | none => request.withFlag flag
  return { p.closeOperands with request }

/-- The progress after an option that is unknown. -/
def addUnknown (p : Progress) : Progress := { p.closeOperands with misplaced := true }

/-- The progress after all words. The value of an option that has none attached is the next word. -/
def addWords (p : Progress) : List Word → Except Stop Progress
  | [] => .ok p
  | .plain text :: rest => (p.addOperands [text]).addWords rest
  | .separator :: rest => (p.addOperands []).addWords rest
  | .malformed :: _ => .error .misuse
  | .unknown :: rest => p.addUnknown.addWords rest
  | .option before flag (some value) :: rest => do
    (← p.addOption before flag (some value)).addWords rest
  | .option before flag none :: rest =>
    if flag.takesValue then
      match rest with
      | .plain value :: rest => do (← p.addOption before flag (some value)).addWords rest
      | _ => .error .misuse
    else do (← p.addOption before flag none).addWords rest

end Progress

/-- What the arguments ask for. -/
def Request.ofArguments (arguments : List String) : Except Stop Request := do
  let progress ← Progress.start.addWords (← Word.recognizeAll arguments)
  if progress.misplaced then .error .misuse else .ok progress.request

end Cli

end SchoolAlgebra
