import SchoolAlgebra.Cli.Request
import SchoolAlgebra.Text.Lines
import SchoolAlgebra.Toml.Document

/-!
# Settings

`Settings.resolve` completes a request from the configuration file and from the file of expressions.
What the command line says wins over the configuration, and the configuration over the defaults.

A configuration file that is not there configures nothing, whereas a file of expressions has to be
there. The table `output` of a configuration may set the mode and ask for JSON: what it sets as the
mode has to be one of the four, and a JSON setting that is not a boolean is passed over.
-/

namespace SchoolAlgebra

namespace Cli

/-- What a path leads to. -/
inductive Entry where
  | file (text : String)
  /-- Nothing, or something that is no file. -/
  | missing
  /-- The path cannot be followed. -/
  | unreachable
  deriving DecidableEq

/-- What is in a folder, by path. -/
abbrev Folder : Type := String → Entry

namespace Folder

/-- The greatest length of a name, in bytes. -/
def longestName : Nat := 255

/-- The greatest length of a path, in bytes. -/
def longestPath : Nat := 4095

/-- The parts of a path without those that lead nowhere. -/
def steps (path : String) : List String := (path.splitOn "/").filter fun s => s != "" && s != "."

/-- Whether some steps lead to a folder with files in it, or to where the path starts. -/
def isFolder (files : List (List String × String)) (here : List String) : Bool :=
  here.isEmpty || files.any fun file => here.isPrefixOf file.1 && here != file.1

/-- What the steps of a path lead to from a place in a folder. -/
def follow (files : List (List String × String)) (here : List String) : List String → Entry
  | [] =>
    match files.lookup here with
    | some text => .file text
    | none => .missing
  | step :: rest =>
    if !isFolder files here then .missing
    else if longestName < step.utf8ByteSize then .unreachable
    else if step = ".." then
      if here.isEmpty then .missing else follow files here.dropLast rest
    else follow files (here ++ [step]) rest

/-- The folder of some files. A path from the root leads out of it. -/
def ofFiles (files : List (String × String)) : Folder := fun path =>
  if longestPath < ("/".intercalate (steps path)).utf8ByteSize then .unreachable
  else if path.toList.head? = some '/' then .missing
  else follow (files.map fun file => (steps file.1, file.2)) [] (steps path)

end Folder

/-- Everything that is needed to work on the expressions. -/
structure Settings where
  /-- The expressions. -/
  expressions : List String
  /-- The text of the denominator under each of them. -/
  denominator? : Option (Given String)
  /-- What to do with each. -/
  mode : Given Mode
  /-- Whether results are JSON. -/
  json : Bool
  /-- Whether outlines are wanted. -/
  debug : Bool
  deriving DecidableEq

/-- Why a request has no settings. -/
inductive SettingsError where
  /-- The configuration sets the mode to something else than a mode. -/
  | invalidMode (text : String)
  /-- A file cannot be read. -/
  | unreadable (path : String)
  /-- The configuration file is not TOML. -/
  | notToml (path : String)
  deriving DecidableEq

namespace SettingsError

/-- The wording of an error. -/
def message : SettingsError → String
  | .invalidMode text => "invalid mode in config: " ++ text
  | .unreadable path => "cannot read " ++ path
  | .notToml path => "not a TOML document: " ++ path

end SettingsError

/-- What a configuration file says. -/
structure Configuration where
  /-- The mode, if it is set. -/
  mode? : Option Mode
  /-- Whether results are JSON, if it is set. -/
  json? : Option Bool
  deriving DecidableEq

namespace Configuration

/-- The name of the configuration file if the command line gives none. -/
def defaultPath : String := "exprlens.toml"

/-- The mode that a value sets. -/
def modeOf : Toml.Value → Except SettingsError Mode
  | .string text =>
    match Mode.ofName? text with
    | some mode => .ok mode
    | none => .error (.invalidMode text)
  | value => .error (.invalidMode value.text)

/-- What the top table of a configuration file says. -/
def ofFields (fields : Toml.Fields) : Except SettingsError Configuration :=
  match fields.find? "output" with
  | some (.table output) => do
    let mode? ← (Toml.Fields.find? output "mode").mapM modeOf
    let json? := match Toml.Fields.find? output "json" with
      | some (.boolean json) => some json
      | _ => none
    return ⟨mode?, json?⟩
  | _ => .ok ⟨none, none⟩

/-- What the configuration file of a folder says. -/
def load (folder : Folder) (path : String) : Except SettingsError Configuration :=
  match folder path with
  | .missing => .ok ⟨none, none⟩
  | .unreachable => .error (.unreadable path)
  | .file text =>
    match Toml.read? text with
    | none => .error (.notToml path)
    | some fields => ofFields fields

end Configuration

namespace Request

/-- A path, unless it is empty. -/
def path? (given? : Option String) : Option String := given?.filter (· != "")

/-- The configuration file to read. -/
def configPath (r : Request) : String := (path? r.config?).getD Configuration.defaultPath

/-- The file of expressions to read. -/
def filePath? (r : Request) : Option String := path? r.file?

end Request

/-- The expressions in the text of a file: its lines without the blanks around them, but for those
that are blank. -/
def listedExpressions (text : String) : List String :=
  ((Text.lines text).map Text.trimBlanks).filter (· != "")

/-- The expressions in a file of a folder, if a file is named. -/
def readExpressions (folder : Folder) : Option String → Except SettingsError (List String)
  | none => .ok []
  | some path =>
    match folder path with
    | .file text => .ok (listedExpressions text)
    | .missing | .unreachable => .error (.unreadable path)

/-- The settings that a request amounts to in a folder. -/
def Settings.resolve (folder : Folder) (r : Request) : Except SettingsError Settings := do
  let configuration ← Configuration.load folder r.configPath
  let listed ← readExpressions folder r.filePath?
  return {
    expressions := r.expressions ++ listed
    denominator? := r.over?
    mode := (r.mode?.or (configuration.mode?.map .value)).getD (.value .simplify)
    json := r.json || configuration.json?.getD false
    debug := r.debug }

end Cli

end SchoolAlgebra
