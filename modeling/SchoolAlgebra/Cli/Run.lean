import SchoolAlgebra.Cli.Report
import SchoolAlgebra.Cli.Settings

/-!
# Runs of the command line

`run` is the whole program as a function of the arguments and of the files that it may read. The
expressions are worked on one after another; one that does not parse is reported and the others are
not affected.

The exit code is two if the arguments or the configuration are wrong, one if an expression or the
denominator does not parse, and zero otherwise.
-/

namespace SchoolAlgebra

namespace Cli

/-- What a run writes, and its exit code. -/
structure Outcome where
  /-- The exit code. -/
  exitCode : Nat
  /-- What is written to standard output. -/
  stdout : String
  /-- What is written to standard error. -/
  stderr : String
  deriving DecidableEq

namespace Outcome

/-- The outcome of no work: nothing is written. -/
def silent : Outcome := ⟨0, "", ""⟩

/-- The outcome of a source that does not parse. -/
def ofParseError (e : ParseError) (source fileName : String) : Outcome :=
  ⟨1, "", e.report source fileName ++ "\n"⟩

/-- The outcome once one more expression is worked on. What is reported of it is added to standard
output and its outline to standard error. If it does not parse, that is added to standard error and
the exit code is one from now on. -/
def next (style : Style) (denominator? : Option Denominator) (done : Outcome) (source : String) :
    Outcome :=
  match report style denominator? source with
  | .ok r =>
    { done with stdout := done.stdout ++ (r.output ++ "\n"), stderr := done.stderr ++ r.outline }
  | .error e =>
    { done with exitCode := 1, stderr := done.stderr ++ (e.report source "<expr>" ++ "\n") }

end Outcome

/-- The exit code of a run that stops at its arguments. -/
def Stop.exitCode : Stop → Nat
  | .help => 0
  | .misuse => 2

/-- The outcome for some expressions, which are worked on from the first to the last. -/
def runExpressions (style : Style) (denominator? : Option Denominator) (sources : List String) :
    Outcome :=
  sources.foldl (Outcome.next style denominator?) .silent

namespace Settings

/-- How the settings say that an expression is reported. Without a mode it is simplified. -/
def style (s : Settings) : Style := ⟨s.mode.value?.getD .simplify, s.json, s.debug⟩

/-- The source of the denominator, which only the analysis looks at. -/
def denominatorSource? (s : Settings) : Option String :=
  if s.style.mode = .analyze then s.denominator?.bind Given.value? else none

/-- The outcome of a run with settings. -/
def run (s : Settings) : Outcome :=
  match s.denominatorSource? with
  | none => runExpressions s.style none s.expressions
  | some source =>
    match Expr.parse source with
    | .ok e => runExpressions s.style (some ⟨source, e⟩) s.expressions
    | .error e => .ofParseError e source "<denominator>"

end Settings

/-- The outcome of a request. -/
def Request.run (folder : Folder) (r : Request) : Outcome :=
  match Settings.resolve folder r with
  | .ok settings => settings.run
  | .error e => ⟨2, "", "error: " ++ e.message ++ "\n"⟩

/-- The outcome of a run with some arguments, or the reason to stop at them. -/
def run (folder : Folder) (arguments : List String) : Except Stop Outcome :=
  (Request.ofArguments arguments).map (Request.run folder)

end Cli

end SchoolAlgebra
