import SchoolAlgebra.Cli.Run

/-!
# The program

Reads the arguments and the two files that they may name, and writes what `Cli.Request.run` answers.
-/

namespace SchoolAlgebra

namespace Cli

/-- How the command line is used. -/
def usage : String :=
  "usage: exprlens [-h] [-f FILE] [--over DENOMINATOR] [-m MODE] [--json] [--config FILE] " ++
    "[--debug] [EXPR ...]\n\nMODE is one of " ++ ", ".intercalate (Mode.all.map Mode.name) ++ ".\n"

/-- What a path leads to. -/
def readEntry (path : String) : IO Entry := do
  try
    return .file (← IO.FS.readFile path)
  catch error =>
    match error with
    | .noFileOrDirectory .. | .inappropriateType .. => return .missing
    | _ => return .unreachable

/-- The files that a request may read. -/
def readFolder (r : Request) : IO Folder := do
  let paths := r.configPath :: r.filePath?.toList
  let entries ← paths.mapM fun path => do return (path, ← readEntry path)
  return fun path => (entries.lookup path).getD .missing

/-- Runs the program on its arguments and answers with its exit code. -/
def runProgram (arguments : List String) : IO UInt32 := do
  match Request.ofArguments arguments with
  | .error stop =>
    if stop = .help then IO.print usage else IO.eprint usage
    return stop.exitCode.toUInt32
  | .ok request =>
    let outcome := request.run (← readFolder request)
    IO.print outcome.stdout
    IO.eprint outcome.stderr
    return outcome.exitCode.toUInt32

end Cli

end SchoolAlgebra

/-- Runs the program. -/
def main (arguments : List String) : IO UInt32 := SchoolAlgebra.Cli.runProgram arguments
