import SchoolAlgebra.Expr.Parse
import SchoolAlgebra.Hint.Analysis
import SchoolAlgebra.Hint.Highlight
import SchoolAlgebra.Text.Blank
import SchoolAlgebra.Text.Lines
import SchoolAlgebra.Text.Units

/-!
# Diagnostics for an editor

A document in an editor has an expression on each line. `Diagnostic.ofDocument` marks the first
error of each line that is not an expression, and the parts that a hint is about on each line that
is one.

Positions are a line, counted from zero, and an offset in UTF-16 units.
-/

namespace SchoolAlgebra

namespace Editor

/-- A position in a document. -/
structure Position where
  /-- The line, counted from zero. -/
  line : Nat
  /-- The offset in the line, in UTF-16 units. -/
  character : Nat
  deriving DecidableEq

/-- How serious a diagnostic is. -/
inductive Severity where
  /-- The line is not an expression. -/
  | error
  /-- The expression can be made simpler. -/
  | information
  deriving DecidableEq

/-- The number that stands for a severity in the protocol of editors. -/
def Severity.code : Severity → Nat
  | .error => 1
  | .information => 3

/-- A message about a part of a document. -/
structure Diagnostic where
  /-- Where the part begins. -/
  start : Position
  /-- Where the part ends. -/
  stop : Position
  /-- What there is to say. -/
  message : String
  /-- How serious it is. -/
  severity : Severity
  deriving DecidableEq

namespace Diagnostic

/-- The name of the program that the diagnostics are from. -/
def source : String := "exprlens"

/-- A diagnostic about a span of a line. -/
def atSpan (line : Nat) (text : String) (span : Span) (message : String) (severity : Severity) :
    Diagnostic :=
  ⟨⟨line, Text.unitOffset text span.start⟩, ⟨line, Text.unitOffset text span.stop⟩, message,
    severity⟩

/-- The diagnostic of a line that is not an expression: one character wide, also at its end. -/
def ofError (line : Nat) (text : String) (e : ParseError) : Diagnostic :=
  atSpan line text ⟨e.position, e.position + 1⟩ e.message .error

/-- The diagnostics of a hint. -/
def ofHint (line : Nat) (text : String) (h : Hint) : List Diagnostic :=
  h.lineSpans.map fun span => atSpan line text span h.describe .information

/-- The diagnostics of a line. -/
def ofLine (line : Nat) (text : String) : List Diagnostic :=
  match Expr.parse text with
  | .error e => [ofError line text e]
  | .ok e => (Hint.ofExpr e).flatMap (ofHint line text)

/-- The diagnostics of a document, blank lines left out. -/
def ofDocument (text : String) : List Diagnostic :=
  (Text.lines text).zipIdx.flatMap fun (content, line) =>
    if Text.trimBlanks content = "" then [] else ofLine line content

end Diagnostic

end Editor

end SchoolAlgebra
