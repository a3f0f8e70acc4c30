import SchoolAlgebra.Cli.Request
import SchoolAlgebra.Expr.Outline
import SchoolAlgebra.Expr.Parse
import SchoolAlgebra.Expr.Print
import SchoolAlgebra.Expr.Simplify
import SchoolAlgebra.Hint.Analysis
import SchoolAlgebra.Token.Display

/-!
# The report on an expression

`report` does with an expression what a mode says and writes the result as text or as JSON. In every
mode but that of tokens the expression has to parse, and its outline can be had besides.

Excerpts in the text of a hint are cut out of the source of the expression, but for those of the
denominator's share of a common factor.
-/

namespace SchoolAlgebra

namespace Cli

/-- A denominator: its source and the expression read from it. -/
structure Denominator where
  /-- The source. -/
  source : String
  /-- The expression. -/
  expr : Expr

/-- How an expression is reported. -/
structure Style where
  /-- What to do with it. -/
  mode : Mode
  /-- Whether the result is JSON. -/
  json : Bool
  /-- Whether the outline is wanted. -/
  debug : Bool

/-- The report on one expression. -/
structure Report where
  /-- The result, without a line end. -/
  output : String
  /-- The outline, if it is wanted. -/
  outline : String
  deriving DecidableEq

/-- A JSON object that begins with the source. -/
def sourceJson (source : String) (fields : List (String × Json)) : Json :=
  .object (("input", .string source) :: fields)

/-! ### Tokens -/

/-- A word filled up with spaces. -/
def padRight (width : Nat) (word : String) : String := word ++ Text.spaces (width - word.length)

/-- The line of a displayed token. -/
def tokenLine (t : DisplayToken) : String :=
  padRight 8 t.kind.name ++ " " ++ t.text ++ "  [" ++ toString t.span.start ++ ":" ++
    toString t.span.stop ++ "]"

/-- A displayed token as a JSON object. -/
def tokenJson (t : DisplayToken) : Json :=
  .object [("kind", .string t.kind.name), ("value", .string t.text), ("span", Hint.spanJson t.span)]

/-- The displayed tokens of a source. -/
def tokensReport (source : String) (json : Bool) : String :=
  let tokens := Token.display (Token.scan source)
  if json then (sourceJson source [("tokens", .array (tokens.map tokenJson))]).text
  else "\n".intercalate (tokens.map tokenLine)

/-! ### Values -/

/-- The value of an expression, or the expression itself if it has none. -/
def valueReport (source : String) (e : Expr) (json : Bool) : String :=
  match e.value? with
  | some v =>
    if json then (sourceJson source [("value", .number (.finite v))]).asciiText
    else (Binary64.finite v).exactText
  | none =>
    if json then (sourceJson source [("value", .null), ("result", .string e.render)]).text
    else e.render

/-- The simplified expression. -/
def simplifiedReport (source : String) (e : Expr) (json : Bool) : String :=
  let text := e.simplify.render
  if json then (sourceJson source [("result", .string text)]).text else text

/-! ### Hints -/

/-- The texts of spans. -/
def excerpts (source : String) (spans : List Span) : String :=
  ", ".intercalate (spans.map (·.excerpt source))

/-- The line of a hint: its description and the texts that it is about. -/
def hintLine (source denominatorSource : String) (h : Hint) : String :=
  h.describe ++ ": " ++
    match h with
    | .commonFactor _ numerator denominator =>
      excerpts source numerator ++ " / " ++ excerpts denominatorSource denominator
    | .likeTerms _ _ terms => excerpts source terms
    | .reducibleFraction _ numerator denominator =>
      numerator.excerpt source ++ "/" ++ denominator.excerpt source

/-- The hints for an expression, or for it over a denominator. -/
def hintsReport (source : String) (e : Expr) (denominator? : Option Denominator) (json : Bool) :
    String :=
  let hints := match denominator? with
    | some denominator => Hint.ofFraction e denominator.expr
    | none => Hint.ofExpr e
  let denominatorSource := (denominator?.map Denominator.source).getD ""
  if json then (sourceJson source [("opportunities", .array (hints.map Hint.toJson))]).text
  else if hints.isEmpty then "no simplification opportunities"
  else "\n".intercalate (hints.map (hintLine source denominatorSource))

/-! ### The report -/

/-- The report on the expression of a source. -/
def report (style : Style) (denominator? : Option Denominator) (source : String) :
    Except ParseError Report :=
  match style.mode with
  | .tokens => .ok ⟨tokensReport source style.json, ""⟩
  | mode => do
    let e ← Expr.parse source
    let output := match mode with
      | .evaluate => valueReport source e style.json
      | .analyze => hintsReport source e denominator? style.json
      | _ => simplifiedReport source e style.json
    return ⟨output, if style.debug then e.outline else ""⟩

end Cli

end SchoolAlgebra
