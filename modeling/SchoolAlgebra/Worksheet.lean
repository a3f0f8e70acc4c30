import SchoolAlgebra.Expr.Outline
import SchoolAlgebra.Expr.Parse
import SchoolAlgebra.Expr.Print
import SchoolAlgebra.Expr.Simplify
import SchoolAlgebra.Hint.Analysis

/-!
# Worksheets

A worksheet holds one expression. Each step asks something about it or replaces it, and has an
answer. A step that has to read a text which is not an expression answers with the error and leaves
the worksheet as it was.
-/

namespace SchoolAlgebra

namespace Worksheet

/-- A step of working on an expression. -/
inductive Step where
  /-- Simplifies the expression. -/
  | simplify
  /-- Prints the expression and reads it again. -/
  | reparse
  /-- Asks for the text. -/
  | render
  /-- Asks for the outline. -/
  | outline
  /-- Asks for the value. -/
  | evaluate
  /-- Asks whether the expression is a sum, a product or quotient, a quotient. -/
  | predicates
  /-- Asks for the hints. -/
  | analyze
  /-- Asks for the hints with the expression over a denominator. -/
  | over (denominator : String)
  /-- Joins the expression to a right operand. -/
  | binary (op : Operator) (right : String)
  /-- Raises the expression to a number. -/
  | power (exponent : Binary64)
  /-- Changes the sign of the expression. -/
  | neg

/-- What a step answers. -/
inductive Answer where
  | text (text : String)
  | value (value? : Option Number)
  | predicates (isAdditive isMultiplicative isFraction : Bool)
  | hints (hints : List Hint)
  /-- The text that was to be read is not an expression. -/
  | failure (source : String) (error : ParseError)

/-- The expression after a step that replaces it, and its text. -/
def replace (e : Expr) : Expr × Answer := (e, .text e.render)

/-- What a step makes of the expression that a text is read as. -/
def reading (e : Expr) (text : String) (use : Expr → Expr × Answer) : Expr × Answer :=
  match Expr.parse text with
  | .ok other => use other
  | .error error => (e, .failure text error)

/-- The expression after a step, and the answer. -/
def step (e : Expr) : Step → Expr × Answer
  | .simplify => replace e.simplify
  | .reparse => reading e e.render fun other => (other, .text e.render)
  | .render => (e, .text e.render)
  | .outline => (e, .text e.outline)
  | .evaluate => (e, .value e.value?)
  | .predicates => (e, .predicates e.isAdditive e.isMultiplicative e.isFraction)
  | .analyze => (e, .hints (Hint.ofExpr e))
  | .over denominator => reading e denominator fun other => (e, .hints (Hint.ofFraction e other))
  | .binary op right => reading e right fun other => replace (.binary op e other none)
  | .power exponent => replace (.power e exponent e.span)
  | .neg => replace (.neg e e.span)

/-- The answers to some steps, one after another. -/
def run (e : Expr) : List Step → List Answer
  | [] => []
  | s :: rest =>
    let (e, answer) := step e s
    answer :: run e rest

end Worksheet

end SchoolAlgebra
