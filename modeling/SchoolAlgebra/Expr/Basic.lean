import SchoolAlgebra.Binary64.Basic
import SchoolAlgebra.Operator
import SchoolAlgebra.Text.Span

/-!
# Expressions

An expression tree. Every node may carry the span of the source it was read from; a node built
otherwise has none.

A variable has a coefficient, which is one in every tree that was read from a source: there a
coefficient is a factor of its own.
-/

namespace SchoolAlgebra

/-- An algebraic expression. -/
inductive Expr where
  /-- A number. -/
  | num (value : Binary64) (span : Option Span)
  /-- A multiple of a variable. -/
  | var (name : String) (coefficient : Binary64) (span : Option Span)
  /-- Two operands joined by an operator. -/
  | binary (op : Operator) (left right : Expr) (span : Option Span)
  /-- An operand with its sign changed. -/
  | neg (operand : Expr) (span : Option Span)
  /-- A base raised to a number. -/
  | power (base : Expr) (exponent : Binary64) (span : Option Span)
  deriving DecidableEq

namespace Expr

/-- The span of the outermost node. -/
def span : Expr → Option Span
  | .num _ s | .var _ _ s | .binary _ _ _ s | .neg _ s | .power _ _ s => s

/-- The same expression with another span on its outermost node. -/
def withSpan (s : Option Span) : Expr → Expr
  | .num v _ => .num v s
  | .var n c _ => .var n c s
  | .binary o l r _ => .binary o l r s
  | .neg e _ => .neg e s
  | .power b x _ => .power b x s

@[simp] theorem span_withSpan (s : Option Span) (e : Expr) : (e.withSpan s).span = s := by
  cases e <;> rfl

/-- The offset at which the expression starts; zero if it has no span. -/
def start (e : Expr) : Nat := (e.span.map Span.start).getD 0

/-- The offset at which the expression ends; zero if it has no span. -/
def stop (e : Expr) : Nat := (e.span.map Span.stop).getD 0

/-- Two operands joined by an operator, spanning both. -/
def join (op : Operator) (left right : Expr) : Expr :=
  .binary op left right (some ⟨left.start, right.stop⟩)

/-- Whether the expression is a sum or a difference. -/
def isAdditive : Expr → Bool
  | .binary op .. => op.isAdditive
  | _ => false

/-- Whether the expression is a product or a quotient. -/
def isMultiplicative : Expr → Bool
  | .binary op .. => op.isMultiplicative
  | _ => false

/-- Whether the expression is a quotient. -/
def isFraction : Expr → Bool
  | .binary .divide .. => true
  | _ => false

end Expr

end SchoolAlgebra
