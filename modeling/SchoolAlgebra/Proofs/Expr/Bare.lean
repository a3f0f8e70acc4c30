import SchoolAlgebra.Expr.Print

/-!
# Expressions without their spans

`Expr.bare` forgets where an expression was read. It is what two sources have in common that differ
in layout only, and what a derivation in the grammar says of an expression.
-/

namespace SchoolAlgebra

namespace Expr

/-- The expression with no span on any node. -/
def bare : Expr → Expr
  | .num v _ => .num v none
  | .var name coefficient _ => .var name coefficient none
  | .binary op left right _ => .binary op left.bare right.bare none
  | .neg e _ => .neg e.bare none
  | .power base exponent _ => .power base.bare exponent none

@[simp] theorem bare_withSpan (s : Option Span) (e : Expr) : (e.withSpan s).bare = e.bare := by
  cases e <;> rfl

@[simp] theorem bare_join (op : Operator) (left right : Expr) :
    (join op left right).bare = .binary op left.bare right.bare none := rfl

/-- The expression with every span replaced. -/
def mapSpan (f : Option Span → Option Span) : Expr → Expr
  | .num v s => .num v (f s)
  | .var name coefficient s => .var name coefficient (f s)
  | .binary op left right s => .binary op (left.mapSpan f) (right.mapSpan f) (f s)
  | .neg e s => .neg (e.mapSpan f) (f s)
  | .power base exponent s => .power (base.mapSpan f) exponent (f s)

theorem bare_eq_mapSpan (e : Expr) : e.bare = e.mapSpan fun _ => none := by
  induction e with
  | num | var => rfl
  | neg _ _ ih | power _ _ _ ih => rw [bare, ih, mapSpan]
  | binary _ _ _ _ ihl ihr => rw [bare, ihl, ihr, mapSpan]

end Expr

end SchoolAlgebra
