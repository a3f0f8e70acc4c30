import SchoolAlgebra.Expr.Eval

/-!
# Simplifying expressions

`Expr.simplify` replaces every part that has a value by that value and drops operations that change
nothing: adding or subtracting zero, multiplying or dividing by one. A product with zero is zero.

A part that is replaced keeps its span; an operand that takes the place of an operation has its own.

## Implementation notes

An expression is first tried as a whole. If it has no value its parts are simplified and joined
again by `negate`, `raise` and `combine`, which fold what has become constant meanwhile: `x * 0` has
no value, yet simplifies to a number.
-/

namespace SchoolAlgebra

namespace Number

/-- Whether the value is one. -/
def isOne (x : Number) : Bool := x = one

end Number

namespace Expr

/-- A number with the given value. -/
def ofNumber (v : Number) (s : Option Span) : Expr := .num (.finite v) s

/-- A simplified operand with its sign changed. -/
def negate (e : Expr) (s : Option Span) : Expr :=
  match e.value? with
  | some v => ofNumber v.neg s
  | none => .neg e s

/-- A simplified base raised to a number. -/
def raise (base : Expr) (exponent : Binary64) (s : Option Span) : Expr :=
  match base.value?.bind (·.pow? exponent) with
  | some v => ofNumber v s
  | none => .power base exponent s

/-- What an operation is equal to because of the value of one operand; none if the operation has to
stay. -/
def identity? (op : Operator) (left right : Expr) (s : Option Span) : Option Expr :=
  let leftIs (p : Number → Bool) := left.value?.any p
  let rightIs (p : Number → Bool) := right.value?.any p
  match op with
  | .add =>
    if leftIs Number.isZero then some right
    else if rightIs Number.isZero then some left
    else none
  | .subtract => if rightIs Number.isZero then some left else none
  | .multiply =>
    if leftIs Number.isOne then some right
    else if rightIs Number.isOne then some left
    else if leftIs Number.isZero || rightIs Number.isZero then some (ofNumber .zero s)
    else none
  | .divide => if rightIs Number.isOne then some left else none

/-- Two simplified operands joined by an operator. Two constants whose result is not finite stay as
they are, also where an identity would apply. -/
def combine (op : Operator) (left right : Expr) (s : Option Span) : Expr :=
  match left.value?, right.value? with
  | some x, some y =>
    match op.result? x y with
    | some v => ofNumber v s
    | none => .binary op left right s
  | _, _ => (identity? op left right s).getD (.binary op left right s)

/-- The expression as a number, if it has a value. -/
def folded? (e : Expr) : Option Expr := e.value?.map (ofNumber · e.span)

/-- The expression with constants folded and idle operations dropped. -/
def simplify : Expr → Expr
  | .num v s => .num v s
  | .var name coefficient s => .var name coefficient s
  | .neg e s => (folded? (.neg e s)).getD (negate e.simplify s)
  | .power base exponent s =>
    (folded? (.power base exponent s)).getD (raise base.simplify exponent s)
  | .binary op left right s =>
    (folded? (.binary op left right s)).getD (combine op left.simplify right.simplify s)

end Expr

end SchoolAlgebra
