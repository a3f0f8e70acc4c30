import SchoolAlgebra.Binary64.Power
import SchoolAlgebra.Expr.Basic

/-!
# The value of an expression

`Expr.valueAt? ρ e` is the value of `e` in binary64 arithmetic when the variables have the values
that `ρ` gives them. There is none if a variable without a value occurs, a literal is infinite, or
an operation has no finite result.

`Expr.value?` is the value of a constant expression: no variable has a value.
-/

namespace SchoolAlgebra

/-- Values for some of the variables. -/
abbrev Assignment : Type := String → Option Number

/-- The assignment that gives no variable a value. -/
def Assignment.empty : Assignment := fun _ => none

namespace Operator

/-- The result of an operator on two numbers, if it is a finite number. -/
def result? : Operator → Number → Number → Option Number
  | .add => Number.add?
  | .subtract => Number.sub?
  | .multiply => Number.mul?
  | .divide => Number.div?

end Operator

namespace Expr

/-- The value of an expression under an assignment. -/
def valueAt? (ρ : Assignment) : Expr → Option Number
  | .num v _ => v.finite?
  | .var name coefficient _ => do
    let c ← coefficient.finite?
    let x ← ρ name
    c.mul? x
  | .binary op left right _ => do
    let x ← left.valueAt? ρ
    let y ← right.valueAt? ρ
    op.result? x y
  | .neg e _ => (e.valueAt? ρ).map Number.neg
  | .power base exponent _ => do
    let x ← base.valueAt? ρ
    x.pow? exponent

/-- The value of an expression without variables. -/
def value? (e : Expr) : Option Number := e.valueAt? .empty

@[simp] theorem value?_num (v : Binary64) (s : Option Span) : (num v s).value? = v.finite? := rfl

@[simp] theorem value?_var (name : String) (c : Binary64) (s : Option Span) :
    (var name c s).value? = none := by
  cases c <;> rfl

@[simp] theorem value?_binary (op : Operator) (l r : Expr) (s : Option Span) :
    (binary op l r s).value? = l.value?.bind fun x => r.value?.bind fun y => op.result? x y := rfl

@[simp] theorem value?_neg (e : Expr) (s : Option Span) :
    (neg e s).value? = e.value?.map Number.neg := rfl

@[simp] theorem value?_power (b : Expr) (x : Binary64) (s : Option Span) :
    (power b x s).value? = b.value?.bind fun v => v.pow? x := rfl

end Expr

end SchoolAlgebra
