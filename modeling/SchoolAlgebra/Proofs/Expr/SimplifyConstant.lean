import SchoolAlgebra.Proofs.Expr.Exact
import SchoolAlgebra.Proofs.Expr.Nodes
import SchoolAlgebra.Proofs.Expr.SimplifyStable

/-!
# Simplifying expressions without a value

An expression that has a value simplifies to that value. An expression without one may still
simplify to a number, and this is so even if no variable occurs: `0 * (1 / 0)` has no value and
simplifies to zero.

The cause is one identity. Where only one operand is constant, adding or subtracting zero and
multiplying or dividing by one leave the other operand, which has no value either. A product with
zero leaves nothing of it. So what an expression simplifies to is its value with products that are
decided by one factor, `Expr.lazyValue?`, and the two agree on all parts of an expression exactly if
no product in it has a factor zero beside a factor without a value.

## Main definitions

* `Expr.lazyValue?` — the value if a zero factor decides a product
* `Expr.IsVoidProduct` — a product of zero and something without a value

## Main results

* `Expr.value?_simplify` — what an expression simplifies to
* `Expr.value?_simplify_eq_iff` — where simplifying and evaluating agree
-/

namespace SchoolAlgebra

/-- The result of an operator if a zero factor decides a product, also where the other factor has no
value. -/
def Operator.lazyResult? (op : Operator) : Option Number → Option Number → Option Number
  | some x, some y => op.result? x y
  | some x, none => if op = .multiply ∧ x.isZero = true then some .zero else none
  | none, some y => if op = .multiply ∧ y.isZero = true then some .zero else none
  | none, none => none

/-- One is not zero. -/
theorem Number.isZero_eq_false_of_isOne {x : Number} (h : x.isOne = true) : x.isZero = false := by
  obtain rfl : x = one := of_decide_eq_true h
  rfl

namespace Expr

variable {e left right : Expr} {op : Operator} {s : Option Span} {v : Number}

/-- The value of an expression if a zero factor decides a product. -/
def lazyValue? : Expr → Option Number
  | .num v _ => v.finite?
  | .var .. => none
  | .neg operand _ => operand.lazyValue?.map Number.neg
  | .power base exponent _ => base.lazyValue?.bind fun x => x.pow? exponent
  | .binary op left right _ => op.lazyResult? left.lazyValue? right.lazyValue?

/-- A value is a lazy value. -/
theorem lazyValue?_of_value?_eq_some (h : e.value? = some v) : e.lazyValue? = some v := by
  induction e generalizing v with
  | num w s => exact h
  | var name coefficient s => simp at h
  | neg operand s ih =>
    obtain ⟨x, hx, rfl⟩ := Option.map_eq_some_iff.mp (value?_neg operand s ▸ h)
    rw [lazyValue?, ih hx, Option.map_some]
  | power base exponent s ih =>
    obtain ⟨x, hx, hpow⟩ := Option.bind_eq_some_iff.mp (value?_power base exponent s ▸ h)
    rw [lazyValue?, ih hx, Option.bind_some, hpow]
  | binary op left right s ihl ihr =>
    obtain ⟨x, hx, h⟩ := Option.bind_eq_some_iff.mp (value?_binary op left right s ▸ h)
    obtain ⟨y, hy, hresult⟩ := Option.bind_eq_some_iff.mp h
    rw [lazyValue?, ihl hx, ihr hy, ← hresult]
    rfl

/-! ### Joining simplified operands

Joining is compared with the lazy result of the operator, for operands that may or may not have
values. If an operand has none, there is no result on either side, except for a product with a
factor zero. -/

theorem value?_negate (e : Expr) (s : Option Span) :
    (negate e s).value? = e.value?.map Number.neg := by
  cases h : e.value? with
  | none => simp [negate, h]
  | some x => simp [negate, h]

theorem value?_raise (base : Expr) (exponent : Binary64) (s : Option Span) :
    (raise base exponent s).value? = base.value?.bind fun x => x.pow? exponent := by
  cases h : base.value?.bind fun x => x.pow? exponent with
  | none => simp [raise, h]
  | some v => simp [raise, h]

/-- What stands for an operation on something without a value and a constant has a value only if it
is a product with zero. -/
theorem value?_combine_of_left_eq_none {y : Number} (hl : left.value? = none)
    (hr : right.value? = some y) :
    (combine op left right s).value? = op.lazyResult? none (some y) := by
  cases op with
  | add | subtract =>
    cases hzero : y.isZero <;> simp [combine, identity?, Operator.lazyResult?, hl, hr, hzero]
  | multiply =>
    cases hone : y.isOne with
    | true =>
      have hzero := Number.isZero_eq_false_of_isOne hone
      simp [combine, identity?, Operator.lazyResult?, hl, hr, hone, hzero]
    | false =>
      cases hzero : y.isZero <;>
        simp [combine, identity?, Operator.lazyResult?, hl, hr, hone, hzero]
  | divide =>
    cases hone : y.isOne <;> simp [combine, identity?, Operator.lazyResult?, hl, hr, hone]

theorem value?_combine_of_right_eq_none {x : Number} (hl : left.value? = some x)
    (hr : right.value? = none) :
    (combine op left right s).value? = op.lazyResult? (some x) none := by
  cases op with
  | add => cases hzero : x.isZero <;> simp [combine, identity?, Operator.lazyResult?, hl, hr, hzero]
  | multiply =>
    cases hone : x.isOne with
    | true =>
      have hzero := Number.isZero_eq_false_of_isOne hone
      simp [combine, identity?, Operator.lazyResult?, hl, hr, hone, hzero]
    | false =>
      cases hzero : x.isZero <;>
        simp [combine, identity?, Operator.lazyResult?, hl, hr, hone, hzero]
  | subtract | divide => simp [combine, identity?, Operator.lazyResult?, hl, hr]

theorem value?_combine (op : Operator) (left right : Expr) (s : Option Span) :
    (combine op left right s).value? = op.lazyResult? left.value? right.value? := by
  cases hl : left.value? with
  | none =>
    cases hr : right.value? with
    | none => cases op <;> simp [combine, identity?, Operator.lazyResult?, hl, hr]
    | some y => exact value?_combine_of_left_eq_none hl hr
  | some x =>
    cases hr : right.value? with
    | none => exact value?_combine_of_right_eq_none hl hr
    | some y => cases h : op.result? x y <;> simp [combine, Operator.lazyResult?, hl, hr, h]

/-- **What an expression simplifies to has its lazy value.** -/
theorem value?_simplify (e : Expr) : e.simplify.value? = e.lazyValue? := by
  induction e with
  | num v s => rfl
  | var name coefficient s => exact value?_var name coefficient s
  | neg operand s ih => rw [simplify_neg, value?_negate, ih, lazyValue?]
  | power base exponent s ih => rw [simplify_power, value?_raise, ih, lazyValue?]
  | binary op left right s ihl ihr =>
    rw [simplify_binary, value?_combine, ihl, ihr, lazyValue?]

/-! ### Void products -/

/-- The node is a product, one factor is zero and the other has no value. -/
def IsVoidProduct : Expr → Prop
  | .binary op left right _ => op = .multiply ∧
      (left.value?.any Number.isZero = true ∧ right.value? = none ∨
        left.value? = none ∧ right.value?.any Number.isZero = true)
  | _ => False

/-- A void product has no value, but a lazy result. -/
theorem lazyResult?_of_isVoidProduct (h : (binary op left right s).IsVoidProduct) :
    (binary op left right s).value? = none ∧
      op.lazyResult? left.value? right.value? = some .zero := by
  obtain ⟨rfl, ⟨hzero, hnone⟩ | ⟨hnone, hzero⟩⟩ := h
  all_goals
    obtain ⟨x, hx, hxzero⟩ := (Option.any_eq_true _ _).mp hzero
    simp [Operator.lazyResult?, hnone, hx, hxzero]

/-- Any other operation has its lazy result. -/
theorem lazyResult?_of_not_isVoidProduct (h : ¬ (binary op left right s).IsVoidProduct) :
    op.lazyResult? left.value? right.value? = (binary op left right s).value? := by
  rw [value?_binary]
  cases hl : left.value? with
  | none =>
    cases hr : right.value? with
    | none => rfl
    | some y => exact if_neg fun ⟨hop, hzero⟩ => h ⟨hop, .inr ⟨hl, by rw [hr]; exact hzero⟩⟩
  | some x =>
    cases hr : right.value? with
    | none => exact if_neg fun ⟨hop, hzero⟩ => h ⟨hop, .inl ⟨by rw [hl]; exact hzero, hr⟩⟩
    | some y => rfl

/-- Without void products the lazy value is the value. -/
theorem lazyValue?_eq_value? (h : ∀ n ∈ e.nodes, ¬ n.IsVoidProduct) :
    e.lazyValue? = e.value? := by
  induction e with
  | num v s => rfl
  | var name coefficient s => exact (value?_var name coefficient s).symm
  | neg operand s ih => rw [lazyValue?, ih (forall_mem_nodes_neg.mp h).2, value?_neg]
  | power base exponent s ih => rw [lazyValue?, ih (forall_mem_nodes_power.mp h).2, value?_power]
  | binary op left right s ihl ihr =>
    obtain ⟨hself, hleft, hright⟩ := forall_mem_nodes_binary.mp h
    rw [lazyValue?, ihl hleft, ihr hright, lazyResult?_of_not_isVoidProduct hself]

/-- A void product whose factors simplify to their values simplifies to another value. -/
theorem value?_simplify_ne_of_isVoidProduct (h : (binary op left right s).IsVoidProduct)
    (hleft : left.simplify.value? = left.value?) (hright : right.simplify.value? = right.value?) :
    (binary op left right s).simplify.value? ≠ (binary op left right s).value? := by
  obtain ⟨hnone, hzero⟩ := lazyResult?_of_isVoidProduct h
  rw [simplify_binary, value?_combine, hleft, hright, hzero, hnone]
  exact Option.some_ne_none _

/-- **Where simplifying and evaluating agree.** An expression with a value simplifies to that value,
and every expression simplifies to its lazy value. All parts of an expression simplify to their
values, and to no number if they have none, exactly if no part is a void product. -/
theorem value?_simplify_eq_iff (e : Expr) :
    (∀ v, e.value? = some v → e.simplify.value? = some v) ∧
      e.simplify.value? = e.lazyValue? ∧
        ((∀ n ∈ e.nodes, n.simplify.value? = n.value?) ↔ ∀ n ∈ e.nodes, ¬ n.IsVoidProduct) := by
  refine ⟨fun v hv => ?_, value?_simplify e, fun hagree n hn hvoid => ?_, fun hvoid n hn => ?_⟩
  · rw [value?_simplify, lazyValue?_of_value?_eq_some hv]
  · cases n with
    | binary op left right s =>
      have hpart {m : Expr} (hm : m ∈ (binary op left right s).nodes) :
          m.simplify.value? = m.value? := hagree m (nodes_subset_of_mem hn hm)
      have hleft := hpart (mem_nodes_binary_left left.self_mem_nodes op s)
      have hright := hpart (mem_nodes_binary_right right.self_mem_nodes op s)
      exact value?_simplify_ne_of_isVoidProduct hvoid hleft hright (hagree _ hn)
    | num | var | neg | power => exact hvoid
  · rw [value?_simplify]
    exact lazyValue?_eq_value? fun m hm => hvoid m (nodes_subset_of_mem hn hm)

/-- The expression `0 * (1 / 0)`. -/
def voidProduct : Expr :=
  .binary .multiply (.num (.finite .zero) none)
    (.binary .divide (.num .one none) (.num (.finite .zero) none) none) none

/-- An expression without variables and without a value may simplify to a number. -/
theorem not_forall_value?_simplify :
    ¬ ∀ e : Expr, e.names = [] → e.simplify.value? = e.value? := by
  intro h
  have hvalue : voidProduct.simplify.value? = voidProduct.value? := h voidProduct rfl
  exact absurd hvalue (by decide +kernel)

end Expr

end SchoolAlgebra
