import SchoolAlgebra.Expr.Basic
import SchoolAlgebra.Token.Basic

/-!
# The nodes of an expression and their places

`Expr.nodes` lists an expression and all its parts. `shift` moves the spans of tokens and of nodes,
as reading the same text further to the right of a source does.
-/

namespace SchoolAlgebra

/-- The span so many characters further to the right. -/
def Span.shift (k : Nat) (a : Span) : Span := ⟨a.start + k, a.stop + k⟩

/-- The token so many characters further to the right. -/
def Token.shift (k : Nat) (t : Token) : Token := { t with span := t.span.shift k }

namespace Expr

/-- The expression and its parts, parents before their operands and operands in order. -/
def nodes (e : Expr) : List Expr :=
  e :: match e with
    | .num .. | .var .. => []
    | .neg operand _ => operand.nodes
    | .power base _ _ => base.nodes
    | .binary _ left right _ => left.nodes ++ right.nodes

theorem self_mem_nodes (e : Expr) : e ∈ e.nodes := by
  cases e <;> exact List.mem_cons_self

theorem nodes_eq_cons (e : Expr) : e.nodes = e :: e.nodes.tail := by
  cases e <;> rfl

theorem mem_nodes_binary_left {n left right : Expr} (h : n ∈ left.nodes) (op : Operator)
    (s : Option Span) : n ∈ (binary op left right s).nodes :=
  List.mem_cons_of_mem _ (List.mem_append_left _ h)

theorem mem_nodes_binary_right {n left right : Expr} (h : n ∈ right.nodes) (op : Operator)
    (s : Option Span) : n ∈ (binary op left right s).nodes :=
  List.mem_cons_of_mem _ (List.mem_append_right _ h)

@[simp] theorem forall_mem_nodes_neg {p : Expr → Prop} {operand : Expr} {s : Option Span} :
    (∀ n ∈ (neg operand s).nodes, p n) ↔ p (neg operand s) ∧ ∀ n ∈ operand.nodes, p n :=
  List.forall_mem_cons

@[simp] theorem forall_mem_nodes_power {p : Expr → Prop} {base : Expr} {exponent : Binary64}
    {s : Option Span} : (∀ n ∈ (power base exponent s).nodes, p n) ↔
      p (power base exponent s) ∧ ∀ n ∈ base.nodes, p n :=
  List.forall_mem_cons

@[simp] theorem forall_mem_nodes_binary {p : Expr → Prop} {op : Operator} {left right : Expr}
    {s : Option Span} : (∀ n ∈ (binary op left right s).nodes, p n) ↔
      p (binary op left right s) ∧ (∀ n ∈ left.nodes, p n) ∧ ∀ n ∈ right.nodes, p n :=
  List.forall_mem_cons.trans (and_congr_right' List.forall_mem_append)

/-- The nodes of a node are nodes. -/
theorem nodes_subset_of_mem {n e : Expr} (h : n ∈ e.nodes) : n.nodes ⊆ e.nodes := by
  induction e with
  | num | var =>
    rw [List.mem_singleton.mp h]
    exact List.Subset.refl _
  | neg _ _ ih | power _ _ _ ih =>
    rcases List.mem_cons.mp h with rfl | h
    · exact List.Subset.refl _
    · exact List.subset_cons_of_subset _ (ih h)
  | binary op left right s ihl ihr =>
    rcases List.mem_cons.mp h with rfl | h
    · exact List.Subset.refl _
    · intro m hm
      rcases List.mem_append.mp h with h | h
      · exact mem_nodes_binary_left (ihl h hm) op s
      · exact mem_nodes_binary_right (ihr h hm) op s

/-- Another span on the outermost node changes no other node. -/
theorem nodes_withSpan (s : Option Span) (e : Expr) :
    (e.withSpan s).nodes = e.withSpan s :: e.nodes.tail := by
  cases e <;> rfl

/-- The same expression so many characters further to the right. -/
def shift (k : Nat) : Expr → Expr
  | .num v s => .num v (s.map (Span.shift k))
  | .var name coefficient s => .var name coefficient (s.map (Span.shift k))
  | .binary op left right s => .binary op (left.shift k) (right.shift k) (s.map (Span.shift k))
  | .neg operand s => .neg (operand.shift k) (s.map (Span.shift k))
  | .power base exponent s => .power (base.shift k) exponent (s.map (Span.shift k))

@[simp] theorem span_shift (k : Nat) (e : Expr) : (e.shift k).span = e.span.map (Span.shift k) := by
  cases e <;> rfl

theorem shift_withSpan (k : Nat) (a : Span) (e : Expr) :
    (e.withSpan (some a)).shift k = (e.shift k).withSpan (some (a.shift k)) := by
  cases e <;> rfl

variable {e left right : Expr} {a b : Span}

theorem start_of_span (h : e.span = some a) : e.start = a.start := by
  rw [start, h]
  rfl

theorem stop_of_span (h : e.span = some a) : e.stop = a.stop := by
  rw [stop, h]
  rfl

theorem start_shift (h : e.span = some a) (k : Nat) : (e.shift k).start = e.start + k := by
  rw [start, start, span_shift, h]
  rfl

theorem stop_shift (h : e.span = some a) (k : Nat) : (e.shift k).stop = e.stop + k := by
  rw [stop, stop, span_shift, h]
  rfl

theorem span_join (hleft : left.span = some a) (hright : right.span = some b) (op : Operator) :
    (join op left right).span = some ⟨a.start, b.stop⟩ := by
  rw [join, span, start_of_span hleft, stop_of_span hright]

theorem shift_join (hleft : left.span = some a) (hright : right.span = some b) (op : Operator)
    (k : Nat) : (join op left right).shift k = join op (left.shift k) (right.shift k) := by
  rw [join, join, start_shift hleft, stop_shift hright]
  rfl

end Expr

end SchoolAlgebra
