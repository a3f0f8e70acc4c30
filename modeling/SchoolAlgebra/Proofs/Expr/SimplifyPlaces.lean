import SchoolAlgebra.Proofs.Expr.Nesting
import SchoolAlgebra.Proofs.Expr.SimplifyStable

/-!
# Simplifying keeps places

A simplified expression can be shown in the source that it was read from. Its spans are nested as
those of the source are, it lies where the expression lay, it is no larger, and its variables are
variables of the expression, in the same order and in the same places.

An operation that stays keeps its span around operands that may have become smaller, a part that is
folded is a number with the span of that part, and an operand that takes the place of an operation
keeps its own span. Each of these is a step that makes an expression smaller in place. Such steps
can be made one after the other and under an operation, so there is nothing more to show of
simplifying than that it consists of them.

## Main definitions

* `Expr.IsNested` — every span is there, not empty, and around the spans of the operands
* `Expr.variableNodes` — the variables, from left to right
* `Expr.TrimsTo` — to become smaller in place

## Main results

* `Expr.TrimsTo.trans`, `Expr.TrimsTo.binary` — one step after the other, and under an operation
* `Expr.trimsTo_simplify` — simplifying makes an expression smaller in place
-/

namespace SchoolAlgebra

namespace Expr

/-! ### Nested spans -/

/-- Every node has a span that is not empty, its operands have their spans in it, and a left operand
ends no later than the right one begins. -/
def IsNested (e : Expr) : Prop :=
  ∀ n ∈ e.nodes, ∃ a, n.span = some a ∧ a.start < a.stop ∧ n.Nests a

variable {e e' e'' left right left' right' base base' : Expr} {op : Operator}
  {exponent : Binary64} {s : Option Span} {a : Span}

theorem IsNested.exists_span (h : e.IsNested) : ∃ a, e.span = some a ∧ a.start < a.stop :=
  have ⟨a, ha, hne, _⟩ := h e e.self_mem_nodes
  ⟨a, ha, hne⟩

theorem isNested_ofNumber (v : Number) (ha : s = some a) (hne : a.start < a.stop) :
    (ofNumber v s).IsNested :=
  List.forall_mem_singleton.mpr ⟨a, ha, hne, trivial⟩

/-- What was read from a source is nested. -/
theorem isNested_of_parse {source : String} (h : parse source = .ok e) : e.IsNested := by
  intro n hn
  obtain ⟨a, ha, -, hne, -, hnests⟩ := placed_of_mem_nodes_parse h n hn
  exact ⟨a, ha, hne, hnests⟩

/-! ### Variables -/

/-- Whether an expression is a variable, of any coefficient. -/
def isVariable : Expr → Bool
  | .var .. => true
  | _ => false

/-- The variables, from left to right, with their coefficients and their spans. -/
def variableNodes (e : Expr) : List Expr := e.nodes.filter isVariable

theorem variableNodes_binary (op : Operator) (left right : Expr) (s : Option Span) :
    (binary op left right s).variableNodes = left.variableNodes ++ right.variableNodes :=
  List.filter_append ..

/-! ### Becoming smaller in place

The relation asks only what can be passed on: that spans are nested again, that the root stays in
its place, that there are no more nodes, and that the variables are a sublist. It is reflexive and
transitive, and each node that stays keeps it. -/

/-- The second expression is the first one made smaller in place. -/
structure TrimsTo (e e' : Expr) : Prop where
  /-- Its spans are nested. -/
  nested : e'.IsNested
  /-- It lies where the first one lies. -/
  within : ∃ a b, e.span = some a ∧ e'.span = some b ∧ b.Within a
  /-- It has no more nodes. -/
  length_nodes_le : e'.nodes.length ≤ e.nodes.length
  /-- Its variables are variables of the first one, in order. -/
  variableNodes_sublist : e'.variableNodes.Sublist e.variableNodes

namespace TrimsTo

theorem refl (h : e.IsNested) : e.TrimsTo e := by
  obtain ⟨a, ha, -⟩ := h.exists_span
  exact ⟨h, ⟨a, a, ha, ha, Nat.le_refl _, Nat.le_refl _⟩, Nat.le_refl _, .refl _⟩

theorem exists_within (h : e.TrimsTo e') (ha : e.span = some a) :
    ∃ b, e'.span = some b ∧ b.Within a := by
  obtain ⟨a', b, ha', hb, hba⟩ := h.within
  obtain rfl := Option.some.inj (ha.symm.trans ha')
  exact ⟨b, hb, hba⟩

theorem trans (h : e.TrimsTo e') (h' : e'.TrimsTo e'') : e.TrimsTo e'' where
  nested := h'.nested
  within := by
    obtain ⟨a, b, ha, hb, hba⟩ := h.within
    obtain ⟨c, hc, hcb⟩ := h'.exists_within hb
    exact ⟨a, c, ha, hc, hcb.trans hba⟩
  length_nodes_le := h'.length_nodes_le.trans h.length_nodes_le
  variableNodes_sublist := h'.variableNodes_sublist.trans h.variableNodes_sublist

/-- A number can stand in the place of any expression. -/
theorem ofNumber (h : e.IsNested) (v : Number) : e.TrimsTo (ofNumber v e.span) where
  nested := by
    obtain ⟨a, ha, hne⟩ := h.exists_span
    exact isNested_ofNumber v ha hne
  within := by
    obtain ⟨a, ha, -⟩ := h.exists_span
    exact ⟨a, a, ha, ha, Nat.le_refl _, Nat.le_refl _⟩
  length_nodes_le := by
    rw [nodes_eq_cons e]
    exact Nat.succ_le_succ (Nat.zero_le _)
  variableNodes_sublist := List.nil_sublist _

/-! A node that stays has the span that it had, which is around the operands. -/

theorem neg (hself : (neg e s).IsNested) (h : e.TrimsTo e') :
    (neg e s).TrimsTo (.neg e' s) where
  nested := by
    obtain ⟨⟨a, ha, hne, b, hb, hba⟩, -⟩ := forall_mem_nodes_neg.mp hself
    obtain ⟨c, hc, hcb⟩ := h.exists_within hb
    exact forall_mem_nodes_neg.mpr ⟨⟨a, ha, hne, c, hc, hcb.trans hba⟩, h.nested⟩
  within := (refl hself).within
  length_nodes_le := Nat.succ_le_succ h.length_nodes_le
  variableNodes_sublist := h.variableNodes_sublist

theorem power (hself : (power base exponent s).IsNested) (h : base.TrimsTo base') :
    (power base exponent s).TrimsTo (.power base' exponent s) where
  nested := by
    obtain ⟨⟨a, ha, hne, b, hb, hba⟩, -⟩ := forall_mem_nodes_power.mp hself
    obtain ⟨c, hc, hcb⟩ := h.exists_within hb
    exact forall_mem_nodes_power.mpr ⟨⟨a, ha, hne, c, hc, hcb.trans hba⟩, h.nested⟩
  within := (refl hself).within
  length_nodes_le := Nat.succ_le_succ h.length_nodes_le
  variableNodes_sublist := h.variableNodes_sublist

theorem binary (hself : (binary op left right s).IsNested) (hleft : left.TrimsTo left')
    (hright : right.TrimsTo right') :
    (binary op left right s).TrimsTo (.binary op left' right' s) where
  nested := by
    obtain ⟨⟨a, ha, hne, b, c, hb, hc, hba, hca, hbc⟩, -⟩ := forall_mem_nodes_binary.mp hself
    obtain ⟨b', hb', hb'b⟩ := hleft.exists_within hb
    obtain ⟨c', hc', hc'c⟩ := hright.exists_within hc
    have hapart : b'.stop ≤ c'.start := hb'b.2.trans (hbc.trans hc'c.1)
    exact forall_mem_nodes_binary.mpr
      ⟨⟨a, ha, hne, b', c', hb', hc', hb'b.trans hba, hc'c.trans hca, hapart⟩, hleft.nested,
        hright.nested⟩
  within := (refl hself).within
  length_nodes_le := by
    simp only [nodes, List.length_cons, List.length_append]
    exact Nat.succ_le_succ (Nat.add_le_add hleft.length_nodes_le hright.length_nodes_le)
  variableNodes_sublist := by
    rw [variableNodes_binary, variableNodes_binary]
    exact hleft.variableNodes_sublist.append hright.variableNodes_sublist

/-- A left operand can take the place of the operation. -/
theorem left_operand (hself : (Expr.binary op left right s).IsNested) :
    (Expr.binary op left right s).TrimsTo left where
  nested := (forall_mem_nodes_binary.mp hself).2.1
  within := by
    obtain ⟨⟨a, ha, -, b, c, hb, -, hba, -⟩, -⟩ := forall_mem_nodes_binary.mp hself
    exact ⟨a, b, ha, hb, hba⟩
  length_nodes_le := by
    simp only [nodes, List.length_cons, List.length_append]
    omega
  variableNodes_sublist := by
    rw [variableNodes_binary]
    exact List.sublist_append_left ..

/-- A right operand can take the place of the operation. -/
theorem right_operand (hself : (Expr.binary op left right s).IsNested) :
    (Expr.binary op left right s).TrimsTo right where
  nested := (forall_mem_nodes_binary.mp hself).2.2
  within := by
    obtain ⟨⟨a, ha, -, b, c, -, hc, -, hca, -⟩, -⟩ := forall_mem_nodes_binary.mp hself
    exact ⟨a, c, ha, hc, hca⟩
  length_nodes_le := by
    simp only [nodes, List.length_cons, List.length_append]
    omega
  variableNodes_sublist := by
    rw [variableNodes_binary]
    exact List.sublist_append_right ..

/-! ### Joining

Each of the three functions returns an operand, a number with the given span, or the operation with
that span. For each of these the step has been shown. -/

theorem negate (hself : (Expr.neg e s).IsNested) (h : e.TrimsTo e') :
    (Expr.neg e s).TrimsTo (negate e' s) := by
  obtain ⟨v, hv⟩ | hneg := negate_eq e' s
  · rw [hv]
    exact ofNumber hself v
  · rw [hneg]
    exact neg hself h

theorem raise (hself : (Expr.power base exponent s).IsNested) (h : base.TrimsTo base') :
    (Expr.power base exponent s).TrimsTo (raise base' exponent s) := by
  obtain ⟨v, hv⟩ | hpower := raise_eq base' exponent s
  · rw [hv]
    exact ofNumber hself v
  · rw [hpower]
    exact power hself h

theorem combine (hself : (Expr.binary op left right s).IsNested) (hleft : left.TrimsTo left')
    (hright : right.TrimsTo right') :
    (Expr.binary op left right s).TrimsTo (combine op left' right' s) := by
  obtain hl | hr | ⟨v, hv⟩ | hbinary := combine_eq op left' right' s
  · rw [hl]
    exact (left_operand hself).trans hleft
  · rw [hr]
    exact (right_operand hself).trans hright
  · rw [hv]
    exact ofNumber hself v
  · rw [hbinary]
    exact binary hself hleft hright

end TrimsTo

/-- **Simplifying makes an expression smaller in place.** If the spans of an expression are nested,
so are those of its simplified form, which lies in its span, has no more nodes, and has no variables
but those of the expression, in the same order and in the same places. -/
theorem trimsTo_simplify (e : Expr) (h : e.IsNested) : e.TrimsTo e.simplify := by
  induction e with
  | num v s => exact .refl h
  | var name coefficient s => exact .refl h
  | neg operand s ih =>
    rw [simplify_neg]
    exact .negate h (ih (forall_mem_nodes_neg.mp h).2)
  | power base exponent s ih =>
    rw [simplify_power]
    exact .raise h (ih (forall_mem_nodes_power.mp h).2)
  | binary op left right s ihl ihr =>
    obtain ⟨-, hleft, hright⟩ := forall_mem_nodes_binary.mp h
    rw [simplify_binary]
    exact .combine h (ihl hleft) (ihr hright)

/-- The expression of `-(0+x)*(2-1)+y`. -/
def idleFactor : Expr :=
  .join .add
    (.join .multiply
      (.neg (.binary .add (.num (.finite .zero) (some ⟨2, 3⟩)) (.var "x" .one (some ⟨4, 5⟩))
        (some ⟨1, 6⟩)) (some ⟨0, 6⟩))
      (.binary .subtract (.num .two (some ⟨8, 9⟩)) (.num .one (some ⟨10, 11⟩)) (some ⟨7, 12⟩)))
    (.var "y" .one (some ⟨13, 14⟩))

/-- The simplified form of `-(0+x)*(2-1)+y` is the sum of `-x` and `y`, which stand in it: the
negation with the parentheses of its operand, the variables where they were. -/
theorem trimsTo_simplify_idleFactor :
    idleFactor.IsNested ∧
      idleFactor.simplify = .binary .add (.neg (.var "x" .one (some ⟨4, 5⟩)) (some ⟨0, 6⟩))
        (.var "y" .one (some ⟨13, 14⟩)) (some ⟨0, 14⟩) ∧
      idleFactor.TrimsTo idleFactor.simplify := by
  have hparse : parse "-(0+x)*(2-1)+y" = .ok idleFactor := by decide +kernel
  have hnested := isNested_of_parse hparse
  exact ⟨hnested, by decide +kernel, trimsTo_simplify idleFactor hnested⟩

end Expr

end SchoolAlgebra
