import SchoolAlgebra.Proofs.Binary64.SameValue
import SchoolAlgebra.Proofs.Expr.Nodes
import SchoolAlgebra.Proofs.Expr.SimplifyStable

/-!
# Simplifying leaves nothing to simplify

A node is reduced if it is a number or has no value, and is not an idle operation: one that adds or
subtracts zero, multiplies or divides by one, or multiplies by zero. In a simplified expression
every node is reduced, and an expression of reduced nodes is simplified already.

Simplifying looks at each node once, from the operands up, and an operand that takes the place of an
operation is not looked at again. It need not be, for it has been reduced before. What is left to
see is that an operation which stays is reduced too. It stays for one of two reasons. If both
operands have values, their result is not finite; but the result of an idle operation always is.
Otherwise no operand has a value that decides the operation, so none is the literal of an idle one.

## Main definitions

* `Expr.IsIdle` — an operation that a literal zero or one decides
* `Expr.IsReduced` — neither a constant that could be a number nor an idle operation

## Main results

* `Expr.isReduced_of_mem_nodes_combine` — joining reduced operands leaves nothing to simplify
* `Expr.isReduced_of_mem_nodes_simplify` — nor does simplifying, and it leaves reduced nodes alone
-/

namespace SchoolAlgebra

namespace Expr

/-- An operation that leaves an operand as it is or makes zero of it, because the other operand is a
literal zero, of either sign, or a literal one. -/
inductive IsIdle : Expr → Prop where
  | addZero {e : Expr} {v : Number} {s s' : Option Span} (hv : v.isZero = true) :
      IsIdle (.binary .add e (.num (.finite v) s) s')
  | zeroAdd {e : Expr} {v : Number} {s s' : Option Span} (hv : v.isZero = true) :
      IsIdle (.binary .add (.num (.finite v) s) e s')
  | subtractZero {e : Expr} {v : Number} {s s' : Option Span} (hv : v.isZero = true) :
      IsIdle (.binary .subtract e (.num (.finite v) s) s')
  | multiplyOne {e : Expr} {s s' : Option Span} : IsIdle (.binary .multiply e (.num .one s) s')
  | oneMultiply {e : Expr} {s s' : Option Span} : IsIdle (.binary .multiply (.num .one s) e s')
  | multiplyZero {e : Expr} {v : Number} {s s' : Option Span} (hv : v.isZero = true) :
      IsIdle (.binary .multiply e (.num (.finite v) s) s')
  | zeroMultiply {e : Expr} {v : Number} {s s' : Option Span} (hv : v.isZero = true) :
      IsIdle (.binary .multiply (.num (.finite v) s) e s')
  | divideOne {e : Expr} {s s' : Option Span} : IsIdle (.binary .divide e (.num .one s) s')

/-- A node at which there is nothing to simplify. -/
structure IsReduced (e : Expr) : Prop where
  /-- What has a value is a number. -/
  eq_num : ∀ v, e.value? = some v → ∃ w s, e = .num w s
  /-- No literal decides the operation. -/
  not_isIdle : ¬ e.IsIdle

variable {e left right base : Expr} {op : Operator} {exponent : Binary64} {s : Option Span}
  {x y : Number}

/-! ### Idle operations

An idle operation on constants never overflows and never divides by zero. Hence an operation on
constants that stays, because its result is not finite, is not idle. -/

/-- An idle operation on constants has a finite result. -/
theorem IsIdle.result?_ne_none (h : (binary op left right s).IsIdle)
    (hx : left.value? = some x) (hy : right.value? = some y) : op.result? x y ≠ none := by
  cases h with
  | addZero hv =>
    obtain rfl := Option.some.inj hy
    exact (Number.add?_zero_rel hv).ne_none
  | zeroAdd hv =>
    obtain rfl := Option.some.inj hx
    exact (Number.zero_add?_rel hv).ne_none
  | subtractZero hv =>
    obtain rfl := Option.some.inj hy
    exact (Number.sub?_zero_rel hv).ne_none
  | multiplyOne | divideOne =>
    obtain rfl := Option.some.inj hy
    simp [Operator.result?]
  | oneMultiply =>
    obtain rfl := Option.some.inj hx
    simp [Operator.result?]
  | multiplyZero hv =>
    obtain rfl := Option.some.inj hy
    exact (Number.mul?_zero_rel hv).ne_none
  | zeroMultiply hv =>
    obtain rfl := Option.some.inj hx
    exact (Number.zero_mul?_rel hv).ne_none

/-- The literal of an idle operation decides it. -/
theorem IsIdle.identity?_ne_none (h : (binary op left right s).IsIdle) :
    identity? op left right s ≠ none := by
  have hone : Number.one.isOne = true := by decide
  have hvalue : Binary64.one.finite? = some Number.one := rfl
  cases h with
  | addZero hv | zeroAdd hv | subtractZero hv | multiplyZero hv | zeroMultiply hv =>
    simp only [identity?, value?_num, Binary64.finite?, Option.any_some, hv, Bool.or_true,
      Bool.true_or, if_true]
    repeat' split
    all_goals exact Option.some_ne_none _
  | multiplyOne | oneMultiply | divideOne =>
    simp only [identity?, value?_num, hvalue, Option.any_some, hone, if_true]
    repeat' split
    all_goals exact Option.some_ne_none _

/-- A reduced operand whose value passes a test is a literal that passes it. -/
theorem IsReduced.exists_eq_num {p : Number → Bool} (h : e.IsReduced)
    (hp : e.value?.any p = true) : ∃ v s, e = .num (.finite v) s ∧ p v = true := by
  obtain ⟨v, hv, hpv⟩ := (Option.any_eq_true p _).mp hp
  obtain ⟨w, s, rfl⟩ := h.eq_num v hv
  cases w with
  | finite w =>
    obtain rfl := Option.some.inj hv
    exact ⟨w, s, rfl, hpv⟩
  | infinite negative => cases hv

theorem IsReduced.exists_eq_one (h : e.IsReduced) (hone : e.value?.any Number.isOne = true) :
    ∃ s, e = .num .one s := by
  obtain ⟨v, s, rfl, hv⟩ := h.exists_eq_num hone
  obtain rfl : v = .one := of_decide_eq_true hv
  exact ⟨s, rfl⟩

/-- An operation on reduced operands that a value decides is idle. -/
theorem isIdle_of_identity? {found : Expr} (hleft : left.IsReduced) (hright : right.IsReduced)
    (h : identity? op left right s = some found) : (binary op left right s).IsIdle := by
  cases op with
  | add =>
    simp only [identity?] at h
    split at h
    · next hzero =>
      obtain ⟨v, s, rfl, hv⟩ := hleft.exists_eq_num hzero
      exact .zeroAdd hv
    · split at h
      · next hzero =>
        obtain ⟨v, s, rfl, hv⟩ := hright.exists_eq_num hzero
        exact .addZero hv
      · cases h
  | subtract =>
    simp only [identity?] at h
    split at h
    · next hzero =>
      obtain ⟨v, s, rfl, hv⟩ := hright.exists_eq_num hzero
      exact .subtractZero hv
    · cases h
  | multiply =>
    simp only [identity?] at h
    split at h
    · next hone =>
      obtain ⟨s, rfl⟩ := hleft.exists_eq_one hone
      exact .oneMultiply
    · split at h
      · next hone =>
        obtain ⟨s, rfl⟩ := hright.exists_eq_one hone
        exact .multiplyOne
      · split at h
        · next hzero =>
          rcases Bool.or_eq_true_iff.mp hzero with hzero | hzero
          · obtain ⟨v, s, rfl, hv⟩ := hleft.exists_eq_num hzero
            exact .zeroMultiply hv
          · obtain ⟨v, s, rfl, hv⟩ := hright.exists_eq_num hzero
            exact .multiplyZero hv
        · cases h
  | divide =>
    simp only [identity?] at h
    split at h
    · next hone =>
      obtain ⟨s, rfl⟩ := hright.exists_eq_one hone
      exact .divideOne
    · cases h

/-! ### Joining reduced operands -/

/-- A node without a value is reduced unless it is idle. -/
theorem IsReduced.of_value?_eq_none (hvalue : e.value? = none) (hidle : ¬ e.IsIdle) :
    e.IsReduced :=
  ⟨fun v hv => (Option.some_ne_none v (hv.symm.trans hvalue)).elim, hidle⟩

theorem isReduced_num (w : Binary64) (s : Option Span) : (num w s).IsReduced :=
  ⟨fun _ _ => ⟨w, s, rfl⟩, nofun⟩

theorem isReduced_of_mem_nodes_ofNumber (v : Number) (s : Option Span) :
    ∀ m ∈ (ofNumber v s).nodes, m.IsReduced :=
  List.forall_mem_singleton.mpr (isReduced_num _ s)

theorem isReduced_of_mem_nodes_negate (h : ∀ m ∈ e.nodes, m.IsReduced) :
    ∀ m ∈ (negate e s).nodes, m.IsReduced := by
  rw [negate]
  split
  · exact isReduced_of_mem_nodes_ofNumber _ s
  · next hnone =>
    have hvalue : (neg e s).value? = none := by rw [value?_neg, hnone, Option.map_none]
    exact forall_mem_nodes_neg.mpr ⟨.of_value?_eq_none hvalue (by rintro ⟨⟩), h⟩

theorem isReduced_of_mem_nodes_raise (h : ∀ m ∈ base.nodes, m.IsReduced) :
    ∀ m ∈ (raise base exponent s).nodes, m.IsReduced := by
  rw [raise]
  split
  · exact isReduced_of_mem_nodes_ofNumber _ s
  · next hnone =>
    exact forall_mem_nodes_power.mpr ⟨.of_value?_eq_none hnone (by rintro ⟨⟩), h⟩

/-- **Joining reduced operands leaves nothing to simplify.** -/
theorem isReduced_of_mem_nodes_combine (hleft : ∀ m ∈ left.nodes, m.IsReduced)
    (hright : ∀ m ∈ right.nodes, m.IsReduced) :
    ∀ m ∈ (combine op left right s).nodes, m.IsReduced := by
  have hstays (hvalue : (binary op left right s).value? = none)
      (hidle : ¬ (binary op left right s).IsIdle) :
      ∀ m ∈ (binary op left right s).nodes, m.IsReduced :=
    forall_mem_nodes_binary.mpr ⟨.of_value?_eq_none hvalue hidle, hleft, hright⟩
  rw [combine]
  split
  · next x y hx hy =>
    split
    · exact isReduced_of_mem_nodes_ofNumber _ s
    · next hnone =>
      -- the operation stays because its result is not finite
      refine hstays ?_ fun hidle => hidle.result?_ne_none hx hy hnone
      rw [value?_binary, hx, hy, Option.bind_some, Option.bind_some, hnone]
  · next hvalues =>
    cases hfound : identity? op left right s with
    | none =>
      -- the operation stays because no operand decides it
      refine hstays ?_ fun hidle => hidle.identity?_ne_none hfound
      rw [value?_binary]
      cases hx : left.value? with
      | none => rfl
      | some x =>
        cases hy : right.value? with
        | none => rfl
        | some y => exact (hvalues x y hx hy).elim
    | some found =>
      rcases eq_of_identity? hfound with rfl | rfl | rfl
      · exact hleft
      · exact hright
      · exact isReduced_of_mem_nodes_ofNumber _ s

/-! ### Reduced expressions are simplified

This is the converse. Nothing in a reduced expression has a value but its literals, so no test of
simplifying succeeds, and each node is joined from its operands as it was. -/

/-- A reduced node that is not a number has no value. -/
theorem IsReduced.value?_eq_none (h : e.IsReduced) (hnum : ∀ w s, e ≠ .num w s) :
    e.value? = none :=
  Option.eq_none_iff_forall_ne_some.mpr fun v hv => by
    obtain ⟨w, s, rfl⟩ := h.eq_num v hv
    exact hnum w s rfl

theorem negate_of_isReduced (h : (neg e s).IsReduced) : negate e s = neg e s := by
  have hvalue : e.value? = none := Option.map_eq_none_iff.mp (h.value?_eq_none nofun)
  simp [negate, hvalue]

theorem raise_of_isReduced (h : (power base exponent s).IsReduced) :
    raise base exponent s = power base exponent s := by
  have hvalue := h.value?_eq_none nofun
  rw [value?_power] at hvalue
  rw [raise, hvalue]

theorem combine_of_isReduced (h : (binary op left right s).IsReduced) (hleft : left.IsReduced)
    (hright : right.IsReduced) : combine op left right s = binary op left right s := by
  have hvalue := h.value?_eq_none nofun
  rw [value?_binary] at hvalue
  have hfound : identity? op left right s = none :=
    Option.eq_none_iff_forall_ne_some.mpr fun _ hfound =>
      h.not_isIdle (isIdle_of_identity? hleft hright hfound)
  rw [combine]
  split
  · next x y hx hy =>
    rw [hx, hy, Option.bind_some, Option.bind_some] at hvalue
    rw [hvalue]
  · rw [hfound, Option.getD_none]

/-- **Simplifying leaves nothing to simplify.** Every node of a simplified expression is a number or
has no value, and none is an idle operation. An expression with no other nodes is left as it is. -/
theorem isReduced_of_mem_nodes_simplify (e : Expr) :
    (∀ m ∈ e.simplify.nodes, m.IsReduced) ∧ ((∀ m ∈ e.nodes, m.IsReduced) → e.simplify = e) := by
  induction e with
  | num w s => exact ⟨List.forall_mem_singleton.mpr (isReduced_num w s), fun _ => rfl⟩
  | var name coefficient s =>
    refine ⟨List.forall_mem_singleton.mpr ?_, fun _ => rfl⟩
    exact .of_value?_eq_none (value?_var name coefficient s) nofun
  | neg operand s ih =>
    rw [simplify_neg]
    refine ⟨isReduced_of_mem_nodes_negate ih.1, fun h => ?_⟩
    obtain ⟨hself, hoperand⟩ := forall_mem_nodes_neg.mp h
    rw [ih.2 hoperand, negate_of_isReduced hself]
  | power base exponent s ih =>
    rw [simplify_power]
    refine ⟨isReduced_of_mem_nodes_raise ih.1, fun h => ?_⟩
    obtain ⟨hself, hbase⟩ := forall_mem_nodes_power.mp h
    rw [ih.2 hbase, raise_of_isReduced hself]
  | binary op left right s ihl ihr =>
    rw [simplify_binary]
    refine ⟨isReduced_of_mem_nodes_combine ihl.1 ihr.1, fun h => ?_⟩
    obtain ⟨hself, hleft, hright⟩ := forall_mem_nodes_binary.mp h
    rw [ihl.2 hleft, ihr.2 hright]
    exact combine_of_isReduced hself (hleft left left.self_mem_nodes)
      (hright right right.self_mem_nodes)

end Expr

end SchoolAlgebra
