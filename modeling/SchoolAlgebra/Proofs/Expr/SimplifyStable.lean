import SchoolAlgebra.Expr.Simplify
import SchoolAlgebra.Proofs.Expr.Bare

/-!
# Simplifying is stable

It does not matter how much of an expression was simplified before the whole is: the result is the
same, spans included.

`Expr.simplify` tries an expression as a whole before it looks at the parts. That test is for speed
only, because parts that have a value simplify to it, and joining them again finds the same result.
So the simplified form of an expression is made from the simplified forms of its operands and of
nothing else, which is what `simplify_neg`, `simplify_power` and `simplify_binary` say. What joining
returns is an operand, a number, or the operation itself, and each of these is simplified already.

## Main definitions

* `Expr.Context` — an expression with a hole

## Main results

* `Expr.simplify_simplify` — simplifying twice is simplifying once
* `Expr.simplify_mapSpan` — spans may be replaced before or after
* `Expr.simplify_fill_congr` — in a context only the simplified form of a part counts
* `Expr.simplify_fill_simplify` — a part may be simplified beforehand
-/

namespace SchoolAlgebra

namespace Expr

variable {e left right base : Expr} {op : Operator} {exponent : Binary64} {s : Option Span}
  {v : Number}

/-! ### From simplified operands

A constant expression simplifies to its value whether or not it is tested as a whole. What remains
is an equation for each kind of node, without the test, and all later proofs use these equations. -/

@[simp] theorem simplify_ofNumber (v : Number) (s : Option Span) :
    (ofNumber v s).simplify = ofNumber v s := rfl

@[simp] theorem value?_ofNumber (v : Number) (s : Option Span) :
    (ofNumber v s).value? = some v := rfl

/-- An expression that has a value simplifies to it, in its own place. -/
theorem simplify_of_value?_eq_some (h : e.value? = some v) : e.simplify = ofNumber v e.span := by
  cases e with
  | num w s =>
    cases w with
    | finite w =>
      cases h
      rfl
    | infinite negative => cases h
  | var name coefficient s => simp at h
  | neg operand s => rw [simplify, folded?, h, Option.map_some, Option.getD_some]
  | power base exponent s => rw [simplify, folded?, h, Option.map_some, Option.getD_some]
  | binary op left right s => rw [simplify, folded?, h, Option.map_some, Option.getD_some]

theorem simplify_neg (e : Expr) (s : Option Span) : (neg e s).simplify = negate e.simplify s := by
  cases h : e.value? with
  | none => simp [simplify, folded?, h]
  | some v =>
    have hvalue : (neg e s).value? = some v.neg := by rw [value?_neg, h, Option.map_some]
    rw [simplify_of_value?_eq_some hvalue, simplify_of_value?_eq_some h]
    rfl

theorem simplify_power (base : Expr) (exponent : Binary64) (s : Option Span) :
    (power base exponent s).simplify = raise base.simplify exponent s := by
  cases h : (power base exponent s).value? with
  | none => simp [simplify, folded?, h]
  | some v =>
    obtain ⟨x, hx, hpow⟩ := Option.bind_eq_some_iff.mp (value?_power base exponent s ▸ h)
    rw [simplify_of_value?_eq_some h, simplify_of_value?_eq_some hx, raise, value?_ofNumber,
      Option.bind_some, hpow]
    rfl

theorem simplify_binary (op : Operator) (left right : Expr) (s : Option Span) :
    (binary op left right s).simplify = combine op left.simplify right.simplify s := by
  cases h : (binary op left right s).value? with
  | none => simp [simplify, folded?, h]
  | some v =>
    obtain ⟨x, hx, h'⟩ := Option.bind_eq_some_iff.mp (value?_binary op left right s ▸ h)
    obtain ⟨y, hy, hresult⟩ := Option.bind_eq_some_iff.mp h'
    rw [simplify_of_value?_eq_some h, simplify_of_value?_eq_some hx,
      simplify_of_value?_eq_some hy]
    simp only [combine, value?_ofNumber, hresult]
    rfl

/-! ### What joining returns -/

/-- An operation is replaced with an operand or with zero. -/
theorem eq_of_identity? {found : Expr} (h : identity? op left right s = some found) :
    found = left ∨ found = right ∨ found = ofNumber .zero s := by
  cases op with
  | add =>
    simp only [identity?] at h
    split at h
    · exact .inr (.inl (Option.some.inj h).symm)
    · split at h
      · exact .inl (Option.some.inj h).symm
      · cases h
  | subtract =>
    simp only [identity?] at h
    split at h
    · exact .inl (Option.some.inj h).symm
    · cases h
  | multiply =>
    simp only [identity?] at h
    split at h
    · exact .inr (.inl (Option.some.inj h).symm)
    · split at h
      · exact .inl (Option.some.inj h).symm
      · split at h
        · exact .inr (.inr (Option.some.inj h).symm)
        · cases h
  | divide =>
    simp only [identity?] at h
    split at h
    · exact .inl (Option.some.inj h).symm
    · cases h

/-- What joining two operands returns: one of them, a number, or the operation. -/
theorem combine_eq (op : Operator) (left right : Expr) (s : Option Span) :
    combine op left right s = left ∨ combine op left right s = right ∨
      (∃ v, combine op left right s = ofNumber v s) ∨
      combine op left right s = binary op left right s := by
  rw [combine]
  split
  · split
    · exact .inr (.inr (.inl ⟨_, rfl⟩))
    · exact .inr (.inr (.inr rfl))
  · cases hfound : identity? op left right s with
    | none => exact .inr (.inr (.inr rfl))
    | some found =>
      rcases eq_of_identity? hfound with rfl | rfl | rfl
      · exact .inl rfl
      · exact .inr (.inl rfl)
      · exact .inr (.inr (.inl ⟨_, rfl⟩))

/-- What changing a sign returns: a number or the operation. -/
theorem negate_eq (e : Expr) (s : Option Span) :
    (∃ v, negate e s = ofNumber v s) ∨ negate e s = neg e s := by
  rw [negate]
  split
  · exact .inl ⟨_, rfl⟩
  · exact .inr rfl

/-- What raising returns: a number or the operation. -/
theorem raise_eq (base : Expr) (exponent : Binary64) (s : Option Span) :
    (∃ v, raise base exponent s = ofNumber v s) ∨
      raise base exponent s = power base exponent s := by
  rw [raise]
  split
  · exact .inl ⟨_, rfl⟩
  · exact .inr rfl

/-! ### Simplified operands make a simplified result

If the operation stays, simplifying it joins its operands once more, and they have not changed. -/

theorem simplify_negate (h : e.simplify = e) : (negate e s).simplify = negate e s := by
  obtain ⟨v, hv⟩ | hneg := negate_eq e s
  · rw [hv, simplify_ofNumber]
  · rw [hneg, simplify_neg, h, hneg]

theorem simplify_raise (h : base.simplify = base) :
    (raise base exponent s).simplify = raise base exponent s := by
  obtain ⟨v, hv⟩ | hpower := raise_eq base exponent s
  · rw [hv, simplify_ofNumber]
  · rw [hpower, simplify_power, h, hpower]

theorem simplify_combine (hleft : left.simplify = left) (hright : right.simplify = right) :
    (combine op left right s).simplify = combine op left right s := by
  obtain hl | hr | ⟨v, hv⟩ | hbinary := combine_eq op left right s
  · rw [hl, hleft]
  · rw [hr, hright]
  · rw [hv, simplify_ofNumber]
  · rw [hbinary, simplify_binary, hleft, hright, hbinary]

/-- **Simplifying twice is simplifying once.** -/
theorem simplify_simplify (e : Expr) : e.simplify.simplify = e.simplify := by
  induction e with
  | num v s => rfl
  | var name coefficient s => rfl
  | neg e s ih =>
    rw [simplify_neg]
    exact simplify_negate ih
  | power base exponent s ih =>
    rw [simplify_power]
    exact simplify_raise ih
  | binary op left right s ihl ihr =>
    rw [simplify_binary]
    exact simplify_combine ihl ihr

/-! ### Spans

Nothing but the values of the parts is looked at. So spans may be replaced before or after, whatever
they are replaced with. -/

section Spans

variable (f : Option Span → Option Span)

theorem value?_mapSpan (e : Expr) : (e.mapSpan f).value? = e.value? := by
  induction e with
  | num | var => rfl
  | neg e s ih => rw [mapSpan, value?_neg, value?_neg, ih]
  | power base exponent s ih => rw [mapSpan, value?_power, value?_power, ih]
  | binary op left right s ihl ihr => rw [mapSpan, value?_binary, value?_binary, ihl, ihr]

theorem negate_mapSpan (e : Expr) (s : Option Span) :
    negate (e.mapSpan f) (f s) = (negate e s).mapSpan f := by
  rw [negate, negate, value?_mapSpan]
  cases e.value? <;> rfl

theorem raise_mapSpan (base : Expr) (exponent : Binary64) (s : Option Span) :
    raise (base.mapSpan f) exponent (f s) = (raise base exponent s).mapSpan f := by
  rw [raise, raise, value?_mapSpan]
  cases base.value?.bind (·.pow? exponent) <;> rfl

theorem identity?_mapSpan (op : Operator) (left right : Expr) (s : Option Span) :
    identity? op (left.mapSpan f) (right.mapSpan f) (f s) =
      (identity? op left right s).map (mapSpan f) := by
  cases op <;> simp only [identity?, value?_mapSpan, apply_ite (Option.map (mapSpan f))] <;> rfl

theorem combine_mapSpan (op : Operator) (left right : Expr) (s : Option Span) :
    combine op (left.mapSpan f) (right.mapSpan f) (f s) = (combine op left right s).mapSpan f := by
  unfold combine
  rw [value?_mapSpan, value?_mapSpan, identity?_mapSpan]
  split
  · split <;> rfl
  · cases identity? op left right s <;> rfl

/-- **Simplifying does not look at spans.** -/
theorem simplify_mapSpan (e : Expr) : (e.mapSpan f).simplify = e.simplify.mapSpan f := by
  induction e with
  | num | var => rfl
  | neg e s ih => rw [mapSpan, simplify_neg, simplify_neg, ih, negate_mapSpan]
  | power base exponent s ih => rw [mapSpan, simplify_power, simplify_power, ih, raise_mapSpan]
  | binary op left right s ihl ihr =>
    rw [mapSpan, simplify_binary, simplify_binary, ihl, ihr, combine_mapSpan]

end Spans

/-- Spans may be forgotten before or after. -/
theorem simplify_bare (e : Expr) : e.bare.simplify = e.simplify.bare := by
  rw [bare_eq_mapSpan, simplify_mapSpan, ← bare_eq_mapSpan]

/-! ### Contexts

A context is a path from the root to a part. By the equations for single nodes the simplified form
of the whole depends on the part through its simplified form, along the whole path. -/

/-- An expression with a hole in the place of one of its parts. -/
inductive Context where
  /-- Nothing but the hole. -/
  | hole
  /-- The hole is in the left operand. -/
  | binaryLeft (op : Operator) (left : Context) (right : Expr) (span : Option Span)
  /-- The hole is in the right operand. -/
  | binaryRight (op : Operator) (left : Expr) (right : Context) (span : Option Span)
  /-- The hole is in an operand whose sign is changed. -/
  | neg (operand : Context) (span : Option Span)
  /-- The hole is in a base. -/
  | power (base : Context) (exponent : Binary64) (span : Option Span)

/-- The expression with a part put in the hole. -/
def Context.fill : Context → (part : Expr) → Expr
  | .hole, part => part
  | .binaryLeft op left right s, part => .binary op (left.fill part) right s
  | .binaryRight op left right s, part => .binary op left (right.fill part) s
  | .neg operand s, part => .neg (operand.fill part) s
  | .power base exponent s, part => .power (base.fill part) exponent s

/-- In a context only the simplified form of a part counts. -/
theorem simplify_fill_congr (c : Context) {part part' : Expr}
    (h : part.simplify = part'.simplify) : (c.fill part).simplify = (c.fill part').simplify := by
  induction c with
  | hole => exact h
  | binaryLeft op left right s ih =>
    rw [Context.fill, Context.fill, simplify_binary, simplify_binary, ih]
  | binaryRight op left right s ih =>
    rw [Context.fill, Context.fill, simplify_binary, simplify_binary, ih]
  | neg operand s ih => rw [Context.fill, Context.fill, simplify_neg, simplify_neg, ih]
  | power base exponent s ih =>
    rw [Context.fill, Context.fill, simplify_power, simplify_power, ih]

/-- **Simplifying does not depend on how much was simplified beforehand.** In every context, a part
may be replaced with its simplified form: the simplified whole is the same, spans included. -/
theorem simplify_fill_simplify (c : Context) (part : Expr) :
    (c.fill part).simplify = (c.fill part.simplify).simplify :=
  simplify_fill_congr c (simplify_simplify part).symm

end Expr

end SchoolAlgebra
