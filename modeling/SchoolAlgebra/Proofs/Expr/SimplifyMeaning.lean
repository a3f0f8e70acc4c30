import SchoolAlgebra.Expr.Simplify
import SchoolAlgebra.Proofs.Binary64.SameValue

/-!
# Simplifying keeps the value

Where an expression has a value, so has its simplified form, and the two are the same up to the sign
of a zero. The other direction fails on purpose: `x * 0` has no value where `x` has none, and
simplifies to a number.

Each of `negate`, `raise` and `combine` joins simplified operands again, and each is looked at once:
if the operands have values and the operation on them has one, the joined expression has that value.
A constant operand is no case of its own there, because the value of a constant is its value under
every assignment.

## Main results

* `Expr.valueAt?_var_one` — a variable has the value that is assigned to it
* `Expr.valueAt?_of_value?_eq_some` — a constant has its value under every assignment
* `Expr.exists_valueAt?_combine` — joining two operands
* `Expr.exists_valueAt?_simplify` — the whole expression
-/

namespace SchoolAlgebra

namespace Expr

open Number

variable (ρ : Assignment) {e left right base : Expr} {v x y : Number} {s : Option Span}

@[simp] theorem valueAt?_ofNumber (v : Number) (s : Option Span) :
    (ofNumber v s).valueAt? ρ = some v := rfl

/-- A variable without a coefficient is worth what the assignment says. -/
theorem valueAt?_var_one (name : String) (s : Option Span) :
    (var name .one s).valueAt? ρ = ρ name := by
  cases hρ : ρ name with
  | none => simp [valueAt?, Binary64.one, Binary64.finite?, hρ]
  | some x => simp [valueAt?, Binary64.one, Binary64.finite?, hρ]

/-- The value of a constant expression does not depend on the assignment. -/
theorem valueAt?_of_value?_eq_some (h : e.value? = some v) : e.valueAt? ρ = some v := by
  induction e generalizing v with
  | num w s => exact h
  | var name coefficient s => simp at h
  | neg e s ih =>
    rw [value?_neg] at h
    obtain ⟨w, hw, rfl⟩ := Option.map_eq_some_iff.mp h
    simp [valueAt?, ih hw]
  | power base exponent s ih =>
    rw [value?_power] at h
    obtain ⟨w, hw, hpow⟩ := Option.bind_eq_some_iff.mp h
    simp [valueAt?, ih hw, hpow]
  | binary op left right s ihl ihr =>
    rw [value?_binary] at h
    obtain ⟨x, hx, h⟩ := Option.bind_eq_some_iff.mp h
    obtain ⟨y, hy, hresult⟩ := Option.bind_eq_some_iff.mp h
    simp [valueAt?, ihl hx, ihr hy, hresult]

theorem eq_of_value?_eq_some (h : e.value? = some v) (hx : e.valueAt? ρ = some x) : v = x :=
  Option.some.inj ((valueAt?_of_value?_eq_some ρ h).symm.trans hx)

/-- What a test finds of the constant value of an expression holds of its value. -/
theorem of_any_value? {p : Number → Bool} (h : e.valueAt? ρ = some x)
    (hp : e.value?.any p = true) : p x = true := by
  obtain ⟨w, hw, hpw⟩ := (Option.any_eq_true p _).mp hp
  obtain rfl : w = x := eq_of_value?_eq_some ρ hw h
  exact hpw

/-! ### Joining simplified operands -/

theorem valueAt?_negate (h : e.valueAt? ρ = some v) : (negate e s).valueAt? ρ = some v.neg := by
  rw [negate]
  split
  · next w hw =>
    obtain rfl : w = v := eq_of_value?_eq_some ρ hw h
    rfl
  · rw [valueAt?, h]
    rfl

theorem valueAt?_raise {exponent : Binary64} (h : base.valueAt? ρ = some x)
    (hpow : x.pow? exponent = some v) : (raise base exponent s).valueAt? ρ = some v := by
  rw [raise]
  split
  · next w hw =>
    obtain ⟨x', hx', hpow'⟩ := Option.bind_eq_some_iff.mp hw
    obtain rfl : x' = x := eq_of_value?_eq_some ρ hx' h
    rw [valueAt?_ofNumber, ← hpow', hpow]
  · rw [valueAt?, h]
    exact hpow

/-- What an operation is replaced with because of one operand has the value of the operation. -/
theorem exists_valueAt?_of_identity? {op : Operator} {found : Expr}
    (hleft : left.valueAt? ρ = some x) (hright : right.valueAt? ρ = some y)
    (hresult : op.result? x y = some v) (hfound : identity? op left right s = some found) :
    ∃ w, found.valueAt? ρ = some w ∧ w.SameValue v := by
  have hl (p : Number → Bool) (hp : left.value?.any p = true) : p x = true :=
    of_any_value? ρ hleft hp
  have hr (p : Number → Bool) (hp : right.value?.any p = true) : p y = true :=
    of_any_value? ρ hright hp
  cases op with
  | add =>
    simp only [identity?] at hfound
    split at hfound
    · next hzero =>
      cases hfound
      exact ⟨y, hright, SameResult.sameValue (hresult ▸ zero_add?_rel (hl _ hzero))⟩
    · split at hfound
      · next hzero =>
        cases hfound
        exact ⟨x, hleft, SameResult.sameValue (hresult ▸ add?_zero_rel (hr _ hzero))⟩
      · cases hfound
  | subtract =>
    simp only [identity?] at hfound
    split at hfound
    · next hzero =>
      cases hfound
      exact ⟨x, hleft, SameResult.sameValue (hresult ▸ sub?_zero_rel (hr _ hzero))⟩
    · cases hfound
  | multiply =>
    simp only [identity?] at hfound
    split at hfound
    · next hone =>
      cases hfound
      obtain rfl : x = one := of_decide_eq_true (hl _ hone)
      obtain rfl : y = v := Option.some.inj ((one_mul? y).symm.trans hresult)
      exact ⟨y, hright, .refl y⟩
    · split at hfound
      · next hone =>
        cases hfound
        obtain rfl : y = one := of_decide_eq_true (hr _ hone)
        obtain rfl : x = v := Option.some.inj ((mul?_one x).symm.trans hresult)
        exact ⟨x, hleft, .refl x⟩
      · split at hfound
        · next hzero =>
          cases hfound
          refine ⟨zero, rfl, ?_⟩
          rcases Bool.or_eq_true_iff.mp hzero with h | h
          · exact SameResult.sameValue (hresult ▸ zero_mul?_rel (hl _ h))
          · exact SameResult.sameValue (hresult ▸ mul?_zero_rel (hr _ h))
        · cases hfound
  | divide =>
    simp only [identity?] at hfound
    split at hfound
    · next hone =>
      cases hfound
      obtain rfl : y = one := of_decide_eq_true (hr _ hone)
      obtain rfl : x = v := Option.some.inj ((div?_one x).symm.trans hresult)
      exact ⟨x, hleft, .refl x⟩
    · cases hfound

/-- Two operands joined again have the value of the operation. -/
theorem exists_valueAt?_combine {op : Operator} (hleft : left.valueAt? ρ = some x)
    (hright : right.valueAt? ρ = some y) (hresult : op.result? x y = some v) :
    ∃ w, (combine op left right s).valueAt? ρ = some w ∧ w.SameValue v := by
  have hbinary : (binary op left right s).valueAt? ρ = some v := by
    rw [valueAt?, hleft, hright]
    exact hresult
  rw [combine]
  split
  · next x' y' hx' hy' =>
    obtain rfl : x' = x := eq_of_value?_eq_some ρ hx' hleft
    obtain rfl : y' = y := eq_of_value?_eq_some ρ hy' hright
    rw [hresult]
    exact ⟨v, rfl, .refl v⟩
  · cases hfound : identity? op left right s with
    | none => exact ⟨v, hbinary, .refl v⟩
    | some found => exact exists_valueAt?_of_identity? ρ hleft hright hresult hfound

/-! ### The whole expression

An expression with a constant value is folded at once; otherwise the operands are simplified first
and then joined. The induction is over the expression, and equality up to the sign of a zero is
carried through every operator. -/

/-- An expression that is folded as a whole keeps its value. -/
theorem exists_valueAt?_folded?_getD {rest : Expr} (h : e.valueAt? ρ = some v)
    (hrest : ∃ w, rest.valueAt? ρ = some w ∧ w.SameValue v) :
    ∃ w, ((folded? e).getD rest).valueAt? ρ = some w ∧ w.SameValue v := by
  cases hvalue : e.value? with
  | none =>
    rw [folded?, hvalue]
    exact hrest
  | some w =>
    obtain rfl : w = v := eq_of_value?_eq_some ρ hvalue h
    rw [folded?, hvalue]
    exact ⟨w, rfl, .refl w⟩

/-- **Simplifying keeps the value, up to the sign of a zero.** -/
theorem exists_valueAt?_simplify (e : Expr) {v : Number} (h : e.valueAt? ρ = some v) :
    ∃ w, e.simplify.valueAt? ρ = some w ∧ w.SameValue v := by
  induction e generalizing v with
  | num value s => exact ⟨v, h, .refl v⟩
  | var name coefficient s => exact ⟨v, h, .refl v⟩
  | neg e s ih =>
    refine exists_valueAt?_folded?_getD ρ h ?_
    obtain ⟨x, hx, rfl⟩ := Option.map_eq_some_iff.mp h
    obtain ⟨w, hw, hsame⟩ := ih hx
    exact ⟨w.neg, valueAt?_negate ρ hw, hsame.neg⟩
  | power base exponent s ih =>
    refine exists_valueAt?_folded?_getD ρ h ?_
    obtain ⟨x, hx, hpow⟩ := Option.bind_eq_some_iff.mp h
    obtain ⟨w, hw, hsame⟩ := ih hx
    obtain ⟨u, hu, hsame'⟩ := (pow?_rel hsame.symm exponent).exists_of_eq_some hpow
    exact ⟨u, valueAt?_raise ρ hw hu, hsame'⟩
  | binary op left right s ihl ihr =>
    refine exists_valueAt?_folded?_getD ρ h ?_
    obtain ⟨x, hx, h⟩ := Option.bind_eq_some_iff.mp h
    obtain ⟨y, hy, hresult⟩ := Option.bind_eq_some_iff.mp h
    obtain ⟨x', hx', hsamex⟩ := ihl hx
    obtain ⟨y', hy', hsamey⟩ := ihr hy
    obtain ⟨u, hu, hsameu⟩ :=
      (op.result?_rel hsamex.symm hsamey.symm).exists_of_eq_some hresult
    obtain ⟨w, hw, hsamew⟩ := exists_valueAt?_combine ρ hx' hy' hu (s := s)
    exact ⟨w, hw, hsamew.trans hsameu⟩

/-- The expression `(x * 0 - 2) + y * 1`, in which an operand becomes constant only after it has
been simplified itself. -/
def idleSum : Expr :=
  .binary .add
    (.binary .subtract (.binary .multiply (.var "x" .one none) (.num (.finite .zero) none) none)
      (.num .two none) none)
    (.binary .multiply (.var "y" .one none) (.num .one none) none) none

/-- With both variables at minus one the sum is minus three, before and after. -/
theorem exists_valueAt?_simplify_idleSum :
    idleSum.valueAt? (fun _ => some Number.one.neg) = Number.two.neg.sub? .one ∧
      (Number.two.neg.sub? .one).isSome = true ∧
      ∃ v w, Number.two.neg.sub? .one = some v ∧
        idleSum.simplify.valueAt? (fun _ => some Number.one.neg) = some w ∧ w.SameValue v := by
  have hvalue : idleSum.valueAt? (fun _ => some Number.one.neg) = Number.two.neg.sub? .one := by
    decide +kernel
  have hsome : (Number.two.neg.sub? .one).isSome = true := by decide +kernel
  obtain ⟨v, hv⟩ := Option.isSome_iff_exists.mp hsome
  obtain ⟨w, hw, hsame⟩ := exists_valueAt?_simplify _ idleSum (hvalue.trans hv)
  exact ⟨hvalue, hsome, v, w, hv, hw, hsame⟩

end Expr

end SchoolAlgebra
