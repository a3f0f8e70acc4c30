import SchoolAlgebra.Expr.Eval

/-!
# Equality up to the sign of a zero

The two zeros are different numbers of equal value. `Number.SameValue` identifies them and nothing
else. Every operation respects it: the sign of a zero operand shows in a result only as the sign of
a zero, and a quotient by either zero does not exist. An operation that is idle, such as adding a
zero, returns its operand up to it.

## Results that may be missing

An operation gives no result when it overflows, when it divides by zero, and when a power of zero
has a negative exponent. None of these depends on the sign of a zero. Hence the statements relate
optional results: both are missing, or both are there and have the same value.

## Main results

* `Operator.result?_rel`, `Number.pow?_rel` — the operations respect `SameValue`
* `Number.add?_zero_rel`, `Number.zero_add?_rel`, `Number.sub?_zero_rel` — idle operations
* `Number.mul?_zero_rel`, `Number.zero_mul?_rel` — a product with a zero is zero
-/

namespace SchoolAlgebra

namespace Number

/-- The two are the same number, or both are zero. -/
def SameValue (x y : Number) : Prop := x = y ∨ (x.isZero = true ∧ y.isZero = true)

variable {x x' y y' z : Number}

namespace SameValue

@[refl] protected theorem refl (x : Number) : x.SameValue x := .inl rfl

theorem of_isZero (hx : x.isZero = true) (hy : y.isZero = true) : x.SameValue y := .inr ⟨hx, hy⟩

@[symm] protected theorem symm (h : x.SameValue y) : y.SameValue x := by
  rcases h with rfl | ⟨hx, hy⟩
  · exact .refl x
  · exact of_isZero hy hx

protected theorem trans (hxy : x.SameValue y) (hyz : y.SameValue z) : x.SameValue z := by
  rcases hxy with rfl | ⟨hx, hy⟩
  · exact hyz
  · rcases hyz with rfl | ⟨-, hz⟩
    · exact of_isZero hx hy
    · exact of_isZero hx hz

theorem isZero_eq (h : x.SameValue y) : x.isZero = y.isZero := by
  rcases h with rfl | ⟨hx, hy⟩
  · rfl
  · rw [hx, hy]

/-- Numbers of the same value that are not zero are the same. -/
theorem eq_of_not_isZero (h : x.SameValue y) (hx : x.isZero = false) : x = y := by
  rcases h with rfl | ⟨hx', -⟩
  · rfl
  · rw [hx] at hx'
    cases hx'

theorem magnitude_eq (h : x.SameValue y) : x.magnitude = y.magnitude := by
  rcases h with rfl | ⟨hx, hy⟩
  · rfl
  · rw [magnitude_eq_zero hx, magnitude_eq_zero hy]

theorem units_eq (h : x.SameValue y) : x.units = y.units := by
  rcases h with rfl | ⟨hx, hy⟩
  · rfl
  · rw [units_eq_zero hx, units_eq_zero hy]

protected theorem neg (h : x.SameValue y) : x.neg.SameValue y.neg := by
  rcases h with rfl | ⟨hx, hy⟩
  · exact .refl _
  · exact of_isZero hx hy

end SameValue

/-! ### Results that exist together -/

/-- Two results are both missing, or both there and of the same value. -/
abbrev SameResult : Option Number → Option Number → Prop := Option.Rel SameValue

theorem SameResult.refl (r : Option Number) : SameResult r r := by
  cases r with
  | none => exact .none
  | some x => exact .some (.refl x)

theorem SameResult.exists_of_eq_some {r r' : Option Number} {v : Number} (h : SameResult r r')
    (hr : r = some v) : ∃ w, r' = some w ∧ w.SameValue v := by
  subst hr
  cases h with
  | some h => exact ⟨_, rfl, h.symm⟩

theorem SameResult.sameValue {u v : Number} (h : SameResult (some v) (some u)) :
    u.SameValue v := by
  cases h with
  | some h => exact h.symm

/-- A result that goes together with one is there. -/
theorem SameResult.ne_none {r : Option Number} {v : Number} (h : SameResult r (some v)) :
    r ≠ none := by
  rintro rfl
  cases h

/-! ### Rounding

A sign reaches a result through the rounding of a quotient. A quotient other than zero may still
round to zero, and then its sign is the sign of that zero. -/

/-- Zero is rounded to a zero. -/
theorem round?_zero (negative : Bool) {den : Nat} (h : 0 < den) :
    round? negative 0 den = some { zero with negative } := by
  simpa using round?_magnitude negative zero h

/-- A sign shows in the rounded quotient only if the quotient is not zero. -/
theorem round?_rel {negative negative' : Bool} {num den : Nat} (hden : 0 < den)
    (h : num ≠ 0 → negative = negative') :
    SameResult (round? negative num den) (round? negative' num den) := by
  by_cases hnum : num = 0
  · rw [hnum, round?_zero _ hden, round?_zero _ hden]
    exact .some (.of_isZero rfl rfl)
  · rw [h hnum]
    exact .refl _

theorem magnitude_pos (h : x.isZero = false) : 0 < x.magnitude := by
  have hmantissa : x.mantissa ≠ 0 := by simpa [isZero] using h
  exact Nat.mul_pos (Nat.pos_of_ne_zero hmantissa) (Nat.two_pow_pos _)

theorem isZero_eq_false (h : x.magnitude ≠ 0) : x.isZero = false := by
  cases hx : x.isZero with
  | true => exact absurd (magnitude_eq_zero hx) h
  | false => rfl

/-! ### The operations respect the value -/

theorem add?_rel (hx : x.SameValue x') (hy : y.SameValue y') :
    SameResult (x.add? y) (x'.add? y') := by
  simp only [add?, hx.units_eq, hy.units_eq]
  refine round?_rel Nat.one_pos fun hsum => ?_
  have hne : x'.units + y'.units ≠ 0 := fun h => hsum (by rw [h]; rfl)
  rw [if_neg hne, if_neg hne]

theorem sub?_rel (hx : x.SameValue x') (hy : y.SameValue y') :
    SameResult (x.sub? y) (x'.sub? y') := add?_rel hx hy.neg

theorem mul?_rel (hx : x.SameValue x') (hy : y.SameValue y') :
    SameResult (x.mul? y) (x'.mul? y') := by
  simp only [mul?, hx.magnitude_eq, hy.magnitude_eq]
  refine round?_rel oneUnits_pos fun hproduct => ?_
  have hx' := isZero_eq_false (Nat.ne_zero_of_mul_ne_zero_left hproduct)
  have hy' := isZero_eq_false (Nat.ne_zero_of_mul_ne_zero_right hproduct)
  rw [hx.eq_of_not_isZero (hx.isZero_eq.trans hx'), hy.eq_of_not_isZero (hy.isZero_eq.trans hy')]

theorem div?_rel (hx : x.SameValue x') (hy : y.SameValue y') :
    SameResult (x.div? y) (x'.div? y') := by
  rw [div?, div?, hy.isZero_eq]
  cases hzero : y'.isZero with
  | true =>
    rw [if_pos rfl, if_pos rfl]
    exact .none
  | false =>
    obtain rfl := hy.eq_of_not_isZero (hy.isZero_eq.trans hzero)
    rw [if_neg Bool.false_ne_true, if_neg Bool.false_ne_true, hx.magnitude_eq]
    refine round?_rel (magnitude_pos hzero) fun hproduct => ?_
    have hx' := isZero_eq_false (Nat.ne_zero_of_mul_ne_zero_left hproduct)
    rw [hx.eq_of_not_isZero (hx.isZero_eq.trans hx')]

theorem pow?_rel (hx : x.SameValue x') (exponent : Binary64) :
    SameResult (x.pow? exponent) (x'.pow? exponent) := by
  rcases hx with rfl | ⟨hx, hx'⟩
  · exact .refl _
  · cases exponent with
    | infinite negative =>
      simp only [pow?, limitPower?, magnitude_eq_zero hx, magnitude_eq_zero hx']
      exact .refl _
    | finite exponent =>
      simp only [pow?, hx, hx', if_true, zeroPower?]
      split
      · exact .refl _
      · split
        · exact .none
        · split
          · exact .some (.of_isZero hx hx')
          · exact .refl _

/-! ### Idle operations

A sum of zeros of different signs is a positive zero, and so an idle sum can lose the sign of its
operand. For any other operand it is the operand itself. -/

/-- The sum with a zero has the value of the other summand. -/
theorem add?_zero_rel (hz : z.isZero = true) : SameResult (x.add? z) (some x) := by
  have hround : round? x.negative x.units.natAbs 1 = some x := by
    simpa [natAbs_units] using round?_magnitude x.negative x Nat.one_pos
  rw [add?, units_eq_zero hz, Int.add_zero, ← hround]
  refine round?_rel Nat.one_pos fun hunits => ?_
  have hmagnitude : 0 < x.magnitude := by
    rw [natAbs_units] at hunits
    exact Nat.pos_of_ne_zero hunits
  have hne : x.units ≠ 0 := fun h => hunits (by rw [h]; rfl)
  rw [if_neg hne, units]
  cases x.negative with
  | false => simp
  | true =>
    simp
    omega

theorem add?_comm (x y : Number) : x.add? y = y.add? x := by
  rw [add?, add?, Int.add_comm, Bool.and_comm]

theorem zero_add?_rel (hz : z.isZero = true) : SameResult (z.add? x) (some x) :=
  add?_comm x z ▸ add?_zero_rel hz

/-- The difference to a zero has the value of the minuend. -/
theorem sub?_zero_rel (hz : z.isZero = true) : SameResult (x.sub? z) (some x) :=
  add?_zero_rel hz

/-- The product with a zero is zero. -/
theorem mul?_zero_rel (hz : z.isZero = true) : SameResult (x.mul? z) (some zero) := by
  rw [mul?, magnitude_eq_zero hz, Nat.mul_zero, round?_zero _ oneUnits_pos]
  exact .some (.of_isZero rfl rfl)

theorem zero_mul?_rel (hz : z.isZero = true) : SameResult (z.mul? x) (some zero) := by
  rw [mul?, magnitude_eq_zero hz, Nat.zero_mul, round?_zero _ oneUnits_pos]
  exact .some (.of_isZero rfl rfl)

end Number

/-- **An operator respects the value of its operands.** -/
theorem Operator.result?_rel (op : Operator) {x x' y y' : Number} (hx : x.SameValue x')
    (hy : y.SameValue y') : Number.SameResult (op.result? x y) (op.result? x' y') := by
  cases op with
  | add => exact Number.add?_rel hx hy
  | subtract => exact Number.sub?_rel hx hy
  | multiply => exact Number.mul?_rel hx hy
  | divide => exact Number.div?_rel hx hy

end SchoolAlgebra
