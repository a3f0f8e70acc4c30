import Mathlib
import SchoolAlgebra.Binary64.Arithmetic
import SchoolAlgebra.Proofs.Decimal.NumberText
import SchoolAlgebra.Proofs.Expr.Exact
import SchoolAlgebra.Proofs.Hint.Grouping

/-!
# The signs of the terms of a sum

A term is read with a sign, to which the subtractions around it and the negations among its factors
contribute. Where numbers and variables are positive, signs come from nowhere else, and a sum should
be the sum of the absolute values of its terms, each with the sign it is read with.

The walk through the factors passes divisors by, so the sign of a term is the true one up to the
signs of its divisors, `Expr.divisorSign`. It hands on the sign of a base as that of its power. This
is right for an odd exponent, and for an even one if the base is read as positive; other even powers
are left out here. An exponent that is no integer needs a positive base.

## Divisors

A divisor is not looked at when a term is read, and what is lost by this can be said exactly. Going
through a term in the same way, `Expr.divisorSign` multiplies the signs of the values of all
divisors that are met; within the base of an even power they make no difference. With this factor
added, the signs are right for every term that is defined, and without it wherever no divisor has a
negative value.

## Main definitions

* `Term.sign`, `Expr.readSign` — the sign a term is read with, and what its factors contribute
* `Expr.divisorSign` — the sign that the divisors of a term give its value
* `Expr.IsFlatSum` — sums with all additions and subtractions on the outside
* `Expr.signedSum` — a sum over the terms, each with the sign it is read with

## Main results

* `sign_of_exactPow?` — the sign of a power
* `Expr.exactAt?_eq_sum_additiveTerms` — a sum is the sum of its terms, added and subtracted
* `Expr.sign_of_exactAt?` — the sign of a term is that of its factors and of its divisors
* `Expr.exactAt?_eq_signedSum` — a sum is put together again from signs and absolute values
-/

namespace SchoolAlgebra

/-! ### Signs and integers among the numbers

Whether an exponent is an integer, and an even one, is decided on its units. In the theorems the
value is a real number, so the two are compared first. -/

namespace Number

variable {x : Number} {n : Int}

theorem toReal_pos (hsign : x.negative = false) (hzero : x.isZero = false) : 0 < x.toReal := by
  have hmagnitude : 0 < x.magnitude := by
    rw [Nat.pos_iff_ne_zero, ne_eq, ← isZero_iff_magnitude, hzero]
    exact Bool.false_ne_true
  have hunits : x.units = x.magnitude := by rw [units, hsign, if_neg Bool.false_ne_true]
  rw [toReal, hunits]
  exact div_pos (by exact_mod_cast hmagnitude) cast_oneUnits_pos

theorem toReal_eq_intCast_iff : x.toReal = n ↔ x.units = n * oneUnits := by
  rw [toReal, div_eq_iff cast_oneUnits_pos.ne']
  exact_mod_cast Iff.rfl

/-- An integral number has an integer as its value. -/
theorem toInt?_eq_some_iff : x.toInt? = some n ↔ x.toReal = n := by
  have hvalue {m : Int} (h : x.toInt? = some m) : x.toReal = m := by
    have hwhole : x.magnitude % oneUnits = 0 := (toInt?_isSome_iff x).mp (by rw [h]; rfl)
    have hmagnitude : x.magnitude / oneUnits * oneUnits = x.magnitude :=
      Nat.div_mul_cancel (Nat.dvd_of_mod_eq_zero hwhole)
    rw [toInt?_of_mod_eq_zero hwhole] at h
    rw [toReal_eq_intCast_iff, ← Option.some.inj h, units]
    split
    · rw [neg_mul, ← Int.natCast_mul, hmagnitude]
    · rw [← Int.natCast_mul, hmagnitude]
  refine ⟨hvalue, fun h => ?_⟩
  have hwhole : x.magnitude % oneUnits = 0 := by
    rw [← natAbs_units, toReal_eq_intCast_iff.mp h, Int.natAbs_mul, Int.natAbs_natCast]
    exact Nat.mul_mod_left _ _
  obtain ⟨m, hm⟩ := Option.isSome_iff_exists.mp ((toInt?_isSome_iff x).mpr hwhole)
  rw [hm, Int.cast_injective ((hvalue hm).symm.trans h)]

end Number

namespace Binary64

/-- Whether the value is above zero. -/
def isPositive : Binary64 → Bool
  | .finite x => !x.negative && !x.isZero
  | .infinite negative => !negative

/-- Whether the value is an even integer. -/
def isEven (x : Binary64) : Bool := x.toInt?.any (· % 2 == 0)

variable {x : Binary64} {r : ℝ}

theorem pos_of_isPositive (hx : x.isPositive = true) (hr : x.toReal? = some r) : 0 < r := by
  cases x with
  | infinite => cases hr
  | finite x =>
    obtain rfl := Option.some.inj hr
    obtain ⟨hsign, hzero⟩ := Bool.and_eq_true_iff.mp hx
    exact Number.toReal_pos (Bool.not_eq_true' _ ▸ hsign) (Bool.not_eq_true' _ ▸ hzero)

theorem toInt?_eq_some_iff {n : ℤ} : x.toInt? = some n ↔ x.toReal? = some (n : ℝ) := by
  cases x with
  | infinite => exact iff_of_false nofun nofun
  | finite x => exact Number.toInt?_eq_some_iff.trans Option.some_inj.symm

@[simp] theorem toReal?_two : two.toReal? = some 2 :=
  toInt?_eq_some_iff (n := 2).mp (by decide +kernel)

theorem isEven_iff (hr : x.toReal? = some r) : x.isEven = true ↔ ∃ n : ℤ, Even n ∧ n = r := by
  rw [isEven, Option.any_eq_true]
  refine exists_congr fun n => ?_
  rw [toInt?_eq_some_iff, hr, Option.some_inj, beq_iff_eq, ← Int.even_iff, eq_comm, and_comm]

end Binary64

/-! ### The sign of a power

A negative base has a power only for an integral exponent, and then the sign is known from whether
that is even. For a positive base every power is positive. -/

section SignOfPower

variable {b k r : ℝ}

theorem sign_zpow (b : ℝ) (n : ℤ) : SignType.sign (b ^ n) = SignType.sign b ^ n :=
  map_zpow₀ signHom b n

theorem sign_div (x y : ℝ) : SignType.sign (x / y) = SignType.sign x * SignType.sign y :=
  map_div₀ signHom x y

/-- **A power has the sign of its base, but an even power is positive.** -/
theorem sign_of_exactPow? (hb : b ≠ 0) (hr : exactPow? b k = some r) :
    ((∃ n : ℤ, Even n ∧ n = k) → SignType.sign r = 1) ∧
      ((¬ ∃ n : ℤ, Even n ∧ n = k) → SignType.sign r = SignType.sign b) := by
  rw [exactPow?] at hr
  split at hr
  · cases hr
  · next hdefined =>
    obtain rfl := Option.some.inj hr
    rcases lt_or_gt_of_ne hb with hneg | hpos
    · obtain ⟨n, rfl⟩ : ∃ n : ℤ, n = k := by
        by_contra hn
        exact hdefined (.inr ⟨hneg, hn⟩)
      rw [Real.rpow_intCast, sign_zpow, sign_neg hneg]
      constructor
      · rintro ⟨m, hm, hmn⟩
        rw [Int.cast_injective hmn] at hm
        exact SignType.zpow_even _ hm (by decide)
      · intro hodd
        exact SignType.zpow_odd _ (Int.not_even_iff_odd.mp fun heven => hodd ⟨n, heven, rfl⟩)
    · have hsign : SignType.sign (b ^ k) = 1 := sign_pos (Real.rpow_pos_of_pos hpos k)
      rw [hsign, sign_pos hpos]
      exact ⟨fun _ => rfl, fun _ => rfl⟩

theorem exactPow?_intCast (hb : b ≠ 0) (n : ℤ) : exactPow? b n = some (b ^ n) := by
  have hdefined : ¬ PowIsUndefined b n := by
    rintro (⟨hzero, -⟩ | ⟨-, hn⟩)
    · exact hb hzero
    · exact hn ⟨n, rfl⟩
  rw [exactPow?, if_neg hdefined, Real.rpow_intCast]

theorem ne_zero_of_exactPow? (hb : b ≠ 0) (hr : exactPow? b k = some r) : r ≠ 0 := by
  obtain ⟨heven, hodd⟩ := sign_of_exactPow? hb hr
  rw [← sign_ne_zero]
  by_cases h : ∃ n : ℤ, Even n ∧ n = k
  · rw [heven h]
    decide
  · rw [hodd h]
    exact sign_ne_zero.mpr hb

end SignOfPower

/-! ### The signs that are read

The walk carries a sign along and changes it at each negation. By induction it is the sign at the
beginning times a sign that depends on the expression alone. -/

/-- Minus one for what counts negatively, and one for all else. -/
def countSign (negative : Bool) : SignType := bif negative then -1 else 1

theorem countSign_not (negative : Bool) : countSign (!negative) = -countSign negative := by
  cases negative <;> rfl

/-- The sign that a term is read with. -/
def Term.sign (t : Term) : SignType := countSign t.negative

namespace Expr

/-- What the factors of a term contribute to the sign it is read with. -/
def readSign : Expr → SignType
  | .neg operand _ => -operand.readSign
  | .power base _ _ => base.readSign
  | .binary .multiply left right _ => left.readSign * right.readSign
  | .binary .divide left _ _ => left.readSign
  | _ => 1

theorem sign_readFactors (e : Expr) (t : Term) :
    (e.readFactors t).sign = t.sign * e.readSign := by
  induction e generalizing t with
  | num | var => exact (mul_one _).symm
  | neg operand s ih =>
    rw [readFactors, ih, Term.sign, countSign_not, readSign, neg_mul_comm]
    rfl
  | power base exponent s ih => exact ih t
  | binary op left right s ihl ihr =>
    cases op with
    | add | subtract => exact (mul_one _).symm
    | multiply => rw [readFactors, ihr, ihl, readSign, mul_assoc]
    | divide => exact ihl t

theorem sign_toTerm (e : Expr) (negative : Bool) :
    (e.toTerm negative).sign = countSign negative * e.readSign :=
  sign_readFactors e _

/-! ### The signs of the values

All conditions are conditions on nodes or on the walk, so that they can be decided for a given sum.
They are named one by one, because a term has to satisfy some of them and a sum the others. -/

/-- The exact value of an expression, or zero if it has none. -/
noncomputable def exactValue (ρ : String → ℝ) (e : Expr) : ℝ := (e.exactAt? ρ).getD 0

/-- The divisors that the walk through the factors passes by. -/
def divisors : Expr → List Expr
  | .neg operand _ => operand.divisors
  | .power base _ _ => base.divisors
  | .binary .multiply left right _ => left.divisors ++ right.divisors
  | .binary .divide left right _ => left.divisors ++ [right]
  | _ => []

/-- The sign that the divisors of a term give its value: the product of their signs, but nothing
comes of those in the base of an even power. -/
noncomputable def divisorSign (ρ : String → ℝ) : Expr → SignType
  | .neg operand _ => operand.divisorSign ρ
  | .power base exponent _ => if exponent.isEven then 1 else base.divisorSign ρ
  | .binary .multiply left right _ => left.divisorSign ρ * right.divisorSign ρ
  | .binary .divide left right _ => left.divisorSign ρ * SignType.sign (right.exactValue ρ)
  | _ => 1

/-- Whether the base of every even power that the walk comes through is read as positive. -/
def evenPowersReadPositive : Expr → Bool
  | .neg operand _ => operand.evenPowersReadPositive
  | .power base exponent _ =>
    (!exponent.isEven || base.readSign = 1) && base.evenPowersReadPositive
  | .binary .multiply left right _ => left.evenPowersReadPositive && right.evenPowersReadPositive
  | .binary .divide left _ _ => left.evenPowersReadPositive
  | _ => true

/-- Whether the expression is a positive number, or no number. -/
def hasPositiveNumber : Expr → Bool
  | .num v _ => v.isPositive
  | _ => true

/-- Every number is positive, and every variable has the coefficient one. -/
def HasPositiveLeaves (e : Expr) : Prop :=
  ∀ n ∈ e.nodes, n.hasPositiveNumber = true ∧ n.hasUnitCoefficient = true

instance (e : Expr) : Decidable e.HasPositiveLeaves :=
  inferInstanceAs (Decidable (∀ n ∈ e.nodes, _ ∧ _))

/-- The expression has no additions and subtractions. -/
def HasNoSums (e : Expr) : Prop := ∀ n ∈ e.nodes, n.isAdditive = false

instance (e : Expr) : Decidable e.HasNoSums :=
  inferInstanceAs (Decidable (∀ n ∈ e.nodes, _))

/-- A sum of positive numbers and variables with the coefficient one in which all additions and
subtractions stand on the outside. -/
def IsFlatSum (e : Expr) : Prop := e.HasPositiveLeaves ∧ ∀ t ∈ e.summands, t.HasNoSums

instance (e : Expr) : Decidable e.IsFlatSum := inferInstanceAs (Decidable (_ ∧ _))

/-- A sum over the terms, each with the sign it is read with. -/
noncomputable def signedSum (value : Expr → ℝ) (e : Expr) : ℝ :=
  (List.zipWith (fun (term : Term) (t : Expr) => (term.sign : ℝ) * value t) e.terms e.summands).sum

variable {ρ : String → ℝ} {e t left right : Expr} {s : Option Span} {r : ℝ}

theorem exactValue_of_eq_some (h : e.exactAt? ρ = some r) : e.exactValue ρ = r := by
  rw [exactValue, h, Option.getD_some]

theorem exactAt?_eq_some_exactValue (h : (e.exactAt? ρ).isSome = true) :
    e.exactAt? ρ = some (e.exactValue ρ) := by
  obtain ⟨r, hr⟩ := Option.isSome_iff_exists.mp h
  rw [exactValue_of_eq_some hr, hr]

/-! ### What is defined has defined parts

An operation has no value if an operand has none. In the other direction, the value of an operation
is taken apart into values of the operands, one lemma for each operation. -/

theorem exactAt?_binary_eq_some {op : Operator}
    (h : (binary op left right s).exactAt? ρ = some r) :
    ∃ x y, left.exactAt? ρ = some x ∧ right.exactAt? ρ = some y ∧ op.realResult? x y = some r := by
  obtain ⟨x, hx, h⟩ := Option.bind_eq_some_iff.mp h
  obtain ⟨y, hy, h⟩ := Option.bind_eq_some_iff.mp h
  exact ⟨x, y, hx, hy, h⟩

theorem exactAt?_multiply_eq_some (h : (binary .multiply left right s).exactAt? ρ = some r) :
    ∃ x y, left.exactAt? ρ = some x ∧ right.exactAt? ρ = some y ∧ r = x * y := by
  obtain ⟨x, y, hx, hy, h⟩ := exactAt?_binary_eq_some h
  exact ⟨x, y, hx, hy, (Option.some.inj h).symm⟩

theorem exactAt?_divide_eq_some (h : (binary .divide left right s).exactAt? ρ = some r) :
    ∃ x y, left.exactAt? ρ = some x ∧ right.exactAt? ρ = some y ∧ y ≠ 0 ∧ r = x / y := by
  obtain ⟨x, y, hx, hy, h⟩ := exactAt?_binary_eq_some h
  rw [Operator.realResult?] at h
  split at h
  · cases h
  · next hne => exact ⟨x, y, hx, hy, hne, (Option.some.inj h).symm⟩

theorem exactAt?_power_eq_some {base : Expr} {exponent : Binary64}
    (h : (power base exponent s).exactAt? ρ = some r) :
    ∃ x k, base.exactAt? ρ = some x ∧ exponent.toReal? = some k ∧ exactPow? x k = some r := by
  obtain ⟨x, hx, h⟩ := Option.bind_eq_some_iff.mp h
  obtain ⟨k, hk, h⟩ := Option.bind_eq_some_iff.mp h
  exact ⟨x, k, hx, hk, h⟩

theorem exactAt?_var_eq_some {name : String} {coefficient : Binary64}
    (hcoefficient : (var name coefficient s).hasUnitCoefficient = true)
    (h : (var name coefficient s).exactAt? ρ = some r) : r = ρ name := by
  obtain rfl : coefficient = .one := of_decide_eq_true hcoefficient
  rw [exactAt?, Binary64.toReal?_one, Option.map_some, one_mul] at h
  exact (Option.some.inj h).symm

/-! ### The sign of a term

The induction is over the term, and its statement is about the product of the two signs. A power is
the case in which the conditions are used: the sign that is handed on from an even power is that of
its base, which is right if it is read as positive. -/

section Positive

variable (hρ : ∀ name, 0 < ρ name)
include hρ

/-- Without additions and subtractions nothing cancels. -/
theorem ne_zero_of_exactAt? (hleaves : t.HasPositiveLeaves) (hsums : t.HasNoSums)
    (hr : t.exactAt? ρ = some r) : r ≠ 0 := by
  induction t generalizing r with
  | num v s => exact (Binary64.pos_of_isPositive (hleaves _ (self_mem_nodes _)).1 hr).ne'
  | var name coefficient s =>
    rw [exactAt?_var_eq_some (hleaves _ (self_mem_nodes _)).2 hr]
    exact (hρ name).ne'
  | neg operand s ih =>
    obtain ⟨x, hx, rfl⟩ := Option.map_eq_some_iff.mp hr
    exact neg_ne_zero.mpr
      (ih (forall_mem_nodes_neg.mp hleaves).2 (forall_mem_nodes_neg.mp hsums).2 hx)
  | power base exponent s ih =>
    obtain ⟨x, k, hx, -, hr⟩ := exactAt?_power_eq_some hr
    exact ne_zero_of_exactPow?
      (ih (forall_mem_nodes_power.mp hleaves).2 (forall_mem_nodes_power.mp hsums).2 hx) hr
  | binary op left right s ihl ihr =>
    obtain ⟨-, hleft, hright⟩ := forall_mem_nodes_binary.mp hleaves
    obtain ⟨hop, hsumsLeft, hsumsRight⟩ := forall_mem_nodes_binary.mp hsums
    cases op with
    | add | subtract => cases hop
    | multiply =>
      obtain ⟨x, y, hx, hy, rfl⟩ := exactAt?_multiply_eq_some hr
      exact mul_ne_zero (ihl hleft hsumsLeft hx) (ihr hright hsumsRight hy)
    | divide =>
      obtain ⟨x, y, hx, -, hne, rfl⟩ := exactAt?_divide_eq_some hr
      exact div_ne_zero (ihl hleft hsumsLeft hx) hne

/-- **The sign of a term is that of its factors and of its divisors.** -/
theorem sign_of_exactAt? (hleaves : t.HasPositiveLeaves) (hsums : t.HasNoSums)
    (heven : t.evenPowersReadPositive = true) (hr : t.exactAt? ρ = some r) :
    SignType.sign r = t.readSign * t.divisorSign ρ := by
  induction t generalizing r with
  | num v s =>
    exact sign_pos (Binary64.pos_of_isPositive (hleaves _ (self_mem_nodes _)).1 hr)
  | var name coefficient s =>
    rw [exactAt?_var_eq_some (hleaves _ (self_mem_nodes _)).2 hr]
    exact sign_pos (hρ name)
  | neg operand s ih =>
    obtain ⟨x, hx, rfl⟩ := Option.map_eq_some_iff.mp hr
    rw [Left.sign_neg, readSign, divisorSign, neg_mul,
      ih (forall_mem_nodes_neg.mp hleaves).2 (forall_mem_nodes_neg.mp hsums).2 heven hx]
  | power base exponent s ih =>
    obtain ⟨x, k, hx, hk, hr⟩ := exactAt?_power_eq_some hr
    obtain ⟨hread, hbase⟩ := Bool.and_eq_true_iff.mp heven
    have hleaves := (forall_mem_nodes_power.mp hleaves).2
    have hsums := (forall_mem_nodes_power.mp hsums).2
    obtain ⟨hsignEven, hsignOdd⟩ :=
      sign_of_exactPow? (ne_zero_of_exactAt? hρ hleaves hsums hx) hr
    rw [readSign, divisorSign]
    by_cases hexponent : exponent.isEven = true
    · have hone : base.readSign = 1 := by simpa [hexponent] using hread
      rw [if_pos hexponent, hone, hsignEven ((Binary64.isEven_iff hk).mp hexponent), mul_one]
    · rw [if_neg hexponent, hsignOdd fun h => hexponent ((Binary64.isEven_iff hk).mpr h)]
      exact ih hleaves hsums hbase hx
  | binary op left right s ihl ihr =>
    obtain ⟨-, hleft, hright⟩ := forall_mem_nodes_binary.mp hleaves
    obtain ⟨hop, hsumsLeft, hsumsRight⟩ := forall_mem_nodes_binary.mp hsums
    cases op with
    | add | subtract => cases hop
    | multiply =>
      obtain ⟨x, y, hx, hy, rfl⟩ := exactAt?_multiply_eq_some hr
      obtain ⟨hevenLeft, hevenRight⟩ := Bool.and_eq_true_iff.mp heven
      rw [sign_mul, ihl hleft hsumsLeft hevenLeft hx, ihr hright hsumsRight hevenRight hy]
      exact mul_mul_mul_comm ..
    | divide =>
      obtain ⟨x, y, hx, hy, -, rfl⟩ := exactAt?_divide_eq_some hr
      rw [sign_div, ihl hleft hsumsLeft heven hx, readSign, divisorSign, exactValue_of_eq_some hy]
      exact mul_assoc ..

/-- A term that is added or subtracted is its absolute value, with the sign it is read with and the
sign of its divisors. -/
theorem countSign_mul_exactValue (hleaves : t.HasPositiveLeaves) (hsums : t.HasNoSums)
    (heven : t.evenPowersReadPositive = true) (hvalue : t.exactAt? ρ = some (t.exactValue ρ))
    (negative : Bool) :
    (countSign negative : ℝ) * t.exactValue ρ =
      ((t.toTerm negative).sign : ℝ) * ((t.divisorSign ρ : ℝ) * |t.exactValue ρ|) := by
  calc (countSign negative : ℝ) * t.exactValue ρ
      = countSign negative * (SignType.sign (t.exactValue ρ) * |t.exactValue ρ|) := by
        rw [sign_mul_abs]
    _ = (countSign negative * t.readSign : SignType) *
          ((t.divisorSign ρ : ℝ) * |t.exactValue ρ|) := by
        rw [sign_of_exactAt? hρ hleaves hsums heven hvalue, SignType.coe_mul, SignType.coe_mul,
          mul_assoc, mul_assoc]
    _ = _ := by rw [sign_toTerm]

omit hρ

/-- Divisors that are not negative change no sign. -/
theorem divisorSign_eq_one (hr : t.exactAt? ρ = some r)
    (hdivisors : ∀ d ∈ t.divisors, 0 ≤ d.exactValue ρ) : t.divisorSign ρ = 1 := by
  induction t generalizing r with
  | num | var => rfl
  | neg operand s ih =>
    obtain ⟨x, hx, -⟩ := Option.map_eq_some_iff.mp hr
    exact ih hx hdivisors
  | power base exponent s ih =>
    obtain ⟨x, k, hx, -, -⟩ := exactAt?_power_eq_some hr
    rw [divisorSign, ih hx hdivisors, ite_self]
  | binary op left right s ihl ihr =>
    cases op with
    | add | subtract => rfl
    | multiply =>
      obtain ⟨x, y, hx, hy, -⟩ := exactAt?_multiply_eq_some hr
      obtain ⟨hleft, hright⟩ := List.forall_mem_append.mp hdivisors
      rw [divisorSign, ihl hx hleft, ihr hy hright, mul_one]
    | divide =>
      obtain ⟨x, y, hx, hy, hne, -⟩ := exactAt?_divide_eq_some hr
      obtain ⟨hleft, hright⟩ := List.forall_mem_append.mp hdivisors
      have hpos : 0 < right.exactValue ρ := by
        rw [exactValue_of_eq_some hy]
        exact (exactValue_of_eq_some hy ▸ hright right List.mem_cons_self).lt_of_ne' hne
      rw [divisorSign, ihl hx hleft, sign_pos hpos, mul_one]

end Positive

/-! ### The sum of the terms

That an expression is the sum of its terms holds without any condition on signs. The terms of a
right operand of a subtraction count with the opposite sign, so the statement is proved for both
signs at once. -/

/-- An expression that is its only term is the sum of its terms. -/
theorem exactAt?_eq_sum_of_additiveTerms_eq {negative : Bool}
    (hterms : e.additiveTerms negative = [(e, negative)])
    (h : ∀ t ∈ e.additiveTerms negative, (t.1.exactAt? ρ).isSome = true) :
    ∃ v, e.exactAt? ρ = some v ∧ (countSign negative : ℝ) * v =
      ((e.additiveTerms negative).map fun t => (countSign t.2 : ℝ) * t.1.exactValue ρ).sum := by
  have hdefined : (e.exactAt? ρ).isSome = true := h (e, negative) (hterms ▸ List.mem_cons_self)
  refine ⟨e.exactValue ρ, exactAt?_eq_some_exactValue hdefined, ?_⟩
  rw [hterms, List.map_singleton, List.sum_singleton]

/-- **A sum is the sum of its terms, each added or subtracted.** -/
theorem exactAt?_eq_sum_additiveTerms (negative : Bool)
    (h : ∀ t ∈ e.additiveTerms negative, (t.1.exactAt? ρ).isSome = true) :
    ∃ v, e.exactAt? ρ = some v ∧ (countSign negative : ℝ) * v =
      ((e.additiveTerms negative).map fun t => (countSign t.2 : ℝ) * t.1.exactValue ρ).sum := by
  induction e generalizing negative with
  | num | var | neg | power => exact exactAt?_eq_sum_of_additiveTerms_eq rfl h
  | binary op left right s ihl ihr =>
    cases op with
    | multiply | divide => exact exactAt?_eq_sum_of_additiveTerms_eq rfl h
    | add =>
      obtain ⟨hleft, hright⟩ := List.forall_mem_append.mp h
      obtain ⟨x, hx, hsumLeft⟩ := ihl negative hleft
      obtain ⟨y, hy, hsumRight⟩ := ihr negative hright
      refine ⟨x + y, by rw [exactAt?, hx, hy]; rfl, ?_⟩
      rw [additiveTerms, List.map_append, List.sum_append, ← hsumLeft, ← hsumRight, mul_add]
    | subtract =>
      -- the terms on the right count with the other sign
      obtain ⟨hleft, hright⟩ := List.forall_mem_append.mp h
      obtain ⟨x, hx, hsumLeft⟩ := ihl negative hleft
      obtain ⟨y, hy, hsumRight⟩ := ihr (!negative) hright
      refine ⟨x - y, by rw [exactAt?, hx, hy]; rfl, ?_⟩
      rw [additiveTerms, List.map_append, List.sum_append, ← hsumLeft, ← hsumRight, countSign_not,
        SignType.coe_neg, neg_mul, mul_sub, sub_eq_add_neg]

theorem signedSum_eq (value : Expr → ℝ) (e : Expr) :
    e.signedSum value = ((e.additiveTerms false).map fun t =>
      ((t.1.toTerm t.2).sign : ℝ) * value t.1).sum := by
  rw [signedSum, terms, summands, List.zipWith_map, List.zipWith_self]

/-- **A sum is put together again from signs and absolute values.** Let all additions and
subtractions stand on the outside, numbers and variables be positive and all terms be defined. Let
every even power outside divisors have a base that is read as positive. Then the value is the sum of
the absolute values of the terms, each with the sign it is read with and the sign of its divisors.
The latter can be left out if no divisor is negative. -/
theorem exactAt?_eq_signedSum (e : Expr) (ρ : String → ℝ) (hflat : e.IsFlatSum)
    (heven : ∀ t ∈ e.summands, t.evenPowersReadPositive = true) (hρ : ∀ name, 0 < ρ name)
    (hdefined : ∀ t ∈ e.summands, (t.exactAt? ρ).isSome = true) :
    e.exactAt? ρ =
        some (e.signedSum fun t => (t.divisorSign ρ : ℝ) * |t.exactValue ρ|) ∧
      ((∀ t ∈ e.summands, ∀ d ∈ t.divisors, 0 ≤ d.exactValue ρ) →
        e.exactAt? ρ = some (e.signedSum fun t => |t.exactValue ρ|)) := by
  obtain ⟨hleaves, hsums⟩ := hflat
  have hmem {t : Expr × Bool} (ht : t ∈ e.additiveTerms false) : t.1 ∈ e.summands :=
    List.mem_map_of_mem ht
  have hvalue {t : Expr × Bool} (ht : t ∈ e.additiveTerms false) :=
    exactAt?_eq_some_exactValue (hdefined t.1 (hmem ht))
  obtain ⟨v, hv, hsum⟩ := exactAt?_eq_sum_additiveTerms false fun t ht => hdefined t.1 (hmem ht)
  have hleavesTerm {t : Expr × Bool} (ht : t ∈ e.additiveTerms false) : t.1.HasPositiveLeaves :=
    fun n hn => hleaves n (nodes_subset_of_mem (mem_nodes_of_mem_additiveTerms false ht) hn)
  have hterm {t : Expr × Bool} (ht : t ∈ e.additiveTerms false) :=
    countSign_mul_exactValue hρ (hleavesTerm ht) (hsums t.1 (hmem ht)) (heven t.1 (hmem ht))
      (hvalue ht) t.2
  have hfirst : e.exactAt? ρ =
      some (e.signedSum fun t => (t.divisorSign ρ : ℝ) * |t.exactValue ρ|) := by
    rw [hv, signedSum_eq, ← List.map_congr_left fun t ht => hterm ht, ← hsum]
    exact congrArg some (one_mul v).symm
  refine ⟨hfirst, fun hdivisors => ?_⟩
  rw [hfirst, signedSum_eq, signedSum_eq]
  refine congrArg (fun values : List ℝ => some values.sum) (List.map_congr_left fun t ht => ?_)
  rw [divisorSign_eq_one (hvalue ht) (hdivisors t.1 (hmem ht)), SignType.coe_one, one_mul]

/-- The second term of `x-(-y)^-1/2`. -/
def inverseTerm : Expr :=
  .binary .divide
    (.power (.neg (.var "y" .one (some ⟨4, 5⟩)) (some ⟨2, 6⟩)) .minusOne (some ⟨2, 9⟩))
    (.num .two (some ⟨10, 11⟩)) (some ⟨2, 11⟩)

/-- The sum in `x-(-y)^-1/2`. -/
def inverseSum : Expr :=
  .binary .subtract (.var "x" .one (some ⟨0, 1⟩)) inverseTerm (some ⟨0, 11⟩)

theorem exactAt?_inverseTerm : inverseTerm.exactAt? (fun _ => 1) = some (-1 / 2) := by
  have hminusOne : Binary64.minusOne.toReal? = some ((-1 : ℤ) : ℝ) :=
    Binary64.toInt?_eq_some_iff.mp (by decide +kernel)
  have hbase : (neg (var "y" .one (some ⟨4, 5⟩)) (some ⟨2, 6⟩)).exactAt? (fun _ => 1) =
      some (-1) := by simp [exactAt?]
  have hpow : exactPow? (-1) (-1 : ℤ) = some (-1) := by
    rw [exactPow?_intCast (by norm_num)]
    norm_num
  have hinverse : (power (neg (var "y" .one (some ⟨4, 5⟩)) (some ⟨2, 6⟩)) .minusOne
      (some ⟨2, 9⟩)).exactAt? (fun _ => 1) = some (-1) := by
    rw [exactAt?, hbase, hminusOne]
    exact hpow
  have hquotient : Operator.realResult? .divide (-1) 2 = some (-1 / 2) := if_neg two_ne_zero
  rw [inverseTerm, exactAt?, hinverse, exactAt?, Binary64.toReal?_two]
  exact hquotient

/-- The second term of `x-(-y)^-1/2` is read as positive, and the value is the sum of the absolute
values. -/
theorem exactAt?_eq_signedSum_inverseSum :
    (inverseSum.IsFlatSum ∧ (∀ t ∈ inverseSum.summands, t.evenPowersReadPositive = true) ∧
      ∀ t ∈ inverseSum.summands, (t.exactAt? fun _ => 1).isSome = true) ∧
    (inverseTerm.toTerm true).sign = 1 ∧
    inverseSum.exactAt? (fun _ => 1) =
      some (inverseSum.signedSum fun t => |t.exactValue fun _ => 1|) := by
  have hflat : inverseSum.IsFlatSum := by decide +kernel
  have heven : ∀ t ∈ inverseSum.summands, t.evenPowersReadPositive = true := by decide +kernel
  have hdefined : ∀ t ∈ inverseSum.summands, (t.exactAt? fun _ => 1).isSome = true := by
    refine List.forall_mem_cons.mpr ⟨?_, List.forall_mem_singleton.mpr ?_⟩
    · simp [exactAt?]
    · exact congrArg Option.isSome exactAt?_inverseTerm
  refine ⟨⟨hflat, heven, hdefined⟩, by decide +kernel, ?_⟩
  obtain ⟨-, hsum⟩ :=
    exactAt?_eq_signedSum inverseSum (fun _ => 1) hflat heven (fun _ => one_pos) hdefined
  -- the only divisor is two
  have htwo : (num .two (some ⟨10, 11⟩)).exactValue (fun _ => 1) = 2 :=
    exactValue_of_eq_some Binary64.toReal?_two
  refine hsum (List.forall_mem_cons.mpr ⟨List.forall_mem_nil _, List.forall_mem_singleton.mpr ?_⟩)
  exact List.forall_mem_singleton.mpr (htwo ▸ zero_le_two)

/-- The quotient in `x/(-2)`. -/
def negativeDivisor : Expr :=
  .binary .divide (.var "x" .one (some ⟨0, 1⟩))
    (.neg (.num .two (some ⟨4, 5⟩)) (some ⟨2, 6⟩)) (some ⟨0, 6⟩)

/-- It is not so that a sum is always the sum of the absolute values of its terms, each with the
sign it is read with: `x/(-2)` is read as positive. -/
theorem not_forall_exactAt?_eq_signedSum :
    ¬ ∀ (e : Expr) (ρ : String → ℝ), e.IsFlatSum → (∀ name, 0 < ρ name) →
      (∀ t ∈ e.summands, (t.exactAt? ρ).isSome = true) →
        e.exactAt? ρ = some (e.signedSum fun t => |t.exactValue ρ|) := by
  intro hall
  have hvalue : negativeDivisor.exactAt? (fun _ => 1) = some (-1 / 2) := by
    norm_num [negativeDivisor, exactAt?, Operator.realResult?]
  have hterms : negativeDivisor.terms = [⟨some "x", .one, false, some ⟨0, 6⟩⟩] := rfl
  have hsummands : negativeDivisor.summands = [negativeDivisor] := rfl
  have hread := hall negativeDivisor (fun _ => 1) (by decide +kernel) (fun _ => one_pos)
    (by rw [hsummands, List.forall_mem_singleton, hvalue]; rfl)
  rw [hvalue, signedSum, hterms, hsummands] at hread
  norm_num [exactValue_of_eq_some hvalue, Term.sign, countSign] at hread

end Expr

end SchoolAlgebra
