import Mathlib
import SchoolAlgebra.Proofs.Expr.Nodes

/-!
# Expressions in exact arithmetic

The value of an expression over the real numbers, where nothing is rounded and nothing overflows.
Undefined are an infinite literal or exponent, a division by zero, a negative power of zero and a
power of a negative number whose exponent is not an integer.

Where the variables are positive, a product is a constant times a product of powers of the
variables. The exponents are `Expr.degrees`, and the constant is the value at which every variable
is one. In this form two products can be compared.

## Positive variables

Powers with exponents that are not integers are defined only of numbers that are not negative, and a
product may have such an exponent on any of its parts. Where the variables are positive so is every
product of their powers, and a positive factor can be taken out of any power. So the variables are
pulled out of a product from the inside to the outside, and what stays behind is the same product
with one in the place of each variable.

## Main definitions

* `Expr.exactAt?` — the exact value under an assignment of real numbers
* `Expr.degrees` — the exponents of the variables in a product
* `Expr.IsProduct` — products: sums and divisors in them have no variables

## Main results

* `powers_injective` — products of powers are told apart by their exponents
* `Expr.exactAt?_eq_map_powers` — a product is its value at one times its powers
-/

namespace SchoolAlgebra

/-! ### Exact values -/

theorem cast_oneUnits_pos : (0 : ℝ) < oneUnits := Nat.cast_pos.mpr oneUnits_pos

/-- The number as a real number. -/
noncomputable def Number.toReal (x : Number) : ℝ := x.units / oneUnits

@[simp] theorem Number.toReal_one : Number.one.toReal = 1 := by
  have hunits : Number.one.units = oneUnits := by
    rw [units, magnitude_one]
    rfl
  rw [toReal, hunits, Int.cast_natCast, div_self cast_oneUnits_pos.ne']

theorem Number.toReal_of_isZero {x : Number} (h : x.isZero = true) : x.toReal = 0 := by
  have hmantissa : x.mantissa = 0 := beq_iff_eq.mp h
  have hmagnitude : x.magnitude = 0 := by rw [magnitude, hmantissa, Nat.zero_mul]
  have hunits : x.units = 0 := by
    rw [units, hmagnitude]
    split <;> rfl
  rw [toReal, hunits, Int.cast_zero, zero_div]

/-- The number as a real number, unless it is infinite. -/
noncomputable def Binary64.toReal? (x : Binary64) : Option ℝ := x.finite?.map Number.toReal

@[simp] theorem Binary64.toReal?_one : Binary64.one.toReal? = some 1 :=
  congrArg some Number.toReal_one

/-- A power is undefined if it is a negative one of zero or no integral one of a negative number. -/
def PowIsUndefined (base exponent : ℝ) : Prop :=
  base = 0 ∧ exponent < 0 ∨ base < 0 ∧ ¬ ∃ n : ℤ, n = exponent

open Classical in
/-- The power of a real number, if it is defined. -/
noncomputable def exactPow? (base exponent : ℝ) : Option ℝ :=
  if PowIsUndefined base exponent then none else some (base ^ exponent)

theorem powIsUndefined_mul {p : ℝ} (hp : 0 < p) (c k : ℝ) :
    PowIsUndefined (c * p) k ↔ PowIsUndefined c k := by
  have hzero : c * p = 0 ↔ c = 0 := by simp [hp.ne']
  have hneg : c * p < 0 ↔ c < 0 := by simp [mul_neg_iff, hp, hp.not_gt]
  rw [PowIsUndefined, PowIsUndefined, hzero, hneg]

/-- A positive factor comes out of a power. -/
theorem exactPow?_mul {p : ℝ} (hp : 0 < p) (c k : ℝ) :
    exactPow? (c * p) k = (exactPow? c k).map (· * p ^ k) := by
  by_cases hundefined : PowIsUndefined c k
  · rw [exactPow?, exactPow?, if_pos hundefined,
      if_pos ((powIsUndefined_mul hp c k).mpr hundefined)]
    rfl
  · rw [exactPow?, exactPow?, if_neg hundefined,
      if_neg ((powIsUndefined_mul hp c k).not.mpr hundefined)]
    refine congrArg some ?_
    rcases lt_or_ge c 0 with hc | hc
    · obtain ⟨n, rfl⟩ : ∃ n : ℤ, n = k := by
        by_contra hn
        exact hundefined (.inr ⟨hc, hn⟩)
      rw [Real.rpow_intCast, Real.rpow_intCast, Real.rpow_intCast, mul_zpow]
    · exact Real.mul_rpow hc hp.le

/-- The result of an operator on real numbers, if it is defined. -/
noncomputable def Operator.realResult? : Operator → ℝ → ℝ → Option ℝ
  | .add, x, y => some (x + y)
  | .subtract, x, y => some (x - y)
  | .multiply, x, y => some (x * y)
  | .divide, x, y => if y = 0 then none else some (x / y)

namespace Expr

/-- The exact value of an expression when the variables have the values that `ρ` gives them. -/
noncomputable def exactAt? (ρ : String → ℝ) : Expr → Option ℝ
  | .num v _ => v.toReal?
  | .var name coefficient _ => coefficient.toReal?.map (· * ρ name)
  | .binary op left right _ => do
    let x ← left.exactAt? ρ
    let y ← right.exactAt? ρ
    op.realResult? x y
  | .neg e _ => (e.exactAt? ρ).map (- ·)
  | .power base exponent _ => do
    let x ← base.exactAt? ρ
    let k ← exponent.toReal?
    exactPow? x k

/-- The names of the variables, from left to right. -/
def names : Expr → List String
  | .num .. => []
  | .var name .. => [name]
  | .binary _ left right _ => left.names ++ right.names
  | .neg e _ => e.names
  | .power base _ _ => base.names

/-- The value depends on the variables that occur. -/
theorem exactAt?_congr {ρ ρ' : String → ℝ} {e : Expr} (h : ∀ name ∈ e.names, ρ name = ρ' name) :
    e.exactAt? ρ = e.exactAt? ρ' := by
  induction e with
  | num => rfl
  | var name => rw [exactAt?, exactAt?, h name List.mem_cons_self]
  | binary op left right s ihl ihr =>
    obtain ⟨hleft, hright⟩ := List.forall_mem_append.mp h
    rw [exactAt?, exactAt?, ihl hleft, ihr hright]
  | neg operand s ih => rw [exactAt?, exactAt?, ih h]
  | power base exponent s ih => rw [exactAt?, exactAt?, ih h]

theorem exactAt?_of_names_eq_nil {e : Expr} (h : e.names = []) (ρ ρ' : String → ℝ) :
    e.exactAt? ρ = e.exactAt? ρ' :=
  exactAt?_congr fun name hname => by simp [h] at hname

end Expr

/-! ### Products of powers

A monomial is a list of exponents, one for each name. Its value at positive arguments is
multiplicative in the exponents, and choosing the arguments well lets each exponent be read off. -/

/-- The product of powers of the variables. -/
noncomputable def powers (ρ : String → ℝ) (f : String →₀ ℝ) : ℝ := f.prod fun name k => ρ name ^ k

section Powers

variable {ρ : String → ℝ} (hρ : ∀ name, 0 < ρ name)

@[simp] theorem powers_zero (ρ : String → ℝ) : powers ρ 0 = 1 := Finsupp.prod_zero_index

@[simp] theorem powers_single (ρ : String → ℝ) (name : String) (k : ℝ) :
    powers ρ (.single name k) = ρ name ^ k :=
  Finsupp.prod_single_index (Real.rpow_zero _)

@[simp] theorem powers_ones (f : String →₀ ℝ) : powers (fun _ => 1) f = 1 := by
  simp [powers, Finsupp.prod]

include hρ

theorem powers_pos (f : String →₀ ℝ) : 0 < powers ρ f :=
  Finset.prod_pos fun name _ => Real.rpow_pos_of_pos (hρ name) _

theorem powers_add (f g : String →₀ ℝ) : powers ρ (f + g) = powers ρ f * powers ρ g :=
  Finsupp.prod_add_index' (fun _ => Real.rpow_zero _) fun name => Real.rpow_add (hρ name)

theorem powers_smul (k : ℝ) (f : String →₀ ℝ) : powers ρ (k • f) = powers ρ f ^ k := by
  rw [powers, Finsupp.prod_of_support_subset _ Finsupp.support_smul _ fun _ _ => Real.rpow_zero _,
    powers, Finsupp.prod,
    ← Real.finsetProd_rpow _ _ fun name _ => (Real.rpow_pos_of_pos (hρ name) _).le]
  refine Finset.prod_congr rfl fun name _ => ?_
  rw [Finsupp.smul_apply, smul_eq_mul, mul_comm, Real.rpow_mul (hρ name).le]

omit hρ

/-- With one variable at two and the others at one, the exponent of that variable shows. -/
theorem powers_update (f : String →₀ ℝ) (name : String) :
    powers (Function.update (fun _ => 1) name 2) f = 2 ^ f name := by
  rw [powers, Finsupp.prod_eq_single name]
  · rw [Function.update_self]
  · intro other _ hne
    rw [Function.update_of_ne hne, Real.one_rpow]
  · intro _
    exact Real.rpow_zero _

/-- **Products of powers are told apart by their exponents.** -/
theorem powers_injective {f g : String →₀ ℝ}
    (h : ∀ ρ : String → ℝ, (∀ name, 0 < ρ name) → powers ρ f = powers ρ g) : f = g := by
  ext name
  have hpos (other : String) : 0 < Function.update (fun _ => (1 : ℝ)) name 2 other := by
    by_cases hne : other = name
    · rw [hne, Function.update_self]
      exact two_pos
    · rw [Function.update_of_ne hne]
      exact one_pos
  have hpow := h _ hpos
  rw [powers_update, powers_update] at hpow
  exact (Real.rpow_right_inj two_pos one_lt_two.ne').mp hpow

end Powers

namespace Expr

/-! ### Products

`Expr.degrees` has nothing to say of sums in which variables occur, of divisors with variables and
of coefficients. `IsProduct` excludes the first and `IsPlain` the other two. Sums and divisors
without variables are constants, and may occur anywhere. -/

/-- Whether the expression is a variable with the coefficient one, or no variable. -/
def hasUnitCoefficient : Expr → Bool
  | .var _ coefficient _ => coefficient = .one
  | _ => true

/-- Whether the expression is a quotient with a divisor without variables, or no quotient. -/
def hasConstantDivisor : Expr → Bool
  | .binary .divide _ right _ => right.names.isEmpty
  | _ => true

/-- Whether the expression is a sum without variables, or no sum. -/
def isConstantSum (e : Expr) : Bool := !e.isAdditive || e.names.isEmpty

/-- Every variable has the coefficient one, and no divisor has a variable. -/
def IsPlain (e : Expr) : Prop :=
  ∀ n ∈ e.nodes, n.hasUnitCoefficient = true ∧ n.hasConstantDivisor = true

instance (e : Expr) : Decidable e.IsPlain :=
  inferInstanceAs (Decidable (∀ n ∈ e.nodes, _ ∧ _))

/-- No sum in the expression has a variable. -/
def IsProduct (e : Expr) : Prop := ∀ n ∈ e.nodes, n.isConstantSum = true

instance (e : Expr) : Decidable e.IsProduct :=
  inferInstanceAs (Decidable (∀ n ∈ e.nodes, _))

/-- The exponents of the variables in a product. -/
noncomputable def degrees : Expr → String →₀ ℝ
  | .num .. => 0
  | .var name .. => .single name 1
  | .binary .multiply left right _ => left.degrees + right.degrees
  | .binary .divide left _ _ => left.degrees
  | .binary _ _ _ _ => 0
  | .neg e _ => e.degrees
  | .power base exponent _ => (exponent.toReal?.getD 0) • base.degrees

variable {ρ : String → ℝ} {e : Expr}

theorem degrees_of_names_eq_nil (h : e.names = []) : e.degrees = 0 := by
  induction e with
  | num => rfl
  | var => cases h
  | neg _ _ ih => exact ih h
  | power _ exponent _ ih => rw [degrees, ih h, smul_zero]
  | binary op left right s ihl ihr =>
    obtain ⟨hleft, hright⟩ := List.append_eq_nil_iff.mp h
    cases op with
    | add | subtract => rfl
    | multiply => rw [degrees, ihl hleft, ihr hright, add_zero]
    | divide => exact ihl hleft

/-- An expression without variables is a constant. -/
theorem exactAt?_eq_map_powers_of_names_eq_nil (h : e.names = []) (ρ : String → ℝ) :
    e.exactAt? ρ = (e.exactAt? fun _ => 1).map (· * powers ρ e.degrees) := by
  rw [degrees_of_names_eq_nil h, exactAt?_of_names_eq_nil h ρ fun _ => 1]
  simp

/-- **A product is its value at one times its powers.** -/
theorem exactAt?_eq_map_powers (hρ : ∀ name, 0 < ρ name) (hplain : e.IsPlain)
    (hproduct : e.IsProduct) :
    e.exactAt? ρ = (e.exactAt? fun _ => 1).map (· * powers ρ e.degrees) := by
  induction e with
  | num => exact exactAt?_eq_map_powers_of_names_eq_nil rfl ρ
  | var name coefficient s =>
    obtain rfl : coefficient = .one := of_decide_eq_true (hplain _ (self_mem_nodes _)).1
    simp [exactAt?, degrees]
  | neg operand s ih =>
    rw [exactAt?, ih (forall_mem_nodes_neg.mp hplain).2 (forall_mem_nodes_neg.mp hproduct).2,
      exactAt?, degrees, Option.map_map, Option.map_map]
    exact congrArg (Option.map · _) (funext fun x => (neg_mul x _).symm)
  | power base exponent s ih =>
    rw [exactAt?, exactAt?,
      ih (forall_mem_nodes_power.mp hplain).2 (forall_mem_nodes_power.mp hproduct).2, degrees]
    cases base.exactAt? fun _ => 1 with
    | none => rfl
    | some c =>
      cases exponent.toReal? with
      | none => rfl
      | some k =>
        rw [Option.getD_some, powers_smul hρ]
        exact exactPow?_mul (powers_pos hρ _) c k
  | binary op left right s ihl ihr =>
    obtain ⟨⟨-, hdivisor⟩, hplainLeft, hplainRight⟩ := forall_mem_nodes_binary.mp hplain
    obtain ⟨hsum, hproductLeft, hproductRight⟩ := forall_mem_nodes_binary.mp hproduct
    cases op with
    | add | subtract =>
      exact exactAt?_eq_map_powers_of_names_eq_nil (List.isEmpty_iff.mp hsum) ρ
    | multiply =>
      rw [exactAt?, exactAt?, ihl hplainLeft hproductLeft, ihr hplainRight hproductRight, degrees]
      cases left.exactAt? fun _ => 1 with
      | none => rfl
      | some c =>
        cases right.exactAt? fun _ => 1 with
        | none => rfl
        | some d =>
          refine congrArg some ?_
          rw [powers_add hρ]
          exact mul_mul_mul_comm ..
    | divide =>
      have hright := exactAt?_of_names_eq_nil (List.isEmpty_iff.mp hdivisor) ρ fun _ => 1
      rw [exactAt?, exactAt?, ihl hplainLeft hproductLeft, hright, degrees]
      cases left.exactAt? fun _ => 1 with
      | none => rfl
      | some c =>
        cases right.exactAt? fun _ => 1 with
        | none => rfl
        | some d =>
          change Operator.realResult? .divide _ d = (Operator.realResult? .divide c d).map _
          rw [Operator.realResult?, Operator.realResult?]
          split
          · rfl
          · exact congrArg some (mul_div_right_comm ..)

end Expr

end SchoolAlgebra
