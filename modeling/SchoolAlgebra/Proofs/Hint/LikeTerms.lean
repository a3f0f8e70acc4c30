import Mathlib
import SchoolAlgebra.Proofs.Expr.Exact
import SchoolAlgebra.Proofs.Hint.Places

/-!
# Which like terms are alike

A group of like terms is put together by the variable and the exponent that were read off each term,
and a term of the group should be a multiple of that power. Whether it is one is decided here for
every product: exactly if the exponents of its variables are those of the power, or the constant
factor is zero or undefined.

The walk through the factors of a term gives the right exponents for a monomial, which is a constant
with at most one variable, alone or to a power. In other products it can go wrong. It keeps the last
variable and the last exponent, so it takes `x * x` for a multiple of `x` and `3 ^ 2 * x` for one of
`x ^ 2`.

## What it means to be a multiple

A term and a power are compared as functions of positive real numbers: one constant has to do for
all assignments at which the term is defined. So the comparison does not depend on how the term is
written, and a product of zero with anything is a multiple of every power. That a product is a
constant times its powers reduces the question to exponents.

## Main definitions

* `Expr.alike` — the terms of a sum that make up a group
* `Expr.IsMultipleOf` — to be a constant times a power in exact arithmetic
* `Expr.IsMonomial` — constants with at most one variable

## Main results

* `Hint.isMultipleOf_iff_of_mem_alike` — the terms of a group that are multiples of its power
* `Hint.not_forall_isMultipleOf` — not all are
-/

namespace SchoolAlgebra

/-! ### Multiples of a power

A power of one variable has one exponent other than zero, and a constant has none. By the uniqueness
of exponents, a product with a constant factor other than zero is a multiple of the power exactly if
it has these exponents. -/

/-- The power of a variable, or one if there is no variable. -/
noncomputable def namePower (ρ : String → ℝ) (name? : Option String) (exponent : Binary64) : ℝ :=
  match name? with
  | none => 1
  | some name => ρ name ^ exponent.toReal?.getD 0

/-- The exponents of the variables in a power. -/
noncomputable def nameDegrees (name? : Option String) (exponent : Binary64) : String →₀ ℝ :=
  match name? with
  | none => 0
  | some name => .single name (exponent.toReal?.getD 0)

theorem namePower_eq_powers (ρ : String → ℝ) (name? : Option String) (exponent : Binary64) :
    namePower ρ name? exponent = powers ρ (nameDegrees name? exponent) := by
  cases name? with
  | none => exact (powers_zero ρ).symm
  | some name => exact (powers_single ρ name _).symm

theorem Binary64.toReal?_unsignZero (x : Binary64) : x.unsignZero.toReal? = x.toReal? := by
  cases x with
  | infinite => rfl
  | finite x =>
    rw [unsignZero]
    split
    · next hzero =>
      exact congrArg some ((Number.toReal_of_isZero rfl).trans (Number.toReal_of_isZero hzero).symm)
    · rfl

/-- Exponents that differ in the sign of a zero are the same. -/
theorem nameDegrees_congr {name? : Option String} {x y : Binary64}
    (h : x.unsignZero = y.unsignZero) : nameDegrees name? x = nameDegrees name? y := by
  have htoReal : x.toReal? = y.toReal? := by
    rw [← x.toReal?_unsignZero, h, y.toReal?_unsignZero]
  cases name? with
  | none => rfl
  | some name => rw [nameDegrees, nameDegrees, htoReal]

namespace Expr

variable {e t left right : Expr} {name? : Option String} {exponent : Binary64}

/-- Whether in exact arithmetic the expression is a constant times the power of a variable, or a
constant if there is no variable, wherever it is defined and the variables are positive. -/
def IsMultipleOf (e : Expr) (name? : Option String) (exponent : Binary64) : Prop :=
  ∃ c : ℝ, ∀ ρ : String → ℝ, (∀ name, 0 < ρ name) → ∀ w, e.exactAt? ρ = some w →
    w = c * namePower ρ name? exponent

/-- The constant factor of a product: its value at one, or zero if that is undefined. -/
noncomputable def coefficient (e : Expr) : ℝ := (e.exactAt? fun _ => 1).getD 0

/-- A product is a multiple of a power exactly if it vanishes or has the exponents of the power. -/
theorem isMultipleOf_iff (hplain : e.IsPlain) (hproduct : e.IsProduct) :
    e.IsMultipleOf name? exponent ↔ e.coefficient = 0 ∨ e.degrees = nameDegrees name? exponent := by
  have hform (ρ : String → ℝ) (hρ : ∀ name, 0 < ρ name) :=
    exactAt?_eq_map_powers hρ hplain hproduct
  cases hone : e.exactAt? fun _ => 1 with
  | none =>
    refine iff_of_true ⟨0, fun ρ hρ w hw => ?_⟩ (.inl ?_)
    · rw [hform ρ hρ, hone] at hw
      cases hw
    · rw [coefficient, hone, Option.getD_none]
  | some c =>
    have hvalue (ρ : String → ℝ) (hρ : ∀ name, 0 < ρ name) :
        e.exactAt? ρ = some (c * powers ρ e.degrees) := by
      rw [hform ρ hρ, hone]
      rfl
    rw [coefficient, hone, Option.getD_some]
    constructor
    · rintro ⟨d, hd⟩
      refine or_iff_not_imp_left.mpr fun hc => powers_injective fun ρ hρ => ?_
      obtain rfl : c = d := by
        have hdOne := hd (fun _ => 1) (fun _ => one_pos) c hone
        rwa [namePower_eq_powers, powers_ones, mul_one] at hdOne
      have hdρ := hd ρ hρ _ (hvalue ρ hρ)
      rw [namePower_eq_powers] at hdρ
      exact mul_left_cancel₀ hc hdρ
    · rintro (hc | hdegrees)
      · refine ⟨0, fun ρ hρ w hw => ?_⟩
        obtain rfl := Option.some.inj ((hvalue ρ hρ).symm.trans hw)
        rw [hc, zero_mul, zero_mul]
      · refine ⟨c, fun ρ hρ w hw => ?_⟩
        obtain rfl := Option.some.inj ((hvalue ρ hρ).symm.trans hw)
        rw [namePower_eq_powers, hdegrees]

/-! ### Monomials

The walk through the factors keeps what was read last. A constant factor has nothing to keep, as
long as powers do not occur in it, and so the one variable of a monomial is still there at the end
of the walk, wherever it stood. -/

/-- Numbers, signs and products of them, divided by expressions without variables. -/
inductive IsConstantFactor : Expr → Prop where
  | num {v : Binary64} {s : Option Span} : IsConstantFactor (.num v s)
  | neg {e : Expr} {s : Option Span} (h : IsConstantFactor e) : IsConstantFactor (.neg e s)
  | multiply {left right : Expr} {s : Option Span} (hleft : IsConstantFactor left)
      (hright : IsConstantFactor right) : IsConstantFactor (.binary .multiply left right s)
  | divide {left right : Expr} {s : Option Span} (hleft : IsConstantFactor left)
      (hright : right.names = []) : IsConstantFactor (.binary .divide left right s)

/-- Constant factors and at most one variable, alone or to a power, in any order. -/
inductive IsMonomial : Expr → Prop where
  | constant {e : Expr} (h : IsConstantFactor e) : IsMonomial e
  | var {name : String} {coefficient : Binary64} {s : Option Span} :
      IsMonomial (.var name coefficient s)
  | power {name : String} {coefficient exponent : Binary64} {s s' : Option Span} :
      IsMonomial (.power (.var name coefficient s) exponent s')
  | neg {e : Expr} {s : Option Span} (h : IsMonomial e) : IsMonomial (.neg e s)
  | multiplyLeft {left right : Expr} {s : Option Span} (hleft : IsMonomial left)
      (hright : IsConstantFactor right) : IsMonomial (.binary .multiply left right s)
  | multiplyRight {left right : Expr} {s : Option Span} (hleft : IsConstantFactor left)
      (hright : IsMonomial right) : IsMonomial (.binary .multiply left right s)
  | divide {left right : Expr} {s : Option Span} (hleft : IsMonomial left)
      (hright : right.names = []) : IsMonomial (.binary .divide left right s)

theorem names_eq_nil_of_mem_nodes (h : e.names = []) : ∀ n ∈ e.nodes, n.names = [] := by
  induction e with
  | num | var => simpa [nodes] using h
  | neg _ _ ih => exact forall_mem_nodes_neg.mpr ⟨h, ih h⟩
  | power _ _ _ ih => exact forall_mem_nodes_power.mpr ⟨h, ih h⟩
  | binary _ _ _ _ ihl ihr =>
    obtain ⟨hleft, hright⟩ := List.append_eq_nil_iff.mp h
    exact forall_mem_nodes_binary.mpr ⟨h, ihl hleft, ihr hright⟩

theorem isProduct_of_names_eq_nil (h : e.names = []) : e.IsProduct := by
  intro n hn
  simp [isConstantSum, names_eq_nil_of_mem_nodes h n hn]

theorem IsConstantFactor.isProduct (h : e.IsConstantFactor) : e.IsProduct := by
  induction h with
  | num => simp [IsProduct, nodes, isConstantSum, isAdditive]
  | neg _ ih => exact forall_mem_nodes_neg.mpr ⟨rfl, ih⟩
  | multiply _ _ ihl ihr => exact forall_mem_nodes_binary.mpr ⟨rfl, ihl, ihr⟩
  | divide _ hright ih =>
    exact forall_mem_nodes_binary.mpr ⟨rfl, ih, isProduct_of_names_eq_nil hright⟩

theorem IsMonomial.isProduct (h : e.IsMonomial) : e.IsProduct := by
  induction h with
  | constant h => exact h.isProduct
  | var | power => simp [IsProduct, nodes, isConstantSum, isAdditive]
  | neg _ ih => exact forall_mem_nodes_neg.mpr ⟨rfl, ih⟩
  | multiplyLeft _ hright ih => exact forall_mem_nodes_binary.mpr ⟨rfl, ih, hright.isProduct⟩
  | multiplyRight hleft _ ih => exact forall_mem_nodes_binary.mpr ⟨rfl, hleft.isProduct, ih⟩
  | divide _ hright ih =>
    exact forall_mem_nodes_binary.mpr ⟨rfl, ih, isProduct_of_names_eq_nil hright⟩

theorem IsConstantFactor.degrees_eq_zero (h : e.IsConstantFactor) : e.degrees = 0 := by
  induction h with
  | num => rfl
  | neg _ ih | divide _ _ ih => exact ih
  | multiply _ _ ihl ihr => rw [degrees, ihl, ihr, add_zero]

/-- A constant factor leaves the variable and the exponent that were read before. -/
theorem IsConstantFactor.key_readFactors (h : e.IsConstantFactor) (t : Term) :
    (e.readFactors t).name? = t.name? ∧ (e.readFactors t).exponent = t.exponent := by
  induction h generalizing t with
  | num => exact ⟨rfl, rfl⟩
  | neg _ ih => exact ih _
  | multiply _ _ ihl ihr => exact ⟨(ihr _).1.trans (ihl t).1, (ihr _).2.trans (ihl t).2⟩
  | divide _ _ ih => exact ih t

/-- Read from the start, a monomial has the exponents of the variable and the exponent found. -/
theorem IsMonomial.degrees_eq (h : e.IsMonomial) {t : Term} (hname : t.name? = none)
    (hexponent : t.exponent = .one) :
    e.degrees = nameDegrees (e.readFactors t).name? (e.readFactors t).exponent := by
  induction h generalizing t with
  | constant h =>
    rw [h.degrees_eq_zero, (h.key_readFactors t).1, hname]
    rfl
  | var => simp [degrees, readFactors, nameDegrees, hexponent]
  | power => simp [degrees, readFactors, nameDegrees]
  | neg _ ih => exact ih hname hexponent
  | multiplyLeft _ hright ih =>
    rw [degrees, hright.degrees_eq_zero, add_zero, readFactors, (hright.key_readFactors _).1,
      (hright.key_readFactors _).2]
    exact ih hname hexponent
  | multiplyRight hleft _ ih =>
    rw [degrees, hleft.degrees_eq_zero, zero_add, readFactors]
    exact ih ((hleft.key_readFactors t).1.trans hname)
      ((hleft.key_readFactors t).2.trans hexponent)
  | divide _ _ ih => exact ih hname hexponent

/-! ### Groups -/

/-- The terms of a sum with this variable and this exponent. -/
def alike (e : Expr) (name? : Option String) (exponent : Binary64) : List Expr :=
  ((e.additiveTerms false).filter fun t =>
    (t.1.toTerm t.2).key = (name?, exponent.unsignZero)).map Prod.fst

theorem exists_of_mem_alike (h : t ∈ e.alike name? exponent) :
    t ∈ e.nodes ∧ ∃ negative, (t.toTerm negative).key = (name?, exponent.unsignZero) := by
  obtain ⟨⟨t, negative⟩, ht, rfl⟩ := List.mem_map.mp h
  obtain ⟨hterm, hkey⟩ := List.mem_filter.mp ht
  exact ⟨mem_nodes_of_mem_additiveTerms false hterm, negative, of_decide_eq_true hkey⟩

theorem filterMap_span_alike (e : Expr) (name? : Option String) (exponent : Binary64) :
    (e.alike name? exponent).filterMap Expr.span =
      (e.terms.filter (·.key = (name?, exponent.unsignZero))).filterMap Term.span := by
  rw [alike, terms, List.filter_map, List.filterMap_map, List.filterMap_map]
  refine List.filterMap_congr fun t _ => ?_
  exact (span_toTerm t.1 t.2).symm

theorem length_alike (e : Expr) (name? : Option String) (exponent : Binary64) :
    (e.alike name? exponent).length =
      (e.terms.filter (·.key = (name?, exponent.unsignZero))).length := by
  rw [alike, terms, List.filter_map, List.length_map, List.length_map]
  rfl

end Expr

/-- **The terms of a group that are multiples of its power.** Let every variable have the
coefficient one, and no divisor a variable. A group of like terms has all terms of the sum with its
variable and its exponent, two or more. A monomial among them is a multiple of the power. In general
a product among them is a multiple of the power exactly if the exponents of its variables are those
of the power or its constant factor is zero or undefined. -/
theorem Hint.isMultipleOf_iff_of_mem_alike (e : Expr) (name? : Option String) (exponent : Binary64)
    (spans : List Span) (hplain : e.IsPlain)
    (h : .likeTerms name? exponent spans ∈ Hint.likeTermGroups e) :
    (2 ≤ (e.alike name? exponent).length ∧
      spans = (e.alike name? exponent).filterMap Expr.span) ∧
    ∀ t ∈ e.alike name? exponent,
      (t.IsMonomial → t.IsMultipleOf name? exponent) ∧
      (t.IsProduct → (t.IsMultipleOf name? exponent ↔
        t.coefficient = 0 ∨ t.degrees = nameDegrees name? exponent)) := by
  obtain ⟨first, second, rest, hgroup, hhint⟩ := Hint.exists_of_mem_likeTermGroups h
  obtain ⟨rfl, rfl, rfl⟩ := Hint.likeTerms.inj hhint
  refine ⟨⟨?_, ?_⟩, fun t ht => ?_⟩
  · rw [Expr.length_alike]
    exact hgroup ▸ Nat.le_add_left 2 rest.length
  · rw [Expr.filterMap_span_alike]
    exact congrArg (List.filterMap Term.span) hgroup.symm
  · obtain ⟨hnode, negative, hkey⟩ := Expr.exists_of_mem_alike ht
    have hplainTerm : t.IsPlain := fun n hn => hplain n (Expr.nodes_subset_of_mem hnode hn)
    refine ⟨fun hmonomial => ?_, Expr.isMultipleOf_iff hplainTerm⟩
    refine (Expr.isMultipleOf_iff hplainTerm hmonomial.isProduct).mpr (.inr ?_)
    obtain ⟨hname, hexponent⟩ := Prod.mk.inj hkey
    rw [hmonomial.degrees_eq (t := ⟨none, .one, negative, t.span⟩) rfl rfl]
    exact hname ▸ nameDegrees_congr hexponent

/-- The product `x * x`. -/
def Expr.squareProduct : Expr :=
  .binary .multiply (.var "x" .one (some ⟨0, 1⟩)) (.var "x" .one (some ⟨2, 3⟩)) (some ⟨0, 3⟩)

/-- The sum `x * x + x`. -/
def Expr.squareSum : Expr :=
  .binary .add squareProduct (.var "x" .one (some ⟨4, 5⟩)) (some ⟨0, 5⟩)

theorem Expr.isPlain_squareSum : squareSum.IsPlain := by decide +kernel

theorem Expr.likeTerms_mem_squareSum :
    .likeTerms (some "x") .one [⟨0, 3⟩, ⟨4, 5⟩] ∈ Hint.likeTermGroups squareSum := by
  decide +kernel

/-- The terms of `x * x + x` make a group of multiples of `x`. The second is one, the first is
not. -/
theorem Hint.isMultipleOf_squareSum :
    (Expr.squareSum.IsPlain ∧
      .likeTerms (some "x") .one [⟨0, 3⟩, ⟨4, 5⟩] ∈ Hint.likeTermGroups Expr.squareSum) ∧
    (Expr.var "x" .one (some ⟨4, 5⟩)).IsMultipleOf (some "x") .one ∧
    ¬ Expr.squareProduct.IsMultipleOf (some "x") .one := by
  obtain ⟨-, hterms⟩ := Hint.isMultipleOf_iff_of_mem_alike Expr.squareSum (some "x") .one
    [⟨0, 3⟩, ⟨4, 5⟩] Expr.isPlain_squareSum Expr.likeTerms_mem_squareSum
  refine ⟨⟨Expr.isPlain_squareSum, Expr.likeTerms_mem_squareSum⟩, ?_, ?_⟩
  · exact (hterms _ (by decide +kernel)).1 .var
  · have hproduct : Expr.squareProduct.IsProduct := by decide +kernel
    rw [(hterms _ (by decide +kernel)).2 hproduct]
    rintro (hzero | hdegrees)
    · simp [Expr.coefficient, Expr.squareProduct, Expr.exactAt?, Operator.realResult?] at hzero
    · simp [Expr.squareProduct, Expr.degrees, nameDegrees] at hdegrees

/-- It is not so that the terms of a group are always multiples of its power. -/
theorem Hint.not_forall_isMultipleOf :
    ¬ ∀ (e : Expr) (name? : Option String) (exponent : Binary64) (spans : List Span), e.IsPlain →
      .likeTerms name? exponent spans ∈ Hint.likeTermGroups e →
        ∀ t ∈ e.alike name? exponent, t.IsMultipleOf name? exponent := by
  intro hall
  obtain ⟨c, hc⟩ := hall Expr.squareSum (some "x") .one [⟨0, 3⟩, ⟨4, 5⟩] Expr.isPlain_squareSum
    Expr.likeTerms_mem_squareSum Expr.squareProduct (by decide +kernel)
  have hvalue (r : ℝ) : Expr.squareProduct.exactAt? (fun _ => r) = some (r * r) := by
    simp [Expr.squareProduct, Expr.exactAt?, Operator.realResult?]
  have hone := hc (fun _ => 1) (fun _ => one_pos) _ (hvalue 1)
  have htwo := hc (fun _ => 2) (fun _ => two_pos) _ (hvalue 2)
  simp only [namePower, Binary64.toReal?_one, Option.getD_some, Real.rpow_one] at hone htwo
  linarith

end SchoolAlgebra
