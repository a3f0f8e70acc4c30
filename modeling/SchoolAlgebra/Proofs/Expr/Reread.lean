import Mathlib
import SchoolAlgebra.Binary64.Arithmetic
import SchoolAlgebra.Expr.Print
import SchoolAlgebra.Proofs.Decimal.NumberText

/-!
# What a printed expression is read as

A printed expression is read again as the expression it was printed from, up to three things: a
number becomes the value of its text, the exponent minus zero becomes zero, and a sum that is the
right operand of a plus, or a product that is the right operand of a multiplication, continues the
chain on its left. `Expr.reread` is the expression with these changes made.

## Stated without the printer

`Expr.reread` is defined on expressions alone. Which texts are printed and how they are read is not
part of it, and so it can be compared with the expression that was printed: it has the same
operators over the same operands, in the same order, and differs in how chains of one precedence are
grouped.

## Main definitions

* `Expr.reread` — the expression that a printed expression is read as
* `Expr.ReadsBack` — the expressions whose text is an expression again

## Main results

* `Expr.splice_splice` — continuing a chain by parts
* `Expr.isAdditive_reread`, `Expr.isMultiplicative_reread` — the outermost operation stays
-/

namespace SchoolAlgebra

namespace Expr

/-! ### What is read -/

/-- What a printed number is read as: the value of its text, after a minus sign if there is one. An
infinity is printed as a name. -/
def rereadNumber (v : Binary64) : Expr :=
  match v with
  | .infinite true => .neg (.var "inf" .one none) none
  | .infinite false => .var "inf" .one none
  | .finite x =>
    match (Binary64.finite x).shortText.toList with
    | '-' :: numeral => .neg (.num (Decimal.ofNumeral numeral).toBinary64 none) none
    | numeral => .num (Decimal.ofNumeral numeral).toBinary64 none

/-- Two operands joined by an operator, where an equally binding operation on the right continues
the chain on the left. -/
def splice (op : Operator) (left : Expr) : Expr → Expr
  | .binary next first last s =>
    if next.precedence = op.precedence then .binary next (splice op left first) last none
    else .binary op left (.binary next first last s) none
  | right => .binary op left right none

/-- What a printed expression is read as. -/
def reread : Expr → Expr
  | .num v _ => rereadNumber v
  | .var name coefficient _ => .var name coefficient none
  | .neg e _ => .neg e.reread none
  | .power base exponent _ => .power base.reread exponent.unsignZero none
  | .binary op left right _ =>
    if op.separatesRight then .binary op left.reread right.reread none
    else splice op left.reread right.reread

/-- Whether an expression is a power. -/
def isPower : Expr → Bool
  | .power .. => true
  | _ => false

/-- No base is itself a power, and every exponent is printed without an exponent part. -/
def ReadsBack : Expr → Prop
  | .num _ _ | .var _ _ _ => True
  | .neg e _ => e.ReadsBack
  | .power base exponent _ => base.isPower = false ∧ exponent.Plain ∧ base.ReadsBack
  | .binary _ left right _ => left.ReadsBack ∧ right.ReadsBack

instance decidableReadsBack : (e : Expr) → Decidable e.ReadsBack
  | .num _ _ | .var _ _ _ => .isTrue trivial
  | .neg e _ => decidableReadsBack e
  | .power base exponent _ =>
    have := decidableReadsBack base
    inferInstanceAs (Decidable (base.isPower = false ∧ exponent.Plain ∧ base.ReadsBack))
  | .binary _ left right _ =>
    have := decidableReadsBack left
    have := decidableReadsBack right
    inferInstanceAs (Decidable (left.ReadsBack ∧ right.ReadsBack))

/-! ### Numbers -/

theorem rereadNumber_finite (x : Number) :
    rereadNumber (.finite x) =
      if x.isBelowZero then .neg (.num x.shortNumeral.decimal.toBinary64 none) none
      else .num x.shortNumeral.decimal.toBinary64 none := by
  rw [rereadNumber]
  simp only [Number.toList_shortText, Number.minusText]
  cases x.isBelowZero with
  | true =>
    simp only [if_true, List.singleton_append, Numeral.ofNumeral_text]
  | false =>
    simp only [Bool.false_eq_true, if_false, List.nil_append]
    split
    · next numeral hminus =>
      -- A numeral starts with a digit, not with a minus sign.
      have hwhole := x.shortNumeral.takeWhile_isDigit_text
      rw [hminus, List.takeWhile_cons_of_neg (by decide)] at hwhole
      exact absurd hwhole.symm x.shortNumeral.whole_ne_nil
    · rw [Numeral.ofNumeral_text]

end Expr

/-- A printed exponent is read as the exponent with the sign of a zero forgotten. -/
theorem Binary64.unsignZero_eq (x : Number) :
    (Binary64.finite x).unsignZero =
      if x.isBelowZero then (Binary64.finite { x with negative := false }).neg
      else .finite { x with negative := false } := by
  by_cases hzero : x.isZero = true
  · have hbelow : x.isBelowZero = false := by simp [Number.isBelowZero, hzero]
    have heq : ({ x with negative := false } : Number) = .zero :=
      Number.ext_magnitude rfl (Number.magnitude_eq_zero hzero)
    rw [hbelow, unsignZero, if_pos hzero, heq]
    rfl
  · have hbelow : x.isBelowZero = x.negative := by simp [Number.isBelowZero, hzero]
    rw [hbelow, unsignZero, if_neg hzero]
    obtain ⟨negative, mantissa, scale, canonical⟩ := x
    cases negative <;> rfl

namespace Expr

variable {op : Operator}

/-! ### Chains

A chain that is spliced into another becomes part of it, and the result does not depend on whether
its links are added at once or one by one. How tightly the outermost operator binds is not changed.
-/

theorem precedence_eq_iff {op op' : Operator} :
    op.precedence = op'.precedence ↔ op.isAdditive = op'.isAdditive := by
  cases op <;> cases op' <;> decide

theorem splice_of_precedence_eq {next : Operator} (h : next.precedence = op.precedence)
    (left first last : Expr) (s : Option Span) :
    splice op left (.binary next first last s) = .binary next (splice op left first) last none := by
  rw [splice, if_pos h]

/-- An operand that does not bind equally is not spliced. -/
theorem splice_of_isAdditive_eq_false (hop : op.isAdditive = true) {right : Expr}
    (h : right.isAdditive = false) (left : Expr) :
    splice op left right = .binary op left right none := by
  cases right with
  | binary next first last s =>
    have hnext : next.isAdditive = false := h
    have hne : ¬ next.precedence = op.precedence := by
      rw [precedence_eq_iff, hop, hnext]
      exact Bool.false_ne_true
    rw [splice, if_neg hne]
  | _ => rfl

theorem splice_of_isMultiplicative_eq_false (hop : op.isMultiplicative = true) {right : Expr}
    (h : right.isMultiplicative = false) (left : Expr) :
    splice op left right = .binary op left right none := by
  cases right with
  | binary next first last s =>
    have hnext : next.isAdditive = true := by
      simpa [isMultiplicative, Operator.isMultiplicative] using h
    have hne : ¬ next.precedence = op.precedence := by
      rw [precedence_eq_iff, hnext]
      simpa [Operator.isMultiplicative] using hop
    rw [splice, if_neg hne]
  | _ => rfl

/-- Splicing into a chain that was itself spliced. -/
theorem splice_splice {op' : Operator} (h : op'.precedence = op.precedence) (a b c : Expr) :
    splice op a (splice op' b c) = splice op' (splice op a b) c := by
  induction c with
  | binary next first last s ihfirst ihlast =>
    by_cases hnext : next.precedence = op'.precedence
    · rw [splice_of_precedence_eq hnext, splice_of_precedence_eq hnext,
        splice_of_precedence_eq (hnext.trans h), ihfirst]
    · have hplain (left : Expr) : splice op' left (.binary next first last s) =
          .binary op' left (.binary next first last s) none := by
        rw [splice, if_neg hnext]
      rw [hplain, hplain, splice_of_precedence_eq h]
  | _ => exact splice_of_precedence_eq h _ _ _ _

theorem isAdditive_splice (op : Operator) (left right : Expr) :
    (splice op left right).isAdditive = op.isAdditive := by
  cases right with
  | binary next first last s =>
    rw [splice]
    split
    · next h => exact precedence_eq_iff.mp h
    · rfl
  | _ => rfl

theorem isMultiplicative_splice (op : Operator) (left right : Expr) :
    (splice op left right).isMultiplicative = op.isMultiplicative := by
  cases right with
  | binary next first last s =>
    rw [splice]
    split
    · next h => exact congrArg (!·) (precedence_eq_iff.mp h)
    · rfl
  | _ => rfl

/-! ### The outermost operation -/

/-- A number is read again as a number or a name, possibly with a sign. -/
theorem not_isBinary_rereadNumber (v : Binary64) :
    (rereadNumber v).isAdditive = false ∧ (rereadNumber v).isMultiplicative = false := by
  cases v with
  | infinite negative => cases negative <;> exact ⟨rfl, rfl⟩
  | finite x =>
    rw [rereadNumber_finite]
    split <;> exact ⟨rfl, rfl⟩

theorem isAdditive_reread (e : Expr) : e.reread.isAdditive = e.isAdditive := by
  cases e with
  | num v s => exact (not_isBinary_rereadNumber v).1
  | binary op left right s =>
    rw [reread]
    split
    · rfl
    · exact isAdditive_splice op _ _
  | _ => rfl

theorem isMultiplicative_reread (e : Expr) : e.reread.isMultiplicative = e.isMultiplicative := by
  cases e with
  | num v s => exact (not_isBinary_rereadNumber v).2
  | binary op left right s =>
    rw [reread]
    split
    · rfl
    · exact isMultiplicative_splice op _ _
  | _ => rfl

end Expr

end SchoolAlgebra
