import Mathlib
import SchoolAlgebra.Proofs.Decimal.Hundredths
import SchoolAlgebra.Proofs.Expr.Printing
import SchoolAlgebra.Proofs.Expr.Reread

/-!
# Printing what was read again

The changes that reading a printed expression makes do not show when it is printed once more: a
number keeps its two places, the exponent minus zero is printed as zero anyway, and an operand that
has joined a chain stood there without parentheses before.

## The printer on a chain

A sum that is the right operand of a plus is printed without parentheses. Once it has joined the
chain on its left, what stood to its left has become part of a left operand, and no parentheses may
be put there either. None are, because for an operator that need not be kept apart from its right
operand the printer has one rule for both sides.

## Main results

* `Expr.render_splice` — joining a chain does not change the text
* `Expr.render_reread` — nor does reading again
-/

namespace SchoolAlgebra

namespace Expr

variable {op : Operator} {e left right : Expr}

/-! ### Spans -/

theorem isBinary_bare (e : Expr) : e.bare.isBinary = e.isBinary := by cases e <;> rfl

theorem needsParensBase_bare (e : Expr) : e.bare.needsParensBase = e.needsParensBase := by
  cases e <;> rfl

theorem needsParensLeft_bare (op : Operator) (e : Expr) :
    needsParensLeft op e.bare = needsParensLeft op e := by
  cases e <;> rfl

theorem needsParensRight_bare (op : Operator) (e : Expr) :
    needsParensRight op e.bare = needsParensRight op e := by
  cases e <;> rfl

/-- The text of an expression does not show its spans. -/
theorem render_bare (e : Expr) : e.bare.render = e.render := by
  induction e with
  | num v s => rfl
  | var name coefficient s => rfl
  | neg e s ih => rw [bare, render, render, ih, isBinary_bare]
  | power base exponent s ih => rw [bare, render, render, ih, needsParensBase_bare]
  | binary op left right s ihl ihr =>
    rw [bare, render, render, ihl, ihr, needsParensLeft_bare, needsParensRight_bare]

/-! ### Chains -/

theorem needsParensRight_of_separatesRight_eq_false (h : op.separatesRight = false) (e : Expr) :
    needsParensRight op e = needsParensLeft op e := by
  cases e with
  | binary child first last s => simp [needsParensRight, needsParensLeft, h]
  | _ => rfl

/-- Parentheses depend on how tightly the operator to the right binds. -/
theorem needsParensLeft_congr {op' : Operator} (h : op.precedence = op'.precedence) (e : Expr) :
    needsParensLeft op e = needsParensLeft op' e := by
  cases e with
  | binary child first last s => rw [needsParensLeft, needsParensLeft, h]
  | _ => rfl

theorem needsParensLeft_splice {next : Operator} (h : next.precedence = op.precedence)
    (left right : Expr) : needsParensLeft next (splice op left right) = false := by
  cases right with
  | binary child first last s =>
    rw [splice]
    split
    · next hchild => simp [needsParensLeft, h, hchild]
    · simp [needsParensLeft, h]
  | _ => simp [splice, needsParensLeft, h]

/-- An operand that joins the chain on its left is printed as it was. -/
theorem render_splice (h : op.separatesRight = false) (left right : Expr) (s : Option Span) :
    (splice op left right).render = (binary op left right s).render := by
  induction right with
  | binary next first last s' ihfirst ihlast =>
    by_cases hnext : next.precedence = op.precedence
    · have houter : needsParensRight op (binary next first last s') = false := by
        simp [needsParensRight, h, hnext]
      rw [splice_of_precedence_eq hnext, render, ihfirst, needsParensLeft_splice hnext]
      simp only [render, houter, needsParensRight_of_separatesRight_eq_false h,
        needsParensLeft_congr hnext, parenthesizedIf, Bool.false_eq_true, if_false,
        String.append_assoc]
    · rw [splice, if_neg hnext]
      rfl
  | _ => rfl

/-! ### Numbers

A number keeps its hundredths when its text is read, so its text is the same again. The sign of a
number below zero has become a negation, which is printed as the same sign. -/

theorem render_num (v : Binary64) (s : Option Span) : (num v s).render = v.shortText := rfl

/-- What a printed number is read as is printed as the number was. -/
theorem render_rereadNumber (v : Binary64) : (rereadNumber v).render = v.shortText := by
  cases v with
  | infinite negative => cases negative <;> decide
  | finite x =>
    obtain ⟨y, hread, hsign, hsame⟩ := x.exists_toBinary64_shortNumeral
    have hbelow : y.isBelowZero = false := by simp [Number.isBelowZero, hsign]
    have htext : (Binary64.finite y).shortText.toList = x.shortNumeral.text := by
      rw [Number.toList_shortText, Number.minusText, hbelow, Number.shortNumeral, hsame]
      rfl
    rw [rereadNumber_finite, hread, ← String.toList_inj, Number.toList_shortText x,
      Number.minusText]
    split
    · have hneg : (neg (num (.finite y) none) none).render.toList =
          '-' :: (Binary64.finite y).shortText.toList := toList_render_neg _ _
      rw [hneg, htext]
      rfl
    · rw [render_num, htext]
      rfl

/-- The sign of a zero is not printed in an exponent. -/
theorem exactText_unsignZero (v : Binary64) : v.unsignZero.exactText = v.exactText := by
  cases v with
  | infinite negative => rfl
  | finite x =>
    by_cases hzero : x.isZero = true
    · have hmagnitude := Number.magnitude_eq_zero hzero
      have hplain (y : Number) (hy : y.magnitude = 0) :
          (Binary64.finite y).exactText.toList = Decimal.digitsOf 0 := by
        rw [Number.toList_exactText (.inl (by rw [hy, Nat.zero_mod])), Number.minusText,
          Number.isBelowZero_of_magnitude_eq_zero hy, Number.exactNumeral, hy,
          if_pos (Nat.zero_mod _), Nat.zero_div, Numeral.text_ofNat]
        rfl
      rw [Binary64.unsignZero, if_pos hzero, ← String.toList_inj, hplain _ hmagnitude,
        hplain _ Number.magnitude_zero]
    · rw [Binary64.unsignZero, if_neg hzero]

/-! ### Whole expressions

What the printer asks of an operand, whether it is an operation and how tightly it binds, is the
same of the operand that was read again. -/

theorem isBinary_eq (e : Expr) : e.isBinary = (e.isAdditive || e.isMultiplicative) := by
  cases e with
  | binary op left right s => cases op <;> rfl
  | _ => rfl

theorem isBinary_reread (e : Expr) : e.reread.isBinary = e.isBinary := by
  rw [isBinary_eq, isBinary_eq, isAdditive_reread, isMultiplicative_reread]

theorem needsParensLeft_reread (op : Operator) (e : Expr) :
    needsParensLeft op e.reread = needsParensLeft op e := by
  cases hop : op.isAdditive with
  | true => rw [needsParensLeft_of_isAdditive hop, needsParensLeft_of_isAdditive hop]
  | false =>
    have hmul : op.isMultiplicative = true := by simp [Operator.isMultiplicative, hop]
    rw [needsParensLeft_of_isMultiplicative hmul, needsParensLeft_of_isMultiplicative hmul,
      isAdditive_reread]

theorem needsParensRight_reread (op : Operator) (e : Expr) :
    needsParensRight op e.reread = needsParensRight op e := by
  cases hop : op.isAdditive with
  | true =>
    rw [needsParensRight_of_isAdditive hop, needsParensRight_of_isAdditive hop, isAdditive_reread]
  | false =>
    have hmul : op.isMultiplicative = true := by simp [Operator.isMultiplicative, hop]
    rw [needsParensRight_of_isMultiplicative hmul, needsParensRight_of_isMultiplicative hmul,
      isAdditive_reread, isBinary_reread]

theorem needsParensBase_rereadNumber (v : Binary64) :
    (rereadNumber v).needsParensBase = v.isBelowZero := by
  cases v with
  | infinite negative => cases negative <;> rfl
  | finite x =>
    obtain ⟨y, hread, hsign, -⟩ := x.exists_toBinary64_shortNumeral
    rw [rereadNumber_finite, hread, Binary64.isBelowZero]
    cases x.isBelowZero with
    | true => rfl
    | false => simp [needsParensBase, Binary64.isBelowZero, Number.isBelowZero, hsign]

theorem needsParensBase_reread (e : Expr) : e.reread.needsParensBase = e.needsParensBase := by
  cases e with
  | num v s => exact needsParensBase_rereadNumber v
  | binary op left right s =>
    rw [reread]
    split
    · rfl
    · cases hreread : right.reread with
      | binary next first last s' =>
        rw [splice]
        split <;> rfl
      | _ => rfl
  | _ => rfl

/-- **An expression is printed in the same way before and after it was read again.** -/
theorem render_reread (e : Expr) : e.reread.render = e.render := by
  induction e with
  | num v s => exact render_rereadNumber v
  | var name coefficient s => rfl
  | neg e s ih => rw [reread, render, render, ih, isBinary_reread]
  | power base exponent s ih =>
    rw [reread, render, render, ih, needsParensBase_reread, exactText_unsignZero]
  | binary op left right s ihl ihr =>
    have hbinary : (binary op left.reread right.reread none).render =
        (binary op left right s).render := by
      rw [render, render, ihl, ihr, needsParensLeft_reread, needsParensRight_reread]
    rw [reread]
    split
    · exact hbinary
    · next h => rw [render_splice (Bool.eq_false_of_not_eq_true h) _ _ none, hbinary]

end Expr

end SchoolAlgebra
