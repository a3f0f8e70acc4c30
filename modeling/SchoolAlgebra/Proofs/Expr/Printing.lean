import Mathlib
import SchoolAlgebra.Expr.Print
import SchoolAlgebra.Proofs.Decimal.NumberText
import SchoolAlgebra.Proofs.Expr.Lexical
import SchoolAlgebra.Proofs.Grammar.Printed

/-!
# The lexemes of a printed expression

`Expr.lexemes` says, node by node, what a printed expression is scanned as. This holds of every
expression that comes from a source, also of those that are not read back as they were.

## Texts that can be put together

`ScansAs` says what a text is scanned as with anything behind it that cannot lengthen its last word.
The printer puts a blank, a caret or a parenthesis behind an operand, and each of these is such a
delimiter. So the lexemes of an expression are those of its parts, one behind the other, whatever
stands next to them.

## Main definitions

* `Lexeme.words` — the lexemes of a text without the end of the source
* `Expr.lexemes` — the lexemes of a printed expression

## Main results

* `Expr.Lexical.scansAs_render` — a printed expression is scanned as its lexemes
* `words_exactText_of_tiny` — the one exponent that is scanned as an operation
-/

namespace SchoolAlgebra

/-! ### Printed numbers

A number is printed in two ways, rounded to two places where it is an operand and exactly where it
is an exponent. An infinity is a name in either case. -/

/-- The lexemes of a text, without the end of the source. -/
def Lexeme.words (text : String) : List Lexeme := (scan text.toList).dropLast

theorem ScansAs.words_eq {text : String} {ls : List Lexeme} (h : ScansAs text.toList ls) :
    Lexeme.words text = ls := by
  rw [Lexeme.words, h.scan_eq, List.dropLast_concat]

theorem ScansAs.words {text : String} {ls : List Lexeme} (h : ScansAs text.toList ls) :
    ScansAs text.toList (Lexeme.words text) := by
  rwa [h.words_eq]

theorem Number.scansAs_signed (x : Number) {chars : List Char} {ls : List Lexeme}
    (h : ScansAs chars ls) :
    ScansAs (x.minusText ++ chars) (signLexemes x.isBelowZero ++ ls) := by
  rw [Number.minusText, signLexemes]
  cases x.isBelowZero with
  | false => exact h
  | true => exact h.cons_minus

theorem isName_of_all_isAlpha (chars : List Char) (hne : chars ≠ [])
    (h : chars.all Char.isAlpha = true) : IsName chars :=
  ⟨chars, [], hne, List.all_eq_true.mp h, nofun, (List.append_nil _).symm⟩

theorem scansAs_infinityText (negative : Bool) :
    ScansAs (Binary64.infinityText negative).toList (signLexemes negative ++ [.name "inf"]) := by
  cases negative with
  | false => exact scansAs_name (isName_of_all_isAlpha ['i', 'n', 'f'] (by simp) rfl)
  | true => exact (scansAs_name (isName_of_all_isAlpha ['i', 'n', 'f'] (by simp) rfl)).cons_minus

theorem scansAs_shortText_finite (x : Number) :
    ScansAs (Binary64.finite x).shortText.toList
      (signLexemes x.isBelowZero ++ [x.shortNumeral.lexeme]) := by
  rw [Number.toList_shortText]
  exact x.scansAs_signed (scansAs_numeral _)

theorem scansAs_exactText_of_plain {x : Number} (h : (Binary64.finite x).Plain) :
    ScansAs (Binary64.finite x).exactText.toList
      (signLexemes x.isBelowZero ++ [x.exactNumeral.lexeme]) := by
  rw [Number.toList_exactText h]
  exact x.scansAs_signed (scansAs_numeral _)

/-- An exponent part is scanned as a multiplication and a subtraction. -/
theorem scansAs_exponentPart (mantissa exponent : Numeral) :
    ScansAs (mantissa.text ++ 'e' :: '-' :: exponent.text)
      [mantissa.lexeme, .operator .multiply, .name "e", .operator .subtract, exponent.lexeme] := by
  intro rest hrest
  have hletter : ∀ c, ('e' :: '-' :: (exponent.text ++ rest)).head? = some c →
      c.isDigit = false ∧ c ≠ '.' := by
    intro c hc
    cases hc
    exact ⟨rfl, by decide⟩
  have hminus : Delimited ('-' :: (exponent.text ++ rest)) :=
    delimited_cons rfl rfl (by decide) _
  have hname := scansAs_name (isName_of_all_isAlpha ['e'] (by simp) rfl) _ hminus
  have hexponent := scansAs_numeral exponent rest hrest
  rw [List.append_assoc, List.cons_append, List.cons_append, mantissa.scan_append hletter]
  rw [List.singleton_append, scan_cons_minus, hexponent] at hname
  rw [hname]
  rfl

theorem Number.exists_scansAs_exactText_of_tiny {x : Number} (h : ¬ (Binary64.finite x).Plain) :
    ∃ mantissa exponent : Numeral, ScansAs (Binary64.finite x).exactText.toList
      (signLexemes x.isBelowZero ++ [mantissa.lexeme, .operator .multiply, .name "e",
        .operator .subtract, exponent.lexeme]) := by
  rw [Binary64.Plain, not_or, not_le] at h
  obtain ⟨mantissa, exponent, htext⟩ := Number.toList_exactText_of_tiny h.1 h.2
  refine ⟨mantissa, exponent, ?_⟩
  rw [htext, List.append_assoc]
  exact x.scansAs_signed (scansAs_exponentPart mantissa exponent)

theorem words_shortText_finite (x : Number) :
    Lexeme.words (Binary64.finite x).shortText =
      signLexemes x.isBelowZero ++ [x.shortNumeral.lexeme] :=
  (scansAs_shortText_finite x).words_eq

theorem words_shortText_infinite (negative : Bool) :
    Lexeme.words (Binary64.infinite negative).shortText =
      signLexemes negative ++ [.name "inf"] :=
  (scansAs_infinityText negative).words_eq

theorem words_exactText_of_plain {x : Number} (h : (Binary64.finite x).Plain) :
    Lexeme.words (Binary64.finite x).exactText =
      signLexemes x.isBelowZero ++ [x.exactNumeral.lexeme] :=
  (scansAs_exactText_of_plain h).words_eq

theorem words_exactText_infinite (negative : Bool) :
    Lexeme.words (Binary64.infinite negative).exactText =
      signLexemes negative ++ [.name "inf"] :=
  (scansAs_infinityText negative).words_eq

/-- A small exponent is scanned as a product less a number. -/
theorem words_exactText_of_tiny {x : Number} (h : ¬ (Binary64.finite x).Plain) :
    ∃ mantissa exponent : Numeral, Lexeme.words (Binary64.finite x).exactText =
      signLexemes x.isBelowZero ++ [mantissa.lexeme, .operator .multiply, .name "e",
        .operator .subtract, exponent.lexeme] := by
  obtain ⟨mantissa, exponent, hscans⟩ := x.exists_scansAs_exactText_of_tiny h
  exact ⟨mantissa, exponent, hscans.words_eq⟩

theorem scansAs_shortText (v : Binary64) :
    ScansAs v.shortText.toList (Lexeme.words v.shortText) := by
  cases v with
  | finite x => exact (scansAs_shortText_finite x).words
  | infinite negative => exact (scansAs_infinityText negative).words

theorem scansAs_exactText (v : Binary64) :
    ScansAs v.exactText.toList (Lexeme.words v.exactText) := by
  cases v with
  | infinite negative => exact (scansAs_infinityText negative).words
  | finite x =>
    by_cases h : (Binary64.finite x).Plain
    · exact (scansAs_exactText_of_plain h).words
    · obtain ⟨mantissa, exponent, hscans⟩ := x.exists_scansAs_exactText_of_tiny h
      exact hscans.words

/-! ### Printed expressions -/

namespace Expr

variable {op : Operator}

theorem needsParensLeft_of_isAdditive (h : op.isAdditive = true) (e : Expr) :
    needsParensLeft op e = false := by
  cases e with
  | binary child left right s => cases op <;> cases child <;> first | rfl | cases h
  | _ => rfl

theorem needsParensLeft_of_isMultiplicative (h : op.isMultiplicative = true) (e : Expr) :
    needsParensLeft op e = e.isAdditive := by
  cases e with
  | binary child left right s => cases op <;> cases child <;> first | rfl | cases h
  | _ => rfl

theorem needsParensRight_of_isAdditive (h : op.isAdditive = true) (e : Expr) :
    needsParensRight op e = (op.separatesRight && e.isAdditive) := by
  cases e with
  | binary child left right s => cases op <;> cases child <;> first | rfl | cases h
  | _ => cases op <;> rfl

theorem needsParensRight_of_isMultiplicative (h : op.isMultiplicative = true) (e : Expr) :
    needsParensRight op e = if op.separatesRight then e.isBinary else e.isAdditive := by
  cases e with
  | binary child left right s => cases op <;> cases child <;> first | rfl | cases h
  | _ => cases op <;> rfl

/-- The lexemes of a printed expression. -/
def lexemes : Expr → List Lexeme
  | .num v _ => Lexeme.words v.shortText
  | .var name _ _ => [.name name]
  | .neg e _ => .operator .subtract :: inParensIf e.isBinary e.lexemes
  | .power base exponent _ =>
    inParensIf base.needsParensBase base.lexemes ++ .caret :: Lexeme.words exponent.exactText
  | .binary op left right _ =>
    inParensIf (needsParensLeft op left) left.lexemes ++
      .operator op :: inParensIf (needsParensRight op right) right.lexemes

theorem scansAs_parenthesizedIf {text : String} {ls : List Lexeme} (needed : Bool)
    (h : ScansAs text.toList ls) :
    ScansAs (parenthesizedIf needed text).toList (inParensIf needed ls) := by
  cases needed with
  | false => exact h
  | true =>
    have htext : (parenthesizedIf true text).toList = '(' :: (text.toList ++ [')']) := by
      simp [parenthesizedIf, parenthesized]
    rw [htext]
    exact h.parenthesized

theorem toList_render_neg (e : Expr) (s : Option Span) :
    (neg e s).render.toList = '-' :: (parenthesizedIf e.isBinary e.render).toList := by
  simp [render]

theorem toList_render_power (base : Expr) (exponent : Binary64) (s : Option Span) :
    (power base exponent s).render.toList =
      (parenthesizedIf base.needsParensBase base.render).toList ++
        '^' :: exponent.exactText.toList := by
  simp [render]

theorem toList_render_binary (op : Operator) (left right : Expr) (s : Option Span) :
    (binary op left right s).render.toList =
      (parenthesizedIf (needsParensLeft op left) left.render).toList ++
        ' ' :: (op.glyph.toList ++
          ' ' :: (parenthesizedIf (needsParensRight op right) right.render).toList) := by
  simp [render]

/-- A printed expression is scanned as its lexemes. -/
theorem Lexical.scansAs_render {e : Expr} (h : e.Lexical) : ScansAs e.render.toList e.lexemes := by
  induction e with
  | num v s => exact scansAs_shortText v
  | var name coefficient s =>
    obtain ⟨hname, rfl⟩ := h
    have hscans := scansAs_name hname
    rwa [String.ofList_toList] at hscans
  | neg e s ih =>
    rw [toList_render_neg]
    exact (scansAs_parenthesizedIf _ (ih h)).cons_minus
  | power base exponent s ih =>
    rw [toList_render_power]
    exact (scansAs_parenthesizedIf _ (ih h)).raised (scansAs_exactText exponent)
  | binary op left right s ihl ihr =>
    rw [toList_render_binary]
    exact .operation op (scansAs_parenthesizedIf _ (ihl h.1)) (scansAs_parenthesizedIf _ (ihr h.2))

end Expr

end SchoolAlgebra
