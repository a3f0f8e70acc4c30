import Mathlib
import SchoolAlgebra.Proofs.Expr.Printing
import SchoolAlgebra.Proofs.Expr.Reread
import SchoolAlgebra.Proofs.Grammar.Refusal

/-!
# Texts that do not read back

An expression that does not read back has one of three faults, and each shows in another way.

* An infinite exponent is printed as a name. No name can follow a caret.
* A power that is a base is printed without parentheses. No caret can follow an exponent.
* A small exponent is printed with an exponent part. Its text is an expression, but a different one:
  it has a multiplication that the printed expression does not have.

The first two faults are found inside the text, whatever stands around them. For the third the
multiplications are counted, in the text as well as in the lexemes.

## Why counting settles the third fault

A text with a small exponent is an expression, and it would take some work to say which. It is
enough that this expression cannot have the same text. A text has as many multiplication signs as
its expression has multiplications; the text of a number with an exponent part has none, while
reading it gives a multiplication for each exponent part. So what is read is printed with more signs
than were in the text.

## Main definitions

* `Expr.products` — the number of multiplications
* `Expr.tinyExponents` — the number of exponents that are printed with an exponent part

## Main results

* `Expr.refused_lexemes` — the first two faults
* `Expr.Lexical.count_times_render`, `Expr.count_multiply_lexemes` — the third
* `Expr.Lexical.readsBack_of_render_eq` — a text that is printed again reads back
-/

namespace SchoolAlgebra

open Phrase

/-! ### Counting

Multiplications are counted in expressions, in lexemes and in derivations. A derivation has as many
lexemes of them as its expression has nodes of them, because each comes from one step of a chain. -/

namespace Expr

/-- The number of multiplications. -/
def products : Expr → Nat
  | .num _ _ | .var _ _ _ => 0
  | .neg e _ => e.products
  | .power base _ _ => base.products
  | .binary op left right _ => left.products + right.products + if op = .multiply then 1 else 0

/-- The number of finite exponents that are printed with an exponent part. -/
def tinyExponents : Expr → Nat
  | .num _ _ | .var _ _ _ => 0
  | .neg e _ => e.tinyExponents
  | .power base exponent _ =>
    base.tinyExponents + if exponent.finite?.isSome ∧ ¬ exponent.Plain then 1 else 0
  | .binary _ left right _ => left.tinyExponents + right.tinyExponents

theorem products_bare (e : Expr) : e.bare.products = e.products := by
  induction e with
  | num v s => rfl
  | var name coefficient s => rfl
  | neg e s ih => exact ih
  | power base exponent s ih => exact ih
  | binary op left right s ihl ihr => rw [bare, products, products, ihl, ihr]

end Expr

theorem count_multiply_signLexemes (negative : Bool) :
    (signLexemes negative).count (.operator .multiply) = 0 := by
  cases negative <;> decide

@[simp] theorem count_multiply_inParensIf (needed : Bool) (ls : List Lexeme) :
    (inParensIf needed ls).count (.operator .multiply) = ls.count (.operator .multiply) := by
  cases needed <;> simp [inParens]

theorem count_multiply_words_shortText (v : Binary64) :
    (Lexeme.words v.shortText).count (.operator .multiply) = 0 := by
  cases v with
  | finite x =>
    rw [words_shortText_finite, List.count_append, count_multiply_signLexemes]
    simp [Numeral.lexeme]
  | infinite negative =>
    rw [words_shortText_infinite, List.count_append, count_multiply_signLexemes]
    simp

/-- An exponent part is one multiplication. -/
theorem count_multiply_words_exactText (v : Binary64) :
    (Lexeme.words v.exactText).count (.operator .multiply) =
      if v.finite?.isSome ∧ ¬ v.Plain then 1 else 0 := by
  cases v with
  | infinite negative =>
    rw [words_exactText_infinite, List.count_append, count_multiply_signLexemes]
    simp [Binary64.finite?]
  | finite x =>
    by_cases h : (Binary64.finite x).Plain
    · rw [words_exactText_of_plain h, List.count_append, count_multiply_signLexemes]
      simp [Numeral.lexeme, h]
    · obtain ⟨mantissa, exponent, hwords⟩ := words_exactText_of_tiny h
      rw [hwords, List.count_append, count_multiply_signLexemes]
      simp [Numeral.lexeme, h, Binary64.finite?]

namespace Expr

/-- The lexemes of a printed expression have a multiplication for each exponent part too. -/
theorem count_multiply_lexemes (e : Expr) :
    e.lexemes.count (.operator .multiply) = e.products + e.tinyExponents := by
  induction e with
  | num v s => exact count_multiply_words_shortText v
  | var name coefficient s => simp [lexemes, products, tinyExponents]
  | neg e s ih =>
    rw [lexemes, List.count_cons, count_multiply_inParensIf, ih]
    simp [products, tinyExponents]
  | power base exponent s ih =>
    rw [lexemes, List.count_append, List.count_cons, count_multiply_inParensIf, ih,
      count_multiply_words_exactText, products, tinyExponents]
    simp only [beq_iff_eq, reduceCtorEq, if_false]
    omega
  | binary op left right s ihl ihr =>
    rw [lexemes, List.count_append, List.count_cons, count_multiply_inParensIf,
      count_multiply_inParensIf, ihl, ihr, products, tinyExponents]
    simp only [beq_iff_eq, Lexeme.operator.injEq]
    omega

end Expr

namespace Phrase

theorem Exponent.count_multiply_lexemes (x : Exponent) :
    x.lexemes.count (.operator .multiply) = 0 := by
  obtain ⟨minus, numeral⟩ := x
  cases minus <;> cases numeral <;> simp [lexemes]

mutual

theorem Sum.products_tree : ∀ s : Sum,
    s.tree.products = s.lexemes.count (.operator .multiply)
  | .mk first rest => by
    rw [Sum.tree, SumRest.products_treeAfter rest, Term.products_tree first, Sum.lexemes,
      List.count_append]

theorem SumRest.products_treeAfter : ∀ (r : SumRest) (left : Expr),
    (r.treeAfter left).products = left.products + r.lexemes.count (.operator .multiply)
  | .done, left => by simp [SumRest.treeAfter, SumRest.lexemes]
  | .more op h term rest, left => by
    rw [SumRest.treeAfter, SumRest.products_treeAfter rest, Expr.products,
      Term.products_tree term, SumRest.lexemes, List.count_cons, List.count_append]
    simp only [beq_iff_eq, Lexeme.operator.injEq]
    omega

theorem Term.products_tree : ∀ t : Term,
    t.tree.products = t.lexemes.count (.operator .multiply)
  | .mk first rest => by
    rw [Term.tree, TermRest.products_treeAfter rest, Factor.products_tree first, Term.lexemes,
      List.count_append]

theorem TermRest.products_treeAfter : ∀ (r : TermRest) (left : Expr),
    (r.treeAfter left).products = left.products + r.lexemes.count (.operator .multiply)
  | .done, left => by simp [TermRest.treeAfter, TermRest.lexemes]
  | .more op h factor rest, left => by
    rw [TermRest.treeAfter, TermRest.products_treeAfter rest, Expr.products,
      Factor.products_tree factor, TermRest.lexemes, List.count_cons, List.count_append]
    simp only [beq_iff_eq, Lexeme.operator.injEq]
    omega

theorem Factor.products_tree : ∀ f : Factor,
    f.tree.products = f.lexemes.count (.operator .multiply)
  | .minus f => by
    rw [Factor.tree, Expr.products, Factor.products_tree f, Factor.lexemes, List.count_cons]
    simp
  | .power p => by rw [Factor.tree, Power.products_tree p, Factor.lexemes]

theorem Power.products_tree : ∀ p : Power,
    p.tree.products = p.lexemes.count (.operator .multiply)
  | .plain a => by rw [Power.tree, Atom.products_tree a, Power.lexemes]
  | .raised base x => by
    rw [Power.tree, Expr.products, Atom.products_tree base, Power.lexemes, List.count_append,
      List.count_cons, Exponent.count_multiply_lexemes]
    simp

theorem Atom.products_tree : ∀ a : Atom,
    a.tree.products = a.lexemes.count (.operator .multiply)
  | .number .. => by simp [Atom.tree, Expr.products, Atom.lexemes]
  | .name _ => by simp [Atom.tree, Expr.products, Atom.lexemes]
  | .group s => by
    rw [Atom.tree, Sum.products_tree s, Atom.lexemes, List.count_cons, List.count_append]
    simp

end

end Phrase

/-! ### Multiplication signs in the text

Numerals, names and all signs but one are free of the multiplication sign, and so every such sign in
a text was put there by the printer, for a multiplication. -/

/-- Characters of numerals, names and signs. -/
def TimesFree (chars : List Char) : Prop := '×' ∉ chars

theorem timesFree_of_forall {chars : List Char}
    (h : ∀ c ∈ chars, c.isAlpha = true ∨ c.isDigit = true ∨ c = '.' ∨ c = '-') :
    TimesFree chars := by
  intro hmem
  rcases h _ hmem with h | h | h | h <;> exact absurd h (by decide)

theorem TimesFree.append {a b : List Char} (ha : TimesFree a) (hb : TimesFree b) :
    TimesFree (a ++ b) := by
  rw [TimesFree, List.mem_append, not_or]
  exact ⟨ha, hb⟩

theorem Numeral.timesFree_text (n : Numeral) : TimesFree n.text := by
  apply timesFree_of_forall
  intro c hc
  rw [text] at hc
  rcases List.mem_append.mp hc with hc | hc
  · exact .inr (.inl (n.isDigit_whole c hc))
  · split at hc
    · cases hc
    · rcases List.mem_cons.mp hc with rfl | hc
      · exact .inr (.inr (.inl rfl))
      · exact .inr (.inl (n.isDigit_fraction c hc))

theorem Number.timesFree_minusText (x : Number) : TimesFree x.minusText := by
  rw [minusText, TimesFree]
  split <;> decide

theorem IsName.timesFree {chars : List Char} (h : IsName chars) : TimesFree chars := by
  obtain ⟨letters, digits, -, hletters, hdigits, rfl⟩ := h
  exact (timesFree_of_forall fun c hc => .inl (hletters c hc)).append
    (timesFree_of_forall fun c hc => .inr (.inl (hdigits c hc)))

theorem timesFree_shortText (v : Binary64) : TimesFree v.shortText.toList := by
  cases v with
  | infinite negative => rw [TimesFree]; cases negative <;> decide
  | finite x =>
    rw [Number.toList_shortText]
    exact x.timesFree_minusText.append x.shortNumeral.timesFree_text

theorem timesFree_exactText (v : Binary64) : TimesFree v.exactText.toList := by
  cases v with
  | infinite negative => rw [TimesFree]; cases negative <;> decide
  | finite x =>
    by_cases h : (Binary64.finite x).Plain
    · rw [Number.toList_exactText h]
      exact x.timesFree_minusText.append x.exactNumeral.timesFree_text
    · rw [Binary64.Plain, not_or, not_le] at h
      obtain ⟨mantissa, exponent, htext⟩ := Number.toList_exactText_of_tiny h.1 h.2
      have hpart : TimesFree ['e', '-'] := by rw [TimesFree]; decide
      rw [htext]
      exact (x.timesFree_minusText.append mantissa.timesFree_text).append
        (hpart.append exponent.timesFree_text)

namespace Expr

theorem count_times_parenthesizedIf (needed : Bool) (text : String) :
    (parenthesizedIf needed text).toList.count '×' = text.toList.count '×' := by
  cases needed with
  | false => rfl
  | true => simp [parenthesizedIf, parenthesized]

theorem count_times_glyph (op : Operator) :
    op.glyph.toList.count '×' = if op = .multiply then 1 else 0 := by
  cases op <;> decide

/-- The text of an expression has one multiplication sign for each multiplication. -/
theorem Lexical.count_times_render {e : Expr} (h : e.Lexical) :
    e.render.toList.count '×' = e.products := by
  induction e with
  | num v s => exact List.count_eq_zero_of_not_mem (timesFree_shortText v)
  | var name coefficient s =>
    obtain ⟨hname, rfl⟩ := h
    exact List.count_eq_zero_of_not_mem hname.timesFree
  | neg e s ih =>
    rw [toList_render_neg, List.count_cons, count_times_parenthesizedIf, ih h]
    rfl
  | power base exponent s ih =>
    rw [toList_render_power, List.count_append, List.count_cons, count_times_parenthesizedIf, ih h,
      List.count_eq_zero_of_not_mem (timesFree_exactText exponent)]
    rfl
  | binary op left right s ihl ihr =>
    rw [toList_render_binary, List.count_append, List.count_cons, List.count_append,
      List.count_cons, count_times_parenthesizedIf, count_times_parenthesizedIf, ihl h.1, ihr h.2,
      count_times_glyph, products]
    have hblank : (if (' ' == '×') = true then 1 else 0) = 0 := rfl
    rw [hblank]
    omega

/-! ### All faults together -/

variable {e : Expr}

/-- Without small exponents, an expression that does not read back is printed with an infinite
exponent or a power as a base, and both are refused. -/
theorem refused_lexemes (htiny : e.tinyExponents = 0) (h : ¬ e.ReadsBack) : Refused e.lexemes := by
  induction e with
  | num v s => exact absurd trivial h
  | var name coefficient s => exact absurd trivial h
  | neg e s ih => exact ((ih htiny h).inParensIf _).cons _
  | binary op left right s ihl ihr =>
    obtain ⟨hleft, hright⟩ := Nat.add_eq_zero_iff.mp htiny
    rcases not_and_or.mp h with h | h
    · exact ((ihl hleft h).inParensIf _).append_right _
    · exact (((ihr hright h).inParensIf _).cons _).append_left _
  | power base exponent s ih =>
    obtain ⟨hbase, hexponent⟩ := Nat.add_eq_zero_iff.mp htiny
    by_cases hreads : base.ReadsBack
    · by_cases hplain : exponent.Plain
      · -- The base is a power whose exponent is plain.
        cases base with
        | power inner x s' =>
          obtain ⟨-, hx, -⟩ := hreads
          cases x with
          | infinite negative => exact absurd hx id
          | finite x =>
            have hrefused := refused_caret_number_caret x.isBelowZero
              (String.ofList x.exactNumeral.text) x.exactNumeral.decimal.toBinary64
            have hlexemes : (power (power inner (.finite x) s') exponent s).lexemes =
                inParensIf inner.needsParensBase inner.lexemes ++
                  .caret :: (signLexemes x.isBelowZero ++ [x.exactNumeral.lexeme, .caret]) ++
                    Lexeme.words exponent.exactText := by
              simp [lexemes, needsParensBase, words_exactText_of_plain hx]
            rw [hlexemes]
            exact hrefused.append _ _
        | _ => exact absurd ⟨rfl, hplain, hreads⟩ h
      · cases exponent with
        | finite x => simp [Binary64.finite?, hplain] at hexponent
        | infinite negative =>
          rw [lexemes, words_exactText_infinite]
          exact (refused_caret_name negative "inf").append_left _
    · exact ((ih hbase hreads).inParensIf _).append_right _

/-- **A text that is read and printed again without a change is that of an expression that reads
back.** -/
theorem Lexical.readsBack_of_render_eq (hlexical : e.Lexical) {m : Expr}
    (hm : parse e.render = .ok m) (htext : m.render = e.render) : e.ReadsBack := by
  have hscan : Lexeme.scan e.render.toList = e.lexemes ++ [.finish] :=
    hlexical.scansAs_render.scan_eq
  -- The multiplications of what is read are those of the lexemes.
  have hcount : m.products = e.products + e.tinyExponents := by
    obtain ⟨s, hlexemes, htree⟩ := exists_spells_of_parse hm
    have hsame : s.lexemes = e.lexemes := List.append_cancel_right (hlexemes.symm.trans hscan)
    rw [← products_bare, ← htree, Sum.products_tree, hsame, count_multiply_lexemes]
  have htimes : m.products = e.products := by
    rw [← (lexical_of_parse hm).count_times_render, htext, hlexical.count_times_render]
  by_contra h
  obtain ⟨tokens, last, htokens, hread⟩ := exists_read_of_parse hm
  have hsame : tokens.map Token.lexeme = e.lexemes :=
    List.append_cancel_right (htokens.symm.trans hscan)
  exact refused_lexemes (by omega) h tokens hsame _ _ hread

end Expr

end SchoolAlgebra
