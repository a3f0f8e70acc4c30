import Mathlib
import SchoolAlgebra.Proofs.Expr.FixedPoint
import SchoolAlgebra.Proofs.Expr.RoundTrip
import SchoolAlgebra.Proofs.Token.Longest

/-!
# No parenthesis too many

A printed expression has as few parentheses as any text that is read as the same expression. So none
of them can be left out: what is then left is refused, or is another expression.

This is a count, and neither the place of a pair nor what stands around it matters. On the one side
`Expr.parens` is a lower bound for every derivation of an expression, level by level of the grammar:
a sum where a term has to stand cannot do without a pair, nor an operation where a factor has to,
nor anything but a number or a name where an atom has to. On the other side the printer reaches the
bound, also where it lets an operand join the chain on its left.

## Main definitions

* `Expr.parens` — the number of pairs of parentheses that an expression needs

## Main results

* `Lexeme.count_leftParen_scan` — every opening parenthesis of a text is a token
* `Phrase.Sum.parens_tree_le` — no derivation has fewer pairs than its expression needs
* `Expr.count_leftParen_lexemes` — a printed expression has no more
* `Expr.exists_parse_render_minimal` — what becomes of a text without one of its pairs
-/

namespace SchoolAlgebra

/-! ### Parentheses of a text

Scanning may skip characters and join others to words, but a parenthesis is never part of a longer
word and is never skipped. So parentheses can be counted in the text or in its lexemes. -/

namespace Lexeme

variable {chars : List Char} {l : Lexeme} {length : Nat}

/-- A character that is skipped is no parenthesis. -/
theorem ne_leftParen_of_longest?_eq_none {c : Char} {rest : List Char}
    (h : longest? (c :: rest) = none) : c ≠ '(' := by
  rintro rfl
  exact not_readableAt_zero h ⟨'(', rfl, .inr (.inr (.inl (by decide)))⟩

/-- A parenthesis is a word of its own. -/
theorem count_leftParen_take_of_longest? (h : longest? chars = some (l, length)) :
    (chars.take length).count '(' = [l].count .leftParen := by
  obtain ⟨hne, ⟨value, rfl⟩, rfl⟩ | ⟨hne, rfl, rfl⟩ | ⟨c, rest, rfl, hc, rfl⟩ :=
    longest?_eq_some_cases h
  · rw [← List.prefix_iff_eq_take.mp (prefix_numeralPart chars)]
    refine List.count_eq_zero.mpr fun hmem => ?_
    exact absurd ((isNumeral_numeralPart hne).forall_mem _ hmem) (by decide)
  · rw [← List.prefix_iff_eq_take.mp (prefix_namePart chars)]
    refine List.count_eq_zero.mpr fun hmem => ?_
    exact absurd (forall_mem_of_isName (isName_namePart hne) _ hmem) (by decide)
  · by_cases hparen : c = '('
    · subst hparen
      cases hc
      rfl
    · have hl : l ≠ .leftParen := by
        rintro rfl
        have htext := (of_ofChar?_eq_some hc).2
        unfold asciiGlyph at htext
        split at htext
        · cases htext
        · cases htext
        · cases htext
        · exact hparen (List.cons.inj htext).1.symm
      simp [hparen, hl]

/-- **Every opening parenthesis of a text is a token.** -/
theorem count_leftParen_scan (chars : List Char) :
    (scan chars).count .leftParen = chars.count '(' := by
  induction 0, chars using Token.scan_induction with
  | nil => rfl
  | skip _ c rest hnone ih =>
    rw [scan_cons_of_longest?_eq_none hnone, ih,
      List.count_cons_of_ne (ne_leftParen_of_longest?_eq_none hnone)]
  | word _ chars l length hsome ih =>
    have hword : (Token.lexemesOf l (chars.drop length)).count .leftParen =
        [l].count .leftParen := by
      rw [Token.lexemesOf]
      split <;> simp [List.count_cons]
    conv_rhs => rw [← List.take_append_drop length chars]
    rw [scan_of_longest?_eq_some hsome, List.count_append, List.count_append, ih, hword,
      count_leftParen_take_of_longest? hsome]

end Lexeme

@[simp] theorem count_leftParen_operator (op : Operator) (ls : List Lexeme) :
    (Lexeme.operator op :: ls).count .leftParen = ls.count .leftParen :=
  List.count_cons_of_ne (show Lexeme.operator op ≠ .leftParen from nofun)

@[simp] theorem count_leftParen_caret (ls : List Lexeme) :
    (Lexeme.caret :: ls).count .leftParen = ls.count .leftParen :=
  List.count_cons_of_ne (show Lexeme.caret ≠ .leftParen from nofun)

@[simp] theorem count_leftParen_inParensIf (needed : Bool) (ls : List Lexeme) :
    (inParensIf needed ls).count .leftParen = needed.toNat + ls.count .leftParen := by
  cases needed <;> simp [inParens, Nat.add_comm]

namespace Expr

/-! ### Parentheses that an expression needs -/

/-- Whether an expression can stand where an atom has to. -/
def isAtom : Expr → Bool
  | .num .. | .var .. => true
  | _ => false

/-- The number of pairs of parentheses that an expression needs where a sum may stand. -/
def parens : Expr → Nat
  | .num .. | .var .. => 0
  | .neg e _ => e.parens + e.isBinary.toNat
  | .power base _ _ => base.parens + (!base.isAtom).toNat
  | .binary op left right _ =>
    if op.isAdditive then left.parens + (right.parens + right.isAdditive.toNat)
    else left.parens + left.isAdditive.toNat + (right.parens + right.isBinary.toNat)

variable {op : Operator} {e : Expr}

theorem parens_binary_of_isAdditive (h : op.isAdditive = true) (left right : Expr)
    (s : Option Span) :
    (binary op left right s).parens = left.parens + (right.parens + right.isAdditive.toNat) := by
  rw [parens, if_pos h]

theorem parens_binary_of_isMultiplicative (h : op.isMultiplicative = true) (left right : Expr)
    (s : Option Span) :
    (binary op left right s).parens =
      left.parens + left.isAdditive.toNat + (right.parens + right.isBinary.toNat) := by
  have hop : ¬ op.isAdditive = true := by simpa [Operator.isMultiplicative] using h
  rw [parens, if_neg hop]

theorem isAdditive_binary_of_isMultiplicative (h : op.isMultiplicative = true)
    (left right : Expr) (s : Option Span) : (binary op left right s).isAdditive = false := by
  simpa [isAdditive, Operator.isMultiplicative] using h

/-- An operation is no atom. -/
theorem toNat_isBinary_le (e : Expr) : e.isBinary.toNat ≤ (!e.isAtom).toNat := by
  cases e with
  | binary => exact Nat.le_refl _
  | _ => exact Nat.zero_le _

/-- A sum is an operation. -/
theorem toNat_isAdditive_le (e : Expr) : e.isAdditive.toNat ≤ e.isBinary.toNat := by
  cases e with
  | binary op => exact Bool.toNat_le _
  | _ => exact Nat.le_refl _

end Expr

/-! ### No derivation has fewer

Each level of the grammar asks for a pair around what is looser. -/

namespace Phrase

mutual

/-- **No derivation has fewer parentheses than its expression needs.** -/
theorem Sum.parens_tree_le : ∀ s : Sum, s.tree.parens ≤ s.lexemes.count .leftParen
  | .mk first rest => by
    have hfirst := Term.parens_tree_le first
    have hrest := SumRest.parens_treeAfter_le rest first.tree
    rw [Sum.tree, Sum.lexemes, List.count_append]
    omega

theorem SumRest.parens_treeAfter_le : ∀ (rest : SumRest) (left : Expr),
    (rest.treeAfter left).parens ≤ left.parens + rest.lexemes.count .leftParen
  | .done, _ => Nat.le_add_right _ _
  | .more op hop term rest, left => by
    have hterm := Term.parens_tree_le term
    have hrest := SumRest.parens_treeAfter_le rest (.binary op left term.tree none)
    rw [Expr.parens_binary_of_isAdditive hop] at hrest
    rw [SumRest.treeAfter, SumRest.lexemes, count_leftParen_operator, List.count_append]
    omega

/-- Where a term has to stand, a sum needs parentheses. -/
theorem Term.parens_tree_le : ∀ t : Term,
    t.tree.parens + t.tree.isAdditive.toNat ≤ t.lexemes.count .leftParen
  | .mk first rest => by
    have hfirst := Factor.parens_tree_le first
    have hadditive := Expr.toNat_isAdditive_le first.tree
    have hrest := TermRest.parens_treeAfter_le rest first.tree
    rw [Term.tree, Term.lexemes, List.count_append]
    omega

theorem TermRest.parens_treeAfter_le : ∀ (rest : TermRest) (left : Expr),
    (rest.treeAfter left).parens + (rest.treeAfter left).isAdditive.toNat ≤
      left.parens + left.isAdditive.toNat + rest.lexemes.count .leftParen
  | .done, _ => Nat.le_add_right _ _
  | .more op hop factor rest, left => by
    have hfactor := Factor.parens_tree_le factor
    have hrest := TermRest.parens_treeAfter_le rest (.binary op left factor.tree none)
    rw [Expr.parens_binary_of_isMultiplicative hop, Expr.isAdditive_binary_of_isMultiplicative hop,
      Bool.toNat_false] at hrest
    rw [TermRest.treeAfter, TermRest.lexemes, count_leftParen_operator, List.count_append]
    omega

/-- Where a factor has to stand, an operation needs parentheses. -/
theorem Factor.parens_tree_le : ∀ f : Factor,
    f.tree.parens + f.tree.isBinary.toNat ≤ f.lexemes.count .leftParen
  | .minus factor => by
    have hfactor := Factor.parens_tree_le factor
    rw [Factor.tree, Factor.lexemes, count_leftParen_operator]
    exact hfactor
  | .power p => Power.parens_tree_le p

theorem Power.parens_tree_le : ∀ p : Power,
    p.tree.parens + p.tree.isBinary.toNat ≤ p.lexemes.count .leftParen
  | .plain atom =>
    (Nat.add_le_add_left (Expr.toNat_isBinary_le atom.tree) _).trans (Atom.parens_tree_le atom)
  | .raised base exponent => by
    have hbase := Atom.parens_tree_le base
    rw [Power.tree, Power.lexemes, List.count_append]
    exact Nat.le_add_right_of_le hbase

/-- Where an atom has to stand, all but a number or a name needs parentheses. -/
theorem Atom.parens_tree_le : ∀ a : Atom,
    a.tree.parens + (!a.tree.isAtom).toNat ≤ a.lexemes.count .leftParen
  | .number .. | .name _ => Nat.zero_le _
  | .group sum => by
    have hsum := Sum.parens_tree_le sum
    have hone := Bool.toNat_le (!sum.tree.isAtom)
    rw [Atom.tree, Atom.lexemes, List.count_cons_self, List.count_append]
    omega

end

end Phrase

/-! ### The printer has no more

An operand that joins the chain on its left is printed without the pair that it would need by
itself. The number of pairs that the expression needs goes down with it, since the operand is no
longer a right operand there. -/

namespace Expr

variable {op : Operator} {e left right : Expr}

/-- A term that joins a sum brings its parentheses. -/
theorem parens_splice_of_isAdditive (h : op.isAdditive = true) (left right : Expr) :
    (splice op left right).parens = left.parens + right.parens := by
  induction right with
  | binary next first last s ihfirst ihlast =>
    by_cases hnext : next.precedence = op.precedence
    · have hadditive : next.isAdditive = true := (precedence_eq_iff.mp hnext).trans h
      rw [splice_of_precedence_eq hnext, parens_binary_of_isAdditive hadditive,
        parens_binary_of_isAdditive hadditive, ihfirst, Nat.add_assoc]
    · have hadditive : next.isAdditive = false := by
        rw [precedence_eq_iff, h] at hnext
        exact Bool.eq_false_of_not_eq_true hnext
      rw [splice, if_neg hnext, parens_binary_of_isAdditive h, isAdditive, hadditive]
      rfl
  | _ => exact parens_binary_of_isAdditive h _ _ _

/-- A factor that joins a term brings its parentheses, unless it is a sum and needs another pair. -/
theorem parens_splice_of_isMultiplicative (h : op.isMultiplicative = true) (left right : Expr) :
    (splice op left right).parens =
      left.parens + left.isAdditive.toNat + (right.parens + right.isAdditive.toNat) := by
  induction right with
  | binary next first last s ihfirst ihlast =>
    by_cases hnext : next.precedence = op.precedence
    · have hmultiplicative : next.isMultiplicative = true :=
        (congrArg (!·) (precedence_eq_iff.mp hnext)).trans h
      have hspliced : (splice op left first).isAdditive = false := by
        rw [isAdditive_splice]
        simpa [Operator.isMultiplicative] using h
      rw [splice_of_precedence_eq hnext, parens_binary_of_isMultiplicative hmultiplicative,
        parens_binary_of_isMultiplicative hmultiplicative,
        isAdditive_binary_of_isMultiplicative hmultiplicative, ihfirst, hspliced, Bool.toNat_false]
      omega
    · have hop : op.isAdditive = false := by simpa [Operator.isMultiplicative] using h
      have hadditive : next.isAdditive = true := by
        rw [precedence_eq_iff, hop] at hnext
        exact Bool.eq_true_of_not_eq_false hnext
      rw [splice, if_neg hnext, parens_binary_of_isMultiplicative h, isAdditive, hadditive]
      rfl
  | _ => exact parens_binary_of_isMultiplicative h _ _ _

theorem parens_rereadNumber (v : Binary64) : (rereadNumber v).parens = 0 := by
  cases v with
  | infinite negative => cases negative <;> rfl
  | finite x =>
    rw [rereadNumber_finite]
    split <;> rfl

theorem count_leftParen_signLexemes (negative : Bool) :
    (signLexemes negative).count .leftParen = 0 := by
  cases negative <;> rfl

theorem count_leftParen_shortText (v : Binary64) :
    (Lexeme.words v.shortText).count .leftParen = 0 := by
  cases v with
  | finite x =>
    rw [words_shortText_finite, List.count_append, count_leftParen_signLexemes]
    rfl
  | infinite negative =>
    rw [words_shortText_infinite, List.count_append, count_leftParen_signLexemes]
    rfl

theorem count_leftParen_exactText {v : Binary64} (h : v.Plain) :
    (Lexeme.words v.exactText).count .leftParen = 0 := by
  cases v with
  | finite x =>
    rw [words_exactText_of_plain h, List.count_append, count_leftParen_signLexemes]
    rfl
  | infinite negative => exact absurd h id

/-- The printer puts parentheses around a base that is not a power exactly if it is read as
something else than an atom. -/
theorem needsParensBase_eq_not_isAtom_reread (hlexical : e.Lexical) (h : e.isPower = false) :
    e.needsParensBase = !e.reread.isAtom := by
  cases e with
  | num v s =>
    cases v with
    | finite x =>
      rw [reread, rereadNumber_finite, needsParensBase, Binary64.isBelowZero]
      cases x.isBelowZero <;> rfl
    | infinite negative => cases negative <;> rfl
  | var name coefficient s =>
    obtain ⟨-, rfl⟩ := hlexical
    rfl
  | neg e s => rfl
  | power base exponent s => cases h
  | binary op left right s =>
    have hbinary : (binary op left right s).reread.isBinary = true := isBinary_reread _
    cases hreread : (binary op left right s).reread with
    | binary => rfl
    | _ =>
      rw [hreread] at hbinary
      cases hbinary

/-- **A printed expression has no more parentheses than it needs.** -/
theorem count_leftParen_lexemes (hlexical : e.Lexical) (h : e.ReadsBack) :
    e.lexemes.count .leftParen = e.reread.parens := by
  induction e with
  | num v s => exact (count_leftParen_shortText v).trans (parens_rereadNumber v).symm
  | var name coefficient s => rfl
  | neg e s ih =>
    rw [lexemes, count_leftParen_operator, count_leftParen_inParensIf, ih hlexical h, reread,
      parens, isBinary_reread, Nat.add_comm]
  | power base exponent s ih =>
    obtain ⟨hpower, hplain, hbase⟩ := h
    rw [lexemes, List.count_append, count_leftParen_inParensIf, count_leftParen_caret,
      count_leftParen_exactText hplain, ih hlexical hbase, reread, parens,
      needsParensBase_eq_not_isAtom_reread (e := base) hlexical hpower, Nat.add_zero, Nat.add_comm]
  | binary op left right s ihl ihr =>
    have hcount : (binary op left right s).lexemes.count .leftParen =
        (needsParensLeft op left).toNat + left.reread.parens +
          ((needsParensRight op right).toNat + right.reread.parens) := by
      rw [lexemes, List.count_append, count_leftParen_operator, count_leftParen_inParensIf,
        count_leftParen_inParensIf, ihl hlexical.1 h.1, ihr hlexical.2 h.2]
    rw [hcount, reread]
    cases hop : op.isAdditive with
    | true =>
      rw [needsParensLeft_of_isAdditive hop, needsParensRight_of_isAdditive hop, Bool.toNat_false]
      split
      · next hseparates =>
        rw [parens_binary_of_isAdditive hop, isAdditive_reread, hseparates, Bool.true_and]
        omega
      · next hseparates =>
        rw [parens_splice_of_isAdditive hop, Bool.eq_false_of_not_eq_true hseparates,
          Bool.false_and, Bool.toNat_false]
        omega
    | false =>
      have hmul : op.isMultiplicative = true := by simp [Operator.isMultiplicative, hop]
      rw [needsParensLeft_of_isMultiplicative hmul, needsParensRight_of_isMultiplicative hmul]
      split
      · rw [parens_binary_of_isMultiplicative hmul, isAdditive_reread, isBinary_reread]
        omega
      · rw [parens_splice_of_isMultiplicative hmul, isAdditive_reread, isAdditive_reread]
        omega

/-- **No text of the same expression has fewer parentheses** than a printed expression. -/
theorem count_leftParen_render_le (hlexical : e.Lexical) (hback : e.ReadsBack) {text : String}
    {d : Expr} (hparse : parse text = .ok d) (hd : d.bare = e.reread) :
    e.render.toList.count '(' ≤ text.toList.count '(' := by
  obtain ⟨s, hscan, htree⟩ := exists_spells_of_parse hparse
  have hparens : s.lexemes.count .leftParen = text.toList.count '(' := by
    rw [← Lexeme.count_leftParen_scan, hscan, List.count_append]
    rfl
  have hprinted : e.lexemes.count .leftParen = e.render.toList.count '(' := by
    rw [← Lexeme.count_leftParen_scan, hlexical.scansAs_render.scan_eq, List.count_append]
    rfl
  rw [← hprinted, ← hparens, count_leftParen_lexemes hlexical hback, ← hd, ← htree]
  exact s.parens_tree_le

/-- **No parenthesis can be left out.** Let an expression be read from a source, and perhaps be
simplified. If no base in it is a power and all its exponents are finite and integral or at least
one ten-thousandth, its text is read again. Leaving out an opening and a closing parenthesis, in
particular two that belong together, leaves a text that is refused or is read as an expression that
differs in more than its spans. -/
theorem exists_parse_render_minimal (source : String) (e n : Expr) (h : parse source = .ok e)
    (hn : n = e ∨ n = e.simplify) (hback : n.ReadsBack) :
    ∃ m, parse n.render = .ok m ∧
      ∀ front inside behind : List Char,
        n.render.toList = front ++ '(' :: (inside ++ ')' :: behind) →
        ∀ d, parse (String.ofList (front ++ (inside ++ behind))) = .ok d → d.bare ≠ m.bare := by
  have hlexical := lexical_of_parse_or_simplify h hn
  obtain ⟨m, hm, htree⟩ := exists_parse_render hlexical hback
  refine ⟨m, hm, fun front inside behind htext d hd hbare => ?_⟩
  have hle := count_leftParen_render_le hlexical hback hd (hbare.trans htree)
  rw [htext, String.toList_ofList] at hle
  simp only [List.count_append, List.count_cons_self, List.count_cons_of_ne (by decide : ')' ≠ '(')]
    at hle
  omega

/-- The product in `(-x)^2*(y-1)`. -/
def signedSquare : Expr :=
  .join .multiply
    (.power (.neg (.var "x" .one (some ⟨2, 3⟩)) (some ⟨0, 4⟩)) .two (some ⟨0, 6⟩))
    (.binary .subtract (.var "y" .one (some ⟨8, 9⟩)) (.num .one (some ⟨10, 11⟩)) (some ⟨7, 12⟩))

/-- Neither pair of `(-x)^2 × (y - 1)` can be left out. -/
theorem exists_parse_render_minimal_signedSquare :
    parse "(-x)^2*(y-1)" = .ok signedSquare ∧ signedSquare.ReadsBack ∧
      ∃ m, parse signedSquare.render = .ok m ∧
        (∃ d, parse "-x^2 × (y - 1)" = .ok d ∧ d.bare ≠ m.bare) ∧
        ∃ d, parse "(-x)^2 × y - 1" = .ok d ∧ d.bare ≠ m.bare := by
  have hparse : parse "(-x)^2*(y-1)" = .ok signedSquare := by decide +kernel
  have hback : signedSquare.ReadsBack := by decide +kernel
  have hsigned : (parse? "-x^2 × (y - 1)").isSome = true := by decide +kernel
  have hlast : (parse? "(-x)^2 × y - 1").isSome = true := by decide +kernel
  obtain ⟨d, hd⟩ := Option.isSome_iff_exists.mp hsigned
  obtain ⟨d', hd'⟩ := Option.isSome_iff_exists.mp hlast
  rw [parse?_eq_some_iff] at hd hd'
  obtain ⟨m, hm, hminimal⟩ := exists_parse_render_minimal _ _ _ hparse (.inl rfl) hback
  refine ⟨hparse, hback, m, hm, ⟨d, hd, ?_⟩, d', hd', ?_⟩
  · exact hminimal [] "-x".toList "^2 × (y - 1)".toList (by decide +kernel) d hd
  · exact hminimal "(-x)^2 × ".toList "y - 1".toList [] (by decide +kernel) d' hd'

end Expr

end SchoolAlgebra
