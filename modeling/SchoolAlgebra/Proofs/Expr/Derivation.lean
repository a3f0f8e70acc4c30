import Mathlib
import SchoolAlgebra.Proofs.Expr.Printing
import SchoolAlgebra.Proofs.Expr.Reread

/-!
# The derivation of a printed expression

A printed expression that reads back has a derivation, node by node. Its lexemes are those of the
text, no exponent in it could be longer, and it is a derivation of `Expr.reread`.

For the last of these an operand is looked at in three places: by itself, as the right end of a sum
and as the right end of a term. In the last two it joins its chain to the chain on the left, and
what it is spliced into is only known where it is used.

## Why the derivation is given and not found

The derivation is defined by recursion on the expression, and parsing is not mentioned until the
end. A text determines its derivation, so any derivation of the lexemes that is maximal is the one
that parsing finds. This leaves three properties to be proved, and each of them is an induction over
the expression alone.

## Main definitions

* `Expr.printed` — the derivation of a printed expression
* `Expr.Follows` — it stands for the expression to be read in each of the three places

## Main results

* `Expr.lexemes_printed`, `Expr.closed_printed`, `Expr.follows` — the properties of the derivation
* `Expr.exists_parse_render` — an expression that reads back is read from its text
-/

namespace SchoolAlgebra

open Phrase

/-- The derivation of a printed number. -/
def Binary64.printed : Binary64 → Printed
  | .infinite negative => .signed negative (.name "inf")
  | .finite x => .signed x.isBelowZero
      (.number (String.ofList x.shortNumeral.text) x.shortNumeral.decimal.toBinary64)

/-- The derivation of a printed exponent. -/
def Binary64.printedExponent : Binary64 → Exponent
  | .infinite negative => ⟨negative, none⟩
  | .finite x => ⟨x.isBelowZero,
      some (String.ofList x.exactNumeral.text, x.exactNumeral.decimal.toBinary64)⟩

/-- The derivation of a printed expression that reads back. -/
def Expr.printed : Expr → Printed
  | .num v _ => v.printed
  | .var name _ _ => .signed false (.name name)
  | .neg e _ => .factor (.minus e.printed.asFactor)
  | .power base exponent _ =>
    .factor (.power (.raised base.printed.asAtom exponent.printedExponent))
  | .binary op left right _ =>
    if h : op.isAdditive = true then
      .sum (left.printed.asSum.join op h
        (if op.separatesRight then .mk right.printed.asTerm .done else right.printed.asSum))
    else
      .term (left.printed.asTerm.join op (by simp [Operator.isMultiplicative, h])
        (if op.separatesRight then .mk right.printed.asFactor .done else right.printed.asTerm))

namespace Expr

variable {op : Operator} {e : Expr}

/-! ### The kind of phrase

Whether a derivation is that of a sum, a term or a factor decides where parentheses are put around
it. For a printed expression the outermost operation tells, which is what the printer looks at. -/

theorem isSum_printed (e : Expr) : e.printed.isSum = e.isAdditive := by
  cases e with
  | num v s => cases v <;> exact (Printed.isFactor_signed _ _).2
  | binary op left right s =>
    rw [printed]
    split
    · next h => exact h.symm
    · next h => exact (Bool.not_eq_true _ ▸ h : op.isAdditive = false).symm
  | _ => rfl

theorem isFactor_printed (e : Expr) : e.printed.isFactor = !e.isBinary := by
  cases e with
  | num v s => cases v <;> exact (Printed.isFactor_signed _ _).1
  | binary op left right s =>
    rw [printed]
    split <;> rfl
  | _ => rfl

/-! ### The text of the derivation -/

theorem lexemes_printed_num (v : Binary64) :
    v.printed.asSum.lexemes = Lexeme.words v.shortText := by
  cases v with
  | finite x =>
    rw [Binary64.printed, Printed.lexemes_signed, words_shortText_finite]
    rfl
  | infinite negative =>
    rw [Binary64.printed, Printed.lexemes_signed, words_shortText_infinite]
    rfl

theorem lexemes_printedExponent {v : Binary64} (h : v.Plain) :
    v.printedExponent.lexemes = Lexeme.words v.exactText := by
  cases v with
  | infinite negative => exact absurd h id
  | finite x =>
    rw [words_exactText_of_plain h]
    rfl

/-- A base is in parentheses unless it is an atom. -/
theorem lexemes_asAtom_printed (hlexical : e.Lexical) (hpower : e.isPower = false) :
    e.printed.asAtom.lexemes = inParensIf e.needsParensBase e.printed.asSum.lexemes := by
  cases e with
  | num v s =>
    cases v with
    | finite x => exact Printed.lexemes_asAtom_signed _ _
    | infinite negative => exact Printed.lexemes_asAtom_signed _ _
  | var name coefficient s =>
    obtain ⟨-, rfl⟩ := hlexical
    rfl
  | neg e s => rfl
  | power base exponent s => cases hpower
  | binary op left right s =>
    rw [printed]
    split <;> rfl

/-- The derivation is one of the printed text. -/
theorem lexemes_printed (hlexical : e.Lexical) (h : e.ReadsBack) :
    e.printed.asSum.lexemes = e.lexemes := by
  induction e with
  | num v s => exact lexemes_printed_num v
  | var name coefficient s => rfl
  | neg e s ih =>
    rw [printed, Printed.lexemes_asSum_factor, Factor.lexemes, Printed.lexemes_asFactor,
      ih hlexical h, isFactor_printed, Bool.not_not, lexemes]
  | power base exponent s ih =>
    obtain ⟨hpower, hplain, hbase⟩ := h
    rw [printed, Printed.lexemes_asSum_factor, Factor.lexemes, Power.lexemes,
      lexemes_asAtom_printed (e := base) hlexical hpower, ih hlexical hbase,
      lexemes_printedExponent hplain, lexemes]
  | binary op left right s ihl ihr =>
    have ihl := ihl hlexical.1 h.1
    have ihr := ihr hlexical.2 h.2
    rw [printed, lexemes]
    split
    · next hop =>
      rw [Printed.asSum, Sum.lexemes_join, ihl, needsParensLeft_of_isAdditive hop,
        needsParensRight_of_isAdditive hop]
      split
      · next hseparates =>
        rw [hseparates, Bool.true_and, ← isSum_printed, ← ihr, ← Printed.lexemes_asTerm]
        simp [Sum.lexemes, SumRest.lexemes]
      · next hseparates =>
        rw [Bool.eq_false_of_not_eq_true hseparates, Bool.false_and, ihr]
        rfl
    · next hop =>
      have hmul : op.isMultiplicative = true := by simp [Operator.isMultiplicative, hop]
      rw [Printed.lexemes_asSum_term, Term.lexemes_join, Printed.lexemes_asTerm, ihl, isSum_printed,
        needsParensLeft_of_isMultiplicative hmul, needsParensRight_of_isMultiplicative hmul]
      split
      · rw [← Bool.not_not right.isBinary, ← isFactor_printed, ← ihr, ← Printed.lexemes_asFactor]
        simp [Phrase.Term.lexemes, TermRest.lexemes]
      · rw [Printed.lexemes_asTerm, isSum_printed, ihr]

/-- No exponent in the derivation could be longer. -/
theorem closed_printed (h : e.ReadsBack) : e.printed.Closed := by
  induction e with
  | num v s => cases v <;> exact Printed.closed_signed _ trivial
  | var name coefficient s => exact Printed.closed_signed _ trivial
  | neg e s ih => exact fun next => ⟨⟨(ih h).asFactor _, trivial⟩, trivial⟩
  | power base exponent s ih =>
    obtain ⟨-, hplain, hbase⟩ := h
    intro next
    refine ⟨⟨⟨(ih hbase).asAtom, ?_⟩, trivial⟩, trivial⟩
    cases exponent with
    | infinite negative => exact absurd hplain id
    | finite x => exact Exponent.maximal_of_isSome rfl _
  | binary op left right s ihl ihr =>
    have ihl := ihl h.1
    have ihr := ihr h.2
    intro next
    rw [printed]
    split
    · refine Sum.Maximal.join (ihl _) ?_
      split
      · exact ⟨ihr.asTerm _, trivial⟩
      · exact ihr next
    · refine ⟨Term.Maximal.join (ihl.asTerm _) ?_, trivial⟩
      split
      · exact ⟨ihr.asFactor _, trivial⟩
      · exact ihr.asTerm _

/-! ### The expression of the derivation

In a binary operation the left operand stands by itself, and the right one is joined to its chain
unless the operator has to be kept apart from it. Splicing is associative in the sense of
`splice_splice`, so a chain may be joined in one piece or link by link. -/

/-- The derivation of a printed expression stands for what is to be read, by itself and as the right
end of a chain. -/
structure Follows (e : Expr) : Prop where
  /-- By itself. -/
  tree : e.printed.asSum.tree = e.reread
  /-- As the right end of a sum. -/
  joinSum : ∀ (op : Operator) (h : op.isAdditive = true) (s : Sum),
    (s.join op h e.printed.asSum).tree = splice op s.tree e.reread
  /-- As the right end of a term. -/
  joinTerm : ∀ (op : Operator) (h : op.isMultiplicative = true) (t : Phrase.Term),
    (t.join op h e.printed.asTerm).tree = splice op t.tree e.reread

theorem joinSum_of_tree (htree : e.printed.asSum.tree = e.reread) (hsum : e.isAdditive = false)
    (h : op.isAdditive = true) (s : Sum) :
    (s.join op h e.printed.asSum).tree = splice op s.tree e.reread := by
  have hterm : e.printed.asSum = .mk e.printed.asTerm .done := by
    have hkind := isSum_printed e
    rw [hsum] at hkind
    cases hprinted : e.printed with
    | sum s => rw [hprinted] at hkind; cases hkind
    | term t => rfl
    | factor f => rfl
  rw [hterm, Sum.tree_join_mk_done, Printed.tree_asTerm, htree,
    splice_of_isAdditive_eq_false h (by rw [isAdditive_reread, hsum])]

theorem joinTerm_of_tree (htree : e.printed.asSum.tree = e.reread)
    (hterm : e.isMultiplicative = false) (h : op.isMultiplicative = true) (t : Phrase.Term) :
    (t.join op h e.printed.asTerm).tree = splice op t.tree e.reread := by
  have hfactor : e.printed.asTerm = .mk e.printed.asFactor .done := by
    have hsum := isSum_printed e
    have hfactor := isFactor_printed e
    cases hprinted : e.printed with
    | sum s => rfl
    | factor f => rfl
    | term t =>
      rw [hprinted] at hsum hfactor
      cases e with
      | binary op left right s =>
        have hop : op.isAdditive = false := hsum.symm
        simp [isMultiplicative, Operator.isMultiplicative, hop] at hterm
      | _ => cases hfactor
  rw [hfactor, Term.tree_join_mk_done, Printed.tree_asFactor, htree,
    splice_of_isMultiplicative_eq_false h (by rw [isMultiplicative_reread, hterm])]

/-- An operand that is not an operation follows if its derivation stands for it. -/
theorem Follows.of_tree (htree : e.printed.asSum.tree = e.reread) (hsum : e.isAdditive = false)
    (hterm : e.isMultiplicative = false) : e.Follows :=
  ⟨htree, fun _ => joinSum_of_tree htree hsum, fun _ => joinTerm_of_tree htree hterm⟩

variable {left right : Expr} {s : Option Span}

/-- A sum: its right operand is a term, or joins its chain. -/
theorem Follows.sum (hleft : left.Follows) (hright : right.Follows) (hop : op.isAdditive = true) :
    (binary op left right s).Follows := by
  have hprinted : (binary op left right s).printed.asSum = left.printed.asSum.join op hop
      (if op.separatesRight then .mk right.printed.asTerm .done else right.printed.asSum) := by
    rw [printed, dif_pos hop]
    rfl
  have htree : (binary op left right s).printed.asSum.tree = (binary op left right s).reread := by
    rw [hprinted, reread]
    split
    · rw [Sum.tree_join_mk_done, Printed.tree_asTerm, hleft.tree, hright.tree]
    · rw [hright.joinSum op hop, hleft.tree]
  refine ⟨htree, fun op' h' t => ?_, fun _ => joinTerm_of_tree htree ?_⟩
  · have hprecedence : op.precedence = op'.precedence := by
      rw [precedence_eq_iff, hop, h']
    rw [hprinted, Sum.join_join, reread]
    split
    · rw [Sum.tree_join_mk_done, Printed.tree_asTerm, hleft.joinSum op' h', hright.tree,
        splice_of_precedence_eq hprecedence]
    · rw [hright.joinSum op hop, hleft.joinSum op' h', splice_splice hprecedence]
  · simp [isMultiplicative, Operator.isMultiplicative, hop]

/-- A product: its right operand is a factor, or joins its chain. -/
theorem Follows.product (hleft : left.Follows) (hright : right.Follows)
    (hop : op.isMultiplicative = true) : (binary op left right s).Follows := by
  have hadditive : op.isAdditive = false := by simpa [Operator.isMultiplicative] using hop
  have hprinted : (binary op left right s).printed = .term (left.printed.asTerm.join op hop
      (if op.separatesRight then .mk right.printed.asFactor .done else right.printed.asTerm)) := by
    rw [printed, dif_neg (by simp [hadditive])]
  have htree : (binary op left right s).printed.asSum.tree = (binary op left right s).reread := by
    rw [← Printed.tree_asTerm, hprinted, Printed.asTerm, reread]
    split
    · rw [Term.tree_join_mk_done, Printed.tree_asFactor, Printed.tree_asTerm, hleft.tree,
        hright.tree]
    · rw [hright.joinTerm op hop, Printed.tree_asTerm, hleft.tree]
  refine ⟨htree, fun _ => joinSum_of_tree htree hadditive, fun op' h' t => ?_⟩
  have hprecedence : op.precedence = op'.precedence := by
    rw [precedence_eq_iff, hadditive]
    simpa [Operator.isMultiplicative] using h'.symm
  rw [hprinted, Printed.asTerm, Term.join_join, reread]
  split
  · rw [Term.tree_join_mk_done, Printed.tree_asFactor, hleft.joinTerm op' h', hright.tree,
      splice_of_precedence_eq hprecedence]
  · rw [hright.joinTerm op hop, hleft.joinTerm op' h', splice_splice hprecedence]

theorem tree_printed_num (v : Binary64) : v.printed.asSum.tree = rereadNumber v := by
  cases v with
  | infinite negative => cases negative <;> rfl
  | finite x =>
    rw [Binary64.printed, Printed.tree_signed, rereadNumber_finite]
    rfl

theorem value_printedExponent {v : Binary64} (h : v.Plain) :
    v.printedExponent.value = v.unsignZero := by
  cases v with
  | infinite negative => exact absurd h id
  | finite x =>
    rw [Binary64.unsignZero_eq, ← x.toBinary64_exactNumeral]
    rfl

/-- The derivation of every expression that reads back follows. -/
theorem follows (hlexical : e.Lexical) (h : e.ReadsBack) : e.Follows := by
  induction e with
  | num v s =>
    have htree : (num v s).printed.asSum.tree = (num v s).reread := tree_printed_num v
    exact .of_tree htree rfl rfl
  | var name coefficient s =>
    obtain ⟨-, rfl⟩ := hlexical
    exact .of_tree rfl rfl rfl
  | neg e s ih =>
    have htree : (neg e s).printed.asSum.tree = .neg e.printed.asFactor.tree none := rfl
    refine .of_tree ?_ rfl rfl
    rw [htree, Printed.tree_asFactor, (ih hlexical h).tree, reread]
  | power base exponent s ih =>
    have htree : (power base exponent s).printed.asSum.tree =
        .power base.printed.asAtom.tree exponent.printedExponent.value none := rfl
    refine .of_tree ?_ rfl rfl
    rw [htree, Printed.tree_asAtom, (ih hlexical h.2.2).tree, value_printedExponent h.2.1, reread]
  | binary op left right s ihl ihr =>
    cases hop : op.isAdditive with
    | true => exact .sum (ihl hlexical.1 h.1) (ihr hlexical.2 h.2) hop
    | false =>
      exact .product (ihl hlexical.1 h.1) (ihr hlexical.2 h.2)
        (by simp [Operator.isMultiplicative, hop])

/-! ### Reading it again -/

/-- A lexical expression that reads back is read from its text, with the changes of `reread`. -/
theorem exists_parse_render (hlexical : e.Lexical) (h : e.ReadsBack) :
    ∃ m, parse e.render = .ok m ∧ m.bare = e.reread := by
  have hscan : Lexeme.scan e.render.toList = e.printed.asSum.lexemes ++ [.finish] := by
    rw [lexemes_printed hlexical h]
    exact hlexical.scansAs_render.scan_eq
  obtain ⟨m, hm, htree⟩ := Phrase.Sum.exists_parse hscan (closed_printed h .finish)
  exact ⟨m, hm, htree.trans (follows hlexical h).tree⟩

end Expr

end SchoolAlgebra
