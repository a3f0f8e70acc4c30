import SchoolAlgebra.Proofs.Grammar.Phrase

/-!
# Phrases of printed expressions

Every expression is printed as a sum, a term or a factor, the tightest of the three that its text
is, and goes into parentheses where a tighter one has to stand. A right operand that is not put in
parentheses joins its chain to the chain on the left.

## Joining

The derivation of a right operand is not always a part of the derivation of the whole. In `a + (b -
c)`, printed as `a + b - c`, the chain of the operand has become the end of the chain of the sum.
`Phrase.Sum.join` makes one chain out of two, and since joining is associative it does not matter in
which order an expression is put together.

## Main definitions

* `Phrase.Sum.join`, `Phrase.Term.join` — two chains joined by an operator
* `Phrase.Printed` — the tightest phrase that an expression is printed as
* `Phrase.Printed.Closed` — every exponent in it is the longest one, whatever follows

## Main results

* `Phrase.Sum.join_join`, `Phrase.Term.join_join` — the order of joining does not matter
* `Phrase.Printed.lexemes_asTerm`, `Phrase.Printed.lexemes_asFactor` — where the parentheses stand
-/

namespace SchoolAlgebra

/-! ### Lexemes around a phrase -/

/-- The sign before a printed number. -/
def signLexemes (negative : Bool) : List Lexeme :=
  if negative then [.operator .subtract] else []

/-- Lexemes in parentheses. -/
def inParens (ls : List Lexeme) : List Lexeme := .leftParen :: (ls ++ [.rightParen])

/-- Lexemes in parentheses if they are needed. -/
def inParensIf (needed : Bool) (ls : List Lexeme) : List Lexeme :=
  if needed then inParens ls else ls

@[simp] theorem inParensIf_true (ls : List Lexeme) : inParensIf true ls = inParens ls := rfl

@[simp] theorem inParensIf_false (ls : List Lexeme) : inParensIf false ls = ls := rfl

namespace Phrase

variable {op op' : Operator}

/-! ### Joined chains

The lexemes of a joined chain are those of the two chains with the operator between them. Its
expression is known outright only if the second chain has one operand. -/

/-- A sum, and the terms of another one after an operator. -/
def Sum.join (s : Sum) (op : Operator) (h : op.isAdditive = true) : Sum → Sum
  | .mk first rest => match s with
    | .mk first' rest' => .mk first' (rest'.append (.more op h first rest))

/-- A term, and the factors of another one after an operator. -/
def Term.join (t : Term) (op : Operator) (h : op.isMultiplicative = true) : Term → Term
  | .mk first rest => match t with
    | .mk first' rest' => .mk first' (rest'.append (.more op h first rest))

theorem Sum.lexemes_join (s t : Sum) (h : op.isAdditive = true) :
    (s.join op h t).lexemes = s.lexemes ++ .operator op :: t.lexemes := by
  cases s
  cases t
  simp [join, lexemes, SumRest.lexemes]

theorem Term.lexemes_join (s t : Term) (h : op.isMultiplicative = true) :
    (s.join op h t).lexemes = s.lexemes ++ .operator op :: t.lexemes := by
  cases s
  cases t
  simp [join, lexemes, TermRest.lexemes]

theorem Sum.tree_join_mk_done (s : Sum) (h : op.isAdditive = true) (t : Term) :
    (s.join op h (.mk t .done)).tree = .binary op s.tree t.tree none := by
  cases s
  simp [join, tree, SumRest.treeAfter]

theorem Term.tree_join_mk_done (s : Term) (h : op.isMultiplicative = true) (f : Factor) :
    (s.join op h (.mk f .done)).tree = .binary op s.tree f.tree none := by
  cases s
  simp [join, tree, TermRest.treeAfter]

theorem SumRest.append_assoc : ∀ a b c : SumRest, (a.append b).append c = a.append (b.append c)
  | .done, _, _ => rfl
  | .more _ _ _ rest, b, c => by rw [append, append, append, append_assoc rest b c]

theorem TermRest.append_assoc : ∀ a b c : TermRest, (a.append b).append c = a.append (b.append c)
  | .done, _, _ => rfl
  | .more _ _ _ rest, b, c => by rw [append, append, append, append_assoc rest b c]

theorem Sum.join_join (s t u : Sum) (h : op.isAdditive = true) (h' : op'.isAdditive = true) :
    s.join op h (t.join op' h' u) = (s.join op h t).join op' h' u := by
  cases s
  cases t
  cases u
  simp [join, SumRest.append_assoc, SumRest.append]

theorem Term.join_join (s t u : Term) (h : op.isMultiplicative = true)
    (h' : op'.isMultiplicative = true) :
    s.join op h (t.join op' h' u) = (s.join op h t).join op' h' u := by
  cases s
  cases t
  cases u
  simp [join, TermRest.append_assoc, TermRest.append]

theorem Sum.Maximal.join {s t : Sum} {h : op.isAdditive = true} {next : Lexeme}
    (hs : s.Maximal (.operator op)) (ht : t.Maximal next) : (s.join op h t).Maximal next := by
  obtain ⟨first, rest⟩ := s
  obtain ⟨first', rest'⟩ := t
  refine ⟨?_, SumRest.maximal_append hs.2 ht⟩
  rw [SumRest.head_append]
  exact hs.1

theorem Term.Maximal.join {s t : Term} {h : op.isMultiplicative = true} {next : Lexeme}
    (hs : s.Maximal (.operator op)) (ht : t.Maximal next) : (s.join op h t).Maximal next := by
  obtain ⟨first, rest⟩ := s
  obtain ⟨first', rest'⟩ := t
  refine ⟨?_, TermRest.maximal_append hs.2 ht⟩
  rw [TermRest.head_append]
  exact hs.1

/-! ### The tightest phrase

Which phrase an expression is printed as depends on its outermost operation. From there it can be
used where a looser phrase may stand as it is, and where a tighter one has to stand in parentheses.
-/

/-- The tightest kind of phrase that a printed expression is. -/
inductive Printed where
  | sum (s : Sum)
  | term (t : Term)
  | factor (f : Factor)

namespace Printed

/-- An expression where a sum may stand. -/
def asSum : Printed → Sum
  | .sum s => s
  | .term t => .mk t .done
  | .factor f => .mk (.mk f .done) .done

/-- An expression where a term has to stand. -/
def asTerm : Printed → Term
  | .sum s => .mk (.power (.plain (.group s))) .done
  | .term t => t
  | .factor f => .mk f .done

/-- An expression where a factor has to stand. -/
def asFactor : Printed → Factor
  | .factor f => f
  | p => .power (.plain (.group p.asSum))

/-- An expression where an atom has to stand. -/
def asAtom : Printed → Atom
  | .factor (.power (.plain a)) => a
  | p => .group p.asSum

/-- An atom with a minus sign before it if there is one. -/
def signed (negative : Bool) (a : Atom) : Printed :=
  if negative then .factor (.minus (.power (.plain a))) else .factor (.power (.plain a))

/-- Whether the expression is printed as a sum. -/
def isSum : Printed → Bool
  | .sum _ => true
  | _ => false

/-- Whether the expression is printed as a factor. -/
def isFactor : Printed → Bool
  | .factor _ => true
  | _ => false

@[simp] theorem lexemes_asSum_term (t : Term) : (term t).asSum.lexemes = t.lexemes := by
  simp [asSum, Sum.lexemes, SumRest.lexemes]

@[simp] theorem lexemes_asSum_factor (f : Factor) : (factor f).asSum.lexemes = f.lexemes := by
  simp [asSum, Sum.lexemes, SumRest.lexemes, Term.lexemes, TermRest.lexemes]

theorem lexemes_asTerm (p : Printed) :
    p.asTerm.lexemes = inParensIf p.isSum p.asSum.lexemes := by
  cases p <;> simp [asTerm, asSum, isSum, inParens, Sum.lexemes, SumRest.lexemes, Term.lexemes,
    TermRest.lexemes, Factor.lexemes, Power.lexemes, Atom.lexemes]

theorem lexemes_asFactor (p : Printed) :
    p.asFactor.lexemes = inParensIf (!p.isFactor) p.asSum.lexemes := by
  cases p <;> simp [asFactor, asSum, isFactor, inParens, Sum.lexemes, SumRest.lexemes,
    Term.lexemes, TermRest.lexemes, Factor.lexemes, Power.lexemes, Atom.lexemes]

@[simp] theorem tree_asTerm (p : Printed) : p.asTerm.tree = p.asSum.tree := by
  cases p <;> rfl

@[simp] theorem tree_asFactor (p : Printed) : p.asFactor.tree = p.asSum.tree := by
  cases p <;> rfl

@[simp] theorem tree_asAtom (p : Printed) : p.asAtom.tree = p.asSum.tree := by
  unfold asAtom
  split <;> rfl

/-- Every exponent is the longest one, whatever follows. -/
def Closed (p : Printed) : Prop := ∀ next, p.asSum.Maximal next

theorem Closed.asTerm {p : Printed} (h : p.Closed) (next : Lexeme) : p.asTerm.Maximal next := by
  cases p with
  | sum s => exact ⟨h .rightParen, trivial⟩
  | term t => exact (h next).1
  | factor f => exact (h next).1

theorem Closed.asFactor {p : Printed} (h : p.Closed) (next : Lexeme) :
    p.asFactor.Maximal next := by
  cases p with
  | sum s => exact h .rightParen
  | term t => exact h .rightParen
  | factor f => exact (h next).1.1

theorem Closed.asAtom {p : Printed} (h : p.Closed) : p.asAtom.Maximal := by
  unfold Printed.asAtom
  split
  · exact (h .finish).1.1
  · exact h .rightParen

/-! ### Atoms with a sign -/

theorem isFactor_signed (negative : Bool) (a : Atom) :
    (signed negative a).isFactor = true ∧ (signed negative a).isSum = false := by
  cases negative <;> exact ⟨rfl, rfl⟩

theorem lexemes_signed (negative : Bool) (a : Atom) :
    (signed negative a).asSum.lexemes = signLexemes negative ++ a.lexemes := by
  cases negative <;> simp [signed, asSum, signLexemes, Sum.lexemes, SumRest.lexemes, Term.lexemes,
    TermRest.lexemes, Factor.lexemes, Power.lexemes]

/-- A sign makes parentheses where an atom has to stand. -/
theorem lexemes_asAtom_signed (negative : Bool) (a : Atom) :
    (signed negative a).asAtom.lexemes = inParensIf negative (signed negative a).asSum.lexemes := by
  cases negative with
  | false => rw [lexemes_signed]; rfl
  | true => rfl

theorem tree_signed (negative : Bool) (a : Atom) :
    (signed negative a).asSum.tree = if negative then .neg a.tree none else a.tree := by
  cases negative <;> rfl

theorem closed_signed (negative : Bool) {a : Atom} (h : a.Maximal) :
    (signed negative a).Closed := by
  intro next
  cases negative <;> exact ⟨⟨h, trivial⟩, trivial⟩

end Printed

end Phrase

end SchoolAlgebra
