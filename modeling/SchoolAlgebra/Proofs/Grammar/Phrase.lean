import SchoolAlgebra.Proofs.Expr.Bare
import SchoolAlgebra.Token.Basic

/-!
# The grammar of expressions

A *phrase* is a derivation in the grammar, written down as a tree:

```
sum    → term (('+' | '-') term)*
term   → factor (('*' | '/') factor)*
factor → '-' factor | power
power  → atom | atom '^' exponent
atom   → NUMBER | NAME | '(' sum ')'
```

and an exponent is an optional minus sign and an optional numeral. Each phrase has the lexemes that
it derives and the expression that it stands for. Nothing here knows of a parser.

## The longest exponent

As an exponent may be empty, the grammar alone does not say where one ends: in `x ^ - y` the minus
could be a subtraction. The rule is that an exponent is as long as it can be, and `Maximal` states
it. Every kind of phrase has it, relative to the lexeme `next` that follows, because the exponent in
question may be the last thing of a phrase. No other constituent needs such a rule.

## Main definitions

* `Phrase.Sum`, `Phrase.Term`, `Phrase.Factor`, `Phrase.Power`, `Phrase.Atom` — the derivations
* `lexemes`, `tree` — what a phrase derives, and the expression it stands for
* `Maximal` — every exponent in a phrase is the longest one
* `Phrase.Sum.Spells` — a phrase is a derivation of a list of lexemes
-/

namespace SchoolAlgebra

namespace Phrase

/-! ### Derivations

A chain is its first operand and a list of further ones, each with the operator before it. The
operators are restricted by a proof in the constructor, so a term has no plus in it by its type. -/

/-- What follows a caret: an optional minus sign and an optional numeral. -/
structure Exponent where
  /-- Whether there is a minus sign. -/
  minus : Bool
  /-- The numeral with its value. -/
  numeral? : Option (String × Binary64)

mutual

/-- A term and any number of further terms. -/
inductive Sum where
  | mk (first : Term) (rest : SumRest)

/-- The further terms of a sum, each with the operator before it. -/
inductive SumRest where
  | done
  | more (op : Operator) (additive : op.isAdditive = true) (term : Term) (rest : SumRest)

/-- A factor and any number of further factors. -/
inductive Term where
  | mk (first : Factor) (rest : TermRest)

/-- The further factors of a term, each with the operator before it. -/
inductive TermRest where
  | done
  | more (op : Operator) (multiplicative : op.isMultiplicative = true) (factor : Factor)
      (rest : TermRest)

/-- A power with any number of minus signs before it. -/
inductive Factor where
  | minus (factor : Factor)
  | power (power : Power)

/-- An atom, or an atom with an exponent. -/
inductive Power where
  | plain (atom : Atom)
  | raised (base : Atom) (exponent : Exponent)

/-- A numeral, a name, or a sum in parentheses. -/
inductive Atom where
  | number (text : String) (value : Binary64)
  | name (text : String)
  | group (sum : Sum)

end

/-! ### The lexemes of a phrase -/

/-- The lexemes of an exponent. -/
def Exponent.lexemes (x : Exponent) : List Lexeme :=
  (if x.minus then [.operator .subtract] else []) ++ x.numeral?.toList.map fun n => .number n.1 n.2

mutual

/-- The lexemes that a sum derives. -/
def Sum.lexemes : Sum → List Lexeme
  | .mk first rest => first.lexemes ++ rest.lexemes

/-- The lexemes of the further terms of a sum. -/
def SumRest.lexemes : SumRest → List Lexeme
  | .done => []
  | .more op _ term rest => .operator op :: (term.lexemes ++ rest.lexemes)

/-- The lexemes that a term derives. -/
def Term.lexemes : Term → List Lexeme
  | .mk first rest => first.lexemes ++ rest.lexemes

/-- The lexemes of the further factors of a term. -/
def TermRest.lexemes : TermRest → List Lexeme
  | .done => []
  | .more op _ factor rest => .operator op :: (factor.lexemes ++ rest.lexemes)

/-- The lexemes that a factor derives. -/
def Factor.lexemes : Factor → List Lexeme
  | .minus factor => .operator .subtract :: factor.lexemes
  | .power power => power.lexemes

/-- The lexemes that a power derives. -/
def Power.lexemes : Power → List Lexeme
  | .plain atom => atom.lexemes
  | .raised base exponent => base.lexemes ++ .caret :: exponent.lexemes

/-- The lexemes that an atom derives. -/
def Atom.lexemes : Atom → List Lexeme
  | .number text value => [.number text value]
  | .name text => [.name text]
  | .group sum => .leftParen :: (sum.lexemes ++ [.rightParen])

end

/-! ### The expression of a phrase

Chains are grouped to the left. The rest of a chain is therefore read with what stands before it as
an argument, and not as an expression of its own. -/

/-- The number that an exponent stands for: two if it has no numeral, with or without a sign. -/
def Exponent.value (x : Exponent) : Binary64 :=
  match x.numeral? with
  | none => .two
  | some (_, v) => if x.minus then v.neg else v

mutual

/-- The expression that a sum stands for. -/
def Sum.tree : Sum → Expr
  | .mk first rest => rest.treeAfter first.tree

/-- The sum of `left` and further terms, grouped to the left. -/
def SumRest.treeAfter : SumRest → (left : Expr) → Expr
  | .done, left => left
  | .more op _ term rest, left => rest.treeAfter (.binary op left term.tree none)

/-- The expression that a term stands for. -/
def Term.tree : Term → Expr
  | .mk first rest => rest.treeAfter first.tree

/-- The product of `left` and further factors, grouped to the left. -/
def TermRest.treeAfter : TermRest → (left : Expr) → Expr
  | .done, left => left
  | .more op _ factor rest, left => rest.treeAfter (.binary op left factor.tree none)

/-- The expression that a factor stands for. -/
def Factor.tree : Factor → Expr
  | .minus factor => .neg factor.tree none
  | .power power => power.tree

/-- The expression that a power stands for. -/
def Power.tree : Power → Expr
  | .plain atom => atom.tree
  | .raised base exponent => .power base.tree exponent.value none

/-- The expression that an atom stands for: parentheses leave no node. -/
def Atom.tree : Atom → Expr
  | .number _ value => .num value none
  | .name text => .var text .one none
  | .group sum => sum.tree

end

/-! ### The longest exponent

An exponent is the longest one if the next lexeme could not belong to it. The next lexeme of a part
is the first one of what follows it in the phrase, and that of the last part is `next`. -/

/-- No exponent goes on with the next lexeme. -/
def Exponent.Maximal (x : Exponent) (next : Lexeme) : Prop :=
  ∀ y : Exponent, y.lexemes ≠ x.lexemes ++ [next]

/-- The lexeme after the term that these terms follow. -/
def SumRest.head (next : Lexeme) : SumRest → Lexeme
  | .done => next
  | .more op .. => .operator op

/-- The lexeme after the factor that these factors follow. -/
def TermRest.head (next : Lexeme) : TermRest → Lexeme
  | .done => next
  | .more op .. => .operator op

mutual

/-- Every exponent in a sum is the longest one. -/
def Sum.Maximal : Sum → (next : Lexeme) → Prop
  | .mk first rest, next => first.Maximal (rest.head next) ∧ rest.Maximal next

/-- Every exponent in the further terms of a sum is the longest one. -/
def SumRest.Maximal : SumRest → (next : Lexeme) → Prop
  | .done, _ => True
  | .more _ _ term rest, next => term.Maximal (rest.head next) ∧ rest.Maximal next

/-- Every exponent in a term is the longest one. -/
def Term.Maximal : Term → (next : Lexeme) → Prop
  | .mk first rest, next => first.Maximal (rest.head next) ∧ rest.Maximal next

/-- Every exponent in the further factors of a term is the longest one. -/
def TermRest.Maximal : TermRest → (next : Lexeme) → Prop
  | .done, _ => True
  | .more _ _ factor rest, next => factor.Maximal (rest.head next) ∧ rest.Maximal next

/-- Every exponent in a factor is the longest one. -/
def Factor.Maximal : Factor → (next : Lexeme) → Prop
  | .minus factor, next => factor.Maximal next
  | .power power, next => power.Maximal next

/-- Every exponent in a power is the longest one. -/
def Power.Maximal : Power → (next : Lexeme) → Prop
  | .plain atom, _ => atom.Maximal
  | .raised base exponent, next => base.Maximal ∧ exponent.Maximal next

/-- Every exponent in an atom is the longest one. -/
def Atom.Maximal : Atom → Prop
  | .number .. | .name _ => True
  | .group sum => sum.Maximal .rightParen

end

/-- The sum is a derivation of the lexemes, which are all there is. -/
def Sum.Spells (s : Sum) (ls : List Lexeme) : Prop := s.lexemes = ls ∧ s.Maximal .finish

/-! ### When an exponent is the longest one -/

theorem Exponent.maximal_of_isSome {x : Exponent} (h : x.numeral?.isSome = true) (next : Lexeme) :
    x.Maximal next := by
  obtain ⟨minus, numeral⟩ := x
  rintro ⟨minus', numeral'⟩ heq
  cases numeral <;> cases numeral' <;> cases minus <;> cases minus' <;> simp_all [lexemes]

theorem Exponent.maximal_of_not_isNumber {x : Exponent} {next : Lexeme}
    (hnumber : next.isNumber = false) (hminus : x.minus = false → next ≠ .operator .subtract) :
    x.Maximal next := by
  obtain ⟨minus, numeral⟩ := x
  rintro ⟨minus', numeral'⟩ heq
  cases numeral <;> cases numeral' <;> cases minus <;> cases minus' <;> simp_all [lexemes]
  all_goals
    subst heq
    simp [Lexeme.isNumber, Lexeme.value?] at hnumber

/-- A longest exponent is followed by a numeral only if it has one. -/
theorem Exponent.Maximal.numeral?_isSome {x : Exponent} {text : String} {value : Binary64}
    (h : x.Maximal (.number text value)) : x.numeral?.isSome = true := by
  obtain ⟨minus, numeral⟩ := x
  cases numeral with
  | some n => rfl
  | none => exact absurd (by cases minus <;> rfl) (h ⟨minus, some (text, value)⟩)

/-- A longest exponent is followed by a minus sign only if it has a sign or a numeral. -/
theorem Exponent.Maximal.minus_or_isSome {x : Exponent} (h : x.Maximal (.operator .subtract)) :
    x.minus = true ∨ x.numeral?.isSome = true := by
  obtain ⟨minus, numeral⟩ := x
  cases numeral with
  | some n => exact .inr rfl
  | none =>
    cases minus with
    | true => exact .inl rfl
    | false => exact absurd rfl (h ⟨true, none⟩)

/-! ### Joining chains

A chain grows at its end when it is read, and a chain that is an operand can become part of the
chain that it is an operand of. Both are one operation on the further operands of a chain. -/

/-- Further terms, and then more of them. -/
def SumRest.append : SumRest → SumRest → SumRest
  | .done, added => added
  | .more op h term rest, added => .more op h term (rest.append added)

/-- Further factors, and then more of them. -/
def TermRest.append : TermRest → TermRest → TermRest
  | .done, added => added
  | .more op h factor rest, added => .more op h factor (rest.append added)

@[simp] theorem SumRest.lexemes_append : ∀ a b : SumRest,
    (a.append b).lexemes = a.lexemes ++ b.lexemes
  | .done, _ => rfl
  | .more _ _ _ rest, b => by simp [append, lexemes, lexemes_append rest b]

@[simp] theorem TermRest.lexemes_append : ∀ a b : TermRest,
    (a.append b).lexemes = a.lexemes ++ b.lexemes
  | .done, _ => rfl
  | .more _ _ _ rest, b => by simp [append, lexemes, lexemes_append rest b]

@[simp] theorem SumRest.treeAfter_append : ∀ (a b : SumRest) (left : Expr),
    (a.append b).treeAfter left = b.treeAfter (a.treeAfter left)
  | .done, _, _ => rfl
  | .more _ _ _ rest, b, _ => treeAfter_append rest b _

@[simp] theorem TermRest.treeAfter_append : ∀ (a b : TermRest) (left : Expr),
    (a.append b).treeAfter left = b.treeAfter (a.treeAfter left)
  | .done, _, _ => rfl
  | .more _ _ _ rest, b, _ => treeAfter_append rest b _

@[simp] theorem SumRest.head_append (a b : SumRest) (next : Lexeme) :
    (a.append b).head next = a.head (b.head next) := by
  cases a <;> rfl

@[simp] theorem TermRest.head_append (a b : TermRest) (next : Lexeme) :
    (a.append b).head next = a.head (b.head next) := by
  cases a <;> rfl

theorem SumRest.maximal_append : ∀ {a b : SumRest} {next : Lexeme},
    a.Maximal (b.head next) → b.Maximal next → (a.append b).Maximal next
  | .done, _, _, _, hb => hb
  | .more .., _, _, ⟨hterm, hrest⟩, hb => ⟨by rwa [head_append], maximal_append hrest hb⟩

theorem TermRest.maximal_append : ∀ {a b : TermRest} {next : Lexeme},
    a.Maximal (b.head next) → b.Maximal next → (a.append b).Maximal next
  | .done, _, _, _, hb => hb
  | .more .., _, _, ⟨hfactor, hrest⟩, hb => ⟨by rwa [head_append], maximal_append hrest hb⟩

/-- A sum with one more term. -/
def Sum.snoc (s : Sum) (op : Operator) (h : op.isAdditive = true) (term : Term) : Sum :=
  match s with
  | .mk first rest => .mk first (rest.append (.more op h term .done))

/-- A term with one more factor. -/
def Term.snoc (t : Term) (op : Operator) (h : op.isMultiplicative = true) (factor : Factor) :
    Term :=
  match t with
  | .mk first rest => .mk first (rest.append (.more op h factor .done))

variable {op : Operator}

theorem Sum.lexemes_snoc (s : Sum) (h : op.isAdditive = true) (term : Term) :
    (s.snoc op h term).lexemes = s.lexemes ++ .operator op :: term.lexemes := by
  cases s
  simp [snoc, lexemes, SumRest.lexemes]

theorem Term.lexemes_snoc (t : Term) (h : op.isMultiplicative = true) (factor : Factor) :
    (t.snoc op h factor).lexemes = t.lexemes ++ .operator op :: factor.lexemes := by
  cases t
  simp [snoc, lexemes, TermRest.lexemes]

theorem Sum.tree_snoc (s : Sum) (h : op.isAdditive = true) (term : Term) :
    (s.snoc op h term).tree = .binary op s.tree term.tree none := by
  cases s
  simp [snoc, tree, SumRest.treeAfter]

theorem Term.tree_snoc (t : Term) (h : op.isMultiplicative = true) (factor : Factor) :
    (t.snoc op h factor).tree = .binary op t.tree factor.tree none := by
  cases t
  simp [snoc, tree, TermRest.treeAfter]

theorem Sum.Maximal.snoc {s : Sum} {h : op.isAdditive = true} {term : Term} {next : Lexeme}
    (hs : s.Maximal (.operator op)) (hterm : term.Maximal next) :
    (s.snoc op h term).Maximal next := by
  obtain ⟨first, rest⟩ := s
  refine ⟨?_, SumRest.maximal_append hs.2 ⟨hterm, trivial⟩⟩
  rw [SumRest.head_append]
  exact hs.1

theorem Term.Maximal.snoc {t : Term} {h : op.isMultiplicative = true} {factor : Factor}
    {next : Lexeme} (ht : t.Maximal (.operator op)) (hfactor : factor.Maximal next) :
    (t.snoc op h factor).Maximal next := by
  obtain ⟨first, rest⟩ := t
  refine ⟨?_, TermRest.maximal_append ht.2 ⟨hfactor, trivial⟩⟩
  rw [TermRest.head_append]
  exact ht.1

end Phrase

end SchoolAlgebra
