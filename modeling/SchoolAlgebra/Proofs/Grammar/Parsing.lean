import SchoolAlgebra.Proofs.Grammar.Derives
import SchoolAlgebra.Proofs.Grammar.Recovery

/-!
# The parser and the grammar

The parser decides the grammar: it answers with an expression exactly where the lexemes have a
derivation, which is then the only one, and the expression is the one that the derivation stands
for. Everywhere else it answers with an error.

## How the parts fit together

A phrase has a derivation with spans, and what has one is read as its expression: this is one
direction. In the other one the state in which reading ends comes from phrases that are joined to
one. Since the grammar is unambiguous, the derivation that is found is the one that there was. The
tokens are any tokens in front of one that ends a source; that they were scanned from a text is not
used.

## Main results

* `Phrase.Sum.Spells.ofTokens?` — what has a derivation is accepted
* `Phrase.Sum.exists_of_ofTokens?` — what is accepted has a derivation
* `Expr.ofTokens?_eq_ok_iff_derives` — the same with spans
* `Expr.ofTokens?_decides_grammar` — both, with the uniqueness of the derivation
-/

namespace SchoolAlgebra

open Phrase

variable {tokens : List Token} {stop : Token}

theorem Expr.ofTokens?_append_finish (htokens : ∀ t ∈ tokens, t.lexeme ≠ .finish)
    (hstop : stop.lexeme = .finish) :
    Expr.ofTokens? (tokens ++ [stop]) =
      some (ParseState.initial.read tokens >>= fun last => last.finish stop) :=
  ParseState.run?_append_finish _ htokens hstop

/-- A list of tokens with a derivation is accepted, as the expression of the derivation. -/
theorem Phrase.Sum.Spells.ofTokens? {d : Sum} (hd : d.Spells (tokens.map Token.lexeme))
    (htokens : ∀ t ∈ tokens, t.lexeme ≠ .finish) (hstop : stop.lexeme = .finish) :
    ∃ e, Expr.ofTokens? (tokens ++ [stop]) = some (.ok e) ∧ e.bare = d.tree := by
  obtain ⟨e, he, htree⟩ := Sum.exists_derives (s := d) hd.2 endsSum_finish hd.1.symm
  exact ⟨e, he.ofTokens? htokens hstop, htree⟩

/-- A list of tokens that is accepted has a derivation of the expression. -/
theorem Phrase.Sum.exists_of_ofTokens? {e : Expr} (htokens : ∀ t ∈ tokens, t.lexeme ≠ .finish)
    (hstop : stop.lexeme = .finish)
    (h : Expr.ofTokens? (tokens ++ [stop]) = some (.ok e)) :
    ∃ d : Sum, d.Spells (tokens.map Token.lexeme) ∧ d.tree = e.bare := by
  rw [Expr.ofTokens?_append_finish htokens hstop] at h
  obtain ⟨last, hread, hfinish⟩ := exists_of_bind_eq_ok (Option.some.inj h)
  have hcovers := ParseState.covers_initial.read hread
  rw [List.nil_append] at hcovers
  exact Sum.exists_of_finish hcovers hfinish

/-- A list of tokens is accepted as an expression exactly if it has a derivation with the same
spans. -/
theorem Expr.ofTokens?_eq_ok_iff_derives {e : Expr} (htokens : ∀ t ∈ tokens, t.lexeme ≠ .finish)
    (hstop : stop.lexeme = .finish) :
    Expr.ofTokens? (tokens ++ [stop]) = some (.ok e) ↔ Derives .sum .finish tokens e := by
  refine ⟨fun h => ?_, fun h => h.ofTokens? htokens hstop⟩
  obtain ⟨d, hd, -⟩ := Sum.exists_of_ofTokens? htokens hstop h
  obtain ⟨e', he', -⟩ := Sum.exists_derives (s := d) hd.2 endsSum_finish hd.1.symm
  have haccepted := he'.ofTokens? htokens hstop
  obtain rfl : e' = e := Except.ok.inj (Option.some.inj (haccepted.symm.trans h))
  exact he'

/-- Tokens are derived as one expression at most. -/
theorem Derives.unique {e e' : Expr} (htokens : ∀ t ∈ tokens, t.lexeme ≠ .finish)
    (h : Derives .sum .finish tokens e) (h' : Derives .sum .finish tokens e') : e = e' := by
  have hstop : (Token.mk .finish ⟨0, 0⟩).lexeme = .finish := rfl
  have haccepted := (h.ofTokens? htokens hstop).symm.trans (h'.ofTokens? htokens hstop)
  exact Except.ok.inj (Option.some.inj haccepted)

/-- Behind a derivation with spans there is one without. -/
theorem Derives.exists_spells {e : Expr} (htokens : ∀ t ∈ tokens, t.lexeme ≠ .finish)
    (h : Derives .sum .finish tokens e) :
    ∃ d : Sum, d.Spells (tokens.map Token.lexeme) ∧ d.tree = e.bare := by
  have hstop : (Token.mk .finish ⟨0, 0⟩).lexeme = .finish := rfl
  exact Sum.exists_of_ofTokens? htokens hstop (h.ofTokens? htokens hstop)

/-- **The parser decides the grammar.** Let `stop` be the one token that ends a source. The parser
answers with an expression if and only if the lexemes before `stop` have a derivation. Then the
expression, but for its spans, is the one that the derivation stands for, and no other derivation
exists. Without a derivation the answer is an error. -/
theorem Expr.ofTokens?_decides_grammar (tokens : List Token) (stop : Token)
    (htokens : ∀ t ∈ tokens, t.lexeme ≠ .finish) (hstop : stop.lexeme = .finish) :
    ((∃ e, Expr.ofTokens? (tokens ++ [stop]) = some (.ok e)) ↔
        ∃ d : Sum, d.Spells (tokens.map Token.lexeme)) ∧
      (∀ e, Expr.ofTokens? (tokens ++ [stop]) = some (.ok e) →
        ∀ d : Sum, d.Spells (tokens.map Token.lexeme) →
          e.bare = d.tree ∧ ∀ d' : Sum, d'.Spells (tokens.map Token.lexeme) → d' = d) ∧
      ((∀ d : Sum, ¬ d.Spells (tokens.map Token.lexeme)) →
        ∃ error, Expr.ofTokens? (tokens ++ [stop]) = some (.error error)) := by
  refine ⟨⟨?_, ?_⟩, ?_, ?_⟩
  · rintro ⟨e, he⟩
    obtain ⟨d, hd, -⟩ := Sum.exists_of_ofTokens? htokens hstop he
    exact ⟨d, hd⟩
  · rintro ⟨d, hd⟩
    obtain ⟨e, he, -⟩ := hd.ofTokens? htokens hstop
    exact ⟨e, he⟩
  · intro e he d hd
    obtain ⟨e', he', htree⟩ := hd.ofTokens? htokens hstop
    obtain rfl : e' = e := Except.ok.inj (Option.some.inj (he'.symm.trans he))
    exact ⟨htree, fun d' hd' => Sum.eq_of_spells hd' hd⟩
  · intro hnone
    rw [Expr.ofTokens?_append_finish htokens hstop]
    cases hanswer : ParseState.initial.read tokens >>= fun last => last.finish stop with
    | error error => exact ⟨error, rfl⟩
    | ok e =>
      have haccepted := Expr.ofTokens?_append_finish htokens hstop
      rw [hanswer] at haccepted
      obtain ⟨d, hd, -⟩ := Sum.exists_of_ofTokens? htokens hstop haccepted
      exact absurd hd (hnone d)

/-- The tokens of `x^-*y`, where the exponent takes the minus sign and is still empty. -/
def loneMinusTokens : List Token :=
  [⟨.name "x", ⟨0, 1⟩⟩, ⟨.caret, ⟨1, 2⟩⟩, ⟨.operator .subtract, ⟨2, 3⟩⟩,
    ⟨.operator .multiply, ⟨3, 4⟩⟩, ⟨.name "y", ⟨4, 5⟩⟩]

/-- The grammar decides the case of the lone minus sign: the one derivation is a product. -/
theorem spells_loneMinusTokens :
    ((∀ t ∈ loneMinusTokens, t.lexeme ≠ .finish) ∧ (Token.mk .finish ⟨5, 5⟩).lexeme = .finish) ∧
      ∃ d : Sum, d.Spells (loneMinusTokens.map Token.lexeme) ∧
        d.tree = .binary .multiply (.power (.var "x" .one none) .two none) (.var "y" .one none)
          none ∧
        ∀ d' : Sum, d'.Spells (loneMinusTokens.map Token.lexeme) → d' = d := by
  have htokens : ∀ t ∈ loneMinusTokens, t.lexeme ≠ .finish := by decide
  obtain ⟨hiff, hunique, -⟩ := Expr.ofTokens?_decides_grammar loneMinusTokens
    ⟨.finish, ⟨5, 5⟩⟩ htokens rfl
  obtain ⟨d, hd⟩ := hiff.mp ⟨_, rfl⟩
  obtain ⟨htree, hd'⟩ := hunique _ rfl d hd
  exact ⟨⟨htokens, rfl⟩, d, hd, htree.symm, hd'⟩

end SchoolAlgebra
