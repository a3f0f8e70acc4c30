import SchoolAlgebra.Proofs.Grammar.Reading

/-!
# Derivations of expressions with their spans

A phrase says what tokens spell, but not where. `Derives` is the grammar once more, as a relation
between tokens and the expression that is read from them, spans included: an operation spans its
operands, a sign and an exponent are part of the span, and parentheses widen the span of what they
enclose. As with phrases, a derivation is relative to the lexeme `next` that follows, because an
exponent may be empty and has to be the longest one there.

The relation is what the parser computes. From a state that awaits an operand, the tokens of a
derivation take it to a state that holds the expression, with everything to the left of it as it
was. What is held is not one field of the state: a factor is an operand in hand and the signs before
it, a term also has the factors before those, and `Pending` joins them.

## One relation for all levels

The levels of the grammar are an index of the relation and not five relations. So an induction over
a derivation has one motive, and what holds of expressions of every level, such as that their spans
are nested, is stated once. Only the lemma on reading needs to tell the levels apart: `Level.Reads`
says for each of them what the state of the parser is before and after.

## Main definitions

* `Derives` — tokens from which an expression is read at a level of the grammar

## Main results

* `Derives.read` — what has a derivation is read as its expression
* `Phrase.Sum.exists_derives` — every phrase has a derivation with spans
* `Expr.ofTokens?_eq_ok_iff_derives` — exactly the derivations are accepted
-/

namespace SchoolAlgebra

open Phrase

/-- The levels of the grammar, from the loosest to the tightest. -/
inductive Level where
  | sum
  | term
  | factor
  | power
  | atom

/-- The span of a base with an exponent: up to the numeral, or that of the base without one. -/
def Phrase.Exponent.span (x : Exponent) (base : Expr) (ts : List Token) : Option Span :=
  if x.numeral?.isSome then ts.getLast?.map fun t => ⟨base.start, t.span.stop⟩ else base.span

/-- In front of the lexeme `next`, an expression with its spans is read from these tokens at this
level of the grammar. -/
inductive Derives : Level → (next : Lexeme) → List Token → Expr → Prop where
  /-- A numeral is a number. -/
  | number {next : Lexeme} {t : Token} {text : String} {value : Binary64}
      (ht : t.lexeme = .number text value) : Derives .atom next [t] (.num value (some t.span))
  /-- A name is a variable. -/
  | name {next : Lexeme} {t : Token} {text : String} (ht : t.lexeme = .name text) :
      Derives .atom next [t] (.var text .one (some t.span))
  /-- Parentheses widen the span of a sum. -/
  | group {next : Lexeme} {opening closing : Token} {ts : List Token} {e : Expr}
      (hopening : opening.lexeme = .leftParen) (hclosing : closing.lexeme = .rightParen)
      (h : Derives .sum .rightParen ts e) :
      Derives .atom next (opening :: (ts ++ [closing]))
        (e.withSpan (some ⟨opening.span.start, closing.span.stop⟩))
  /-- An atom without a caret is a power. -/
  | plain {next : Lexeme} {ts : List Token} {e : Expr} (hnext : EndsFactor next)
      (h : Derives .atom next ts e) : Derives .power next ts e
  /-- An atom with an exponent is a power. -/
  | raised {next : Lexeme} {caret : Token} {ts us : List Token} {base : Expr} {x : Exponent}
      (hbase : Derives .atom .caret ts base) (hcaret : caret.lexeme = .caret)
      (hus : us.map Token.lexeme = x.lexemes) (hmax : x.Maximal next) :
      Derives .power next (ts ++ caret :: us) (.power base x.value (x.span base us))
  /-- A power is a factor. -/
  | power {next : Lexeme} {ts : List Token} {e : Expr} (h : Derives .power next ts e) :
      Derives .factor next ts e
  /-- A minus sign and a factor are a factor. -/
  | minus {next : Lexeme} {sign : Token} {ts : List Token} {e : Expr}
      (hsign : sign.lexeme = .operator .subtract) (h : Derives .factor next ts e) :
      Derives .factor next (sign :: ts) (.neg e (some ⟨sign.span.start, e.stop⟩))
  /-- A factor is a term. -/
  | factor {next : Lexeme} {ts : List Token} {e : Expr} (h : Derives .factor next ts e) :
      Derives .term next ts e
  /-- A term, a multiplicative operator and a factor are a term. -/
  | product {next : Lexeme} {sign : Token} {op : Operator} {ts us : List Token} {left right : Expr}
      (hop : op.isMultiplicative = true) (hleft : Derives .term (.operator op) ts left)
      (hsign : sign.lexeme = .operator op) (hright : Derives .factor next us right) :
      Derives .term next (ts ++ sign :: us) (.join op left right)
  /-- A term is a sum. -/
  | term {next : Lexeme} {ts : List Token} {e : Expr} (h : Derives .term next ts e) :
      Derives .sum next ts e
  /-- A sum, an additive operator and a term are a sum. -/
  | addition {next : Lexeme} {sign : Token} {op : Operator} {ts us : List Token}
      {left right : Expr} (hop : op.isAdditive = true)
      (hleft : Derives .sum (.operator op) ts left) (hsign : sign.lexeme = .operator op)
      (hright : Derives .term next us right) :
      Derives .sum next (ts ++ sign :: us) (.join op left right)

/-! ### The parser reads derivations

What stands to the left of an expression when it begins is still there when it ends. What has come
on top of that, signs and the first operands of a chain, is joined to the operand in hand as soon as
the expression is completed. -/

open ParseState in
/-- A caret and an exponent make a power of the atom in hand. -/
theorem Phrase.Exponent.read {x : Exponent} {next : Lexeme} (hmax : x.Maximal next) {caret : Token}
    {ts : List Token} (hcaret : caret.lexeme = .caret) (hts : ts.map Token.lexeme = x.lexemes)
    (base : Expr) (p : Pending) (g : List (Nat × Pending)) :
    ∃ slot, ParseState.read ⟨.atom base, p, g⟩ (caret :: ts) = .ok ⟨slot, p, g⟩ ∧
      Holds ⟨slot, p, g⟩ (.power base x.value (x.span base ts)) next := by
  have hcaretStep : step ⟨.atom base, p, g⟩ caret = .ok ⟨.caret base, p, g⟩ := by
    rw [step, hcaret]
  rw [read_cons, hcaretStep]
  obtain ⟨minus, _ | ⟨text, value⟩⟩ := x
  · -- without a numeral the operand is a square, which `next` must not go on with
    have hnumber (text : String) (value : Binary64) : next ≠ .number text value := by
      rintro rfl
      cases hmax.numeral?_isSome
    cases minus with
    | false =>
      obtain rfl := List.map_eq_nil_iff.mp hts
      refine ⟨.caret base, rfl, rfl, ?_⟩
      have hminus : next ≠ .operator .subtract := by
        rintro rfl
        rcases hmax.minus_or_isSome with h | h <;> cases h
      simp only [Slot.continuesWith]
      split <;> simp_all
    | true =>
      obtain ⟨minus, rfl, hminus⟩ := List.map_eq_singleton_iff.mp hts
      refine ⟨.signedCaret base, ?_, rfl, ?_⟩
      · change ParseState.read ⟨.caret base, p, g⟩ [minus] = _
        rw [read_cons, step, hminus]
        rfl
      · simp only [Slot.continuesWith]
        split <;> simp_all
  · cases minus with
    | false =>
      obtain ⟨numeral, rfl, hnumeral⟩ := List.map_eq_singleton_iff.mp hts
      refine ⟨.power (raised base value numeral), ?_, rfl, rfl⟩
      change ParseState.read ⟨.caret base, p, g⟩ [numeral] = _
      rw [read_cons, step, hnumeral]
      rfl
    | true =>
      obtain ⟨minus, ts, rfl, hminus, hts⟩ := List.map_eq_cons_iff.mp hts
      obtain ⟨numeral, rfl, hnumeral⟩ := List.map_eq_singleton_iff.mp hts
      refine ⟨.power (raised base value.neg numeral), ?_, rfl, rfl⟩
      have hminusStep : step ⟨.caret base, p, g⟩ minus = .ok ⟨.signedCaret base, p, g⟩ := by
        rw [step, hminus]
      change ParseState.read ⟨.caret base, p, g⟩ [minus, numeral] = _
      rw [read_cons, hminusStep]
      change ParseState.read ⟨.signedCaret base, p, g⟩ [numeral] = _
      rw [read_cons, step, hnumeral]
      rfl

/-- How tokens are read as an expression at a level of the grammar: `p` is what stands to the left
when the expression begins, `p'` what does when it ends. -/
def Level.Reads (next : Lexeme) (ts : List Token) (e : Expr) : Level → Prop
  | .atom => ∀ p g, ParseState.read ⟨.vacant, p, g⟩ ts = .ok ⟨.atom e, p, g⟩
  | .power => ∀ p g, ∃ slot, ParseState.read ⟨.vacant, p, g⟩ ts = .ok ⟨slot, p, g⟩ ∧
      ParseState.Holds ⟨slot, p, g⟩ e next
  | .factor => ∀ p g, ∃ slot p' e', ParseState.read ⟨.vacant, p, g⟩ ts = .ok ⟨slot, p', g⟩ ∧
      ParseState.Holds ⟨slot, p', g⟩ e' next ∧ p'.sum = p.sum ∧ p'.term = p.term ∧
        p'.factor e' = p.factor e
  | .term => ∀ left g, ∃ slot p' e',
      ParseState.read ⟨.vacant, ⟨left, .none, []⟩, g⟩ ts = .ok ⟨slot, p', g⟩ ∧
        ParseState.Holds ⟨slot, p', g⟩ e' next ∧ p'.sum = left ∧ p'.completeTerm e' = e
  | .sum => ∀ g, ∃ slot p' e', ParseState.read ⟨.vacant, .none, g⟩ ts = .ok ⟨slot, p', g⟩ ∧
      ParseState.Holds ⟨slot, p', g⟩ e' next ∧ p'.completeSum e' = e

open ParseState in
/-- **What has a derivation is read as its expression.** -/
theorem Derives.read {level : Level} {next : Lexeme} {ts : List Token} {e : Expr}
    (h : Derives level next ts e) : level.Reads next ts e := by
  induction h with
  | number ht =>
    intro p g
    rw [read_cons, step_vacant, beginOperand, ht]
    rfl
  | name ht =>
    intro p g
    rw [read_cons, step_vacant, beginOperand, ht]
    rfl
  | @group _ opening closing ts e hopening hclosing _ ih =>
    intro p g
    obtain ⟨slot, p', e', hread, hholds, htree⟩ := ih ((opening.span.start, p) :: g)
    have hbegin : step ⟨.vacant, p, g⟩ opening =
        .ok ⟨.vacant, .none, (opening.span.start, p) :: g⟩ := by
      rw [step_vacant, beginOperand, hopening]
    rw [read_cons, hbegin]
    change ParseState.read _ (ts ++ [closing]) = _
    rw [read_append_of_ok hread, read_cons, Holds.step (hclosing ▸ hholds), afterOperand,
      hclosing, ← htree]
    rfl
  | plain hnext _ ih =>
    intro p g
    exact ⟨.atom _, ih p g, rfl, Slot.continuesWith_atom hnext⟩
  | raised _ hcaret hus hmax ih =>
    intro p g
    rw [read_append_of_ok (ih p g)]
    exact Exponent.read hmax hcaret hus _ p g
  | power _ ih =>
    intro p g
    obtain ⟨slot, hread, hholds⟩ := ih p g
    exact ⟨slot, p, _, hread, hholds, rfl, rfl, rfl⟩
  | @minus _ sign _ e hsign _ ih =>
    intro p g
    obtain ⟨slot, p', e', hread, hholds, hsum, hterm, hfactor⟩ :=
      ih (p.afterSign sign.span.start) g
    have hstep : step ⟨.vacant, p, g⟩ sign = .ok ⟨.vacant, p.afterSign sign.span.start, g⟩ := by
      rw [step_vacant, beginOperand, hsign]
    refine ⟨slot, p', e', ?_, hholds, hsum, hterm, ?_⟩
    · rw [read_cons, hstep]
      exact hread
    · rw [hfactor, Pending.factor_afterSign]
  | factor _ ih =>
    intro left g
    obtain ⟨slot, p', e', hread, hholds, hsum, hterm, hfactor⟩ := ih ⟨left, .none, []⟩ g
    refine ⟨slot, p', e', hread, hholds, hsum, ?_⟩
    rw [Pending.completeTerm_of_none hterm, hfactor]
    rfl
  | @product _ sign op ts us l r hop _ hsign _ ihl ihr =>
    intro left g
    obtain ⟨slot, p', e', hread, hholds, hsum, htree⟩ := ihl left g
    obtain ⟨slot₂, p₂, e₂, hread₂, hholds₂, hsum₂, hterm₂, hfactor₂⟩ :=
      ihr (p'.afterOperator e' op) g
    rw [Pending.afterOperator_of_isMultiplicative hop] at hsum₂ hterm₂
    refine ⟨slot₂, p₂, e₂, ?_, hholds₂, hsum₂.trans hsum, ?_⟩
    · rw [read_append_of_ok hread, read_cons, hholds.step_operator hsign]
      exact hread₂
    · rw [Pending.completeTerm_of_some hterm₂, htree, hfactor₂,
        Pending.afterOperator_of_isMultiplicative hop]
      rfl
  | term _ ih =>
    intro g
    obtain ⟨slot, p', e', hread, hholds, hsum, htree⟩ := ih .none g
    exact ⟨slot, p', e', hread, hholds, by rw [Pending.completeSum_of_none hsum, htree]⟩
  | @addition _ sign op ts us l r hop _ hsign _ ihl ihr =>
    intro g
    obtain ⟨slot, p', e', hread, hholds, htree⟩ := ihl g
    obtain ⟨slot₂, p₂, e₂, hread₂, hholds₂, hsum₂, htree₂⟩ := ihr (some (l, op)) g
    refine ⟨slot₂, p₂, e₂, ?_, hholds₂, ?_⟩
    · rw [read_append_of_ok hread, read_cons, hholds.step_operator hsign,
        Pending.afterOperator_of_isAdditive hop, htree]
      exact hread₂
    · rw [Pending.completeSum_of_some hsum₂, htree₂]

/-- What has a derivation as a sum is accepted. -/
theorem Derives.ofTokens? {tokens : List Token} {stop : Token} {e : Expr}
    (h : Derives .sum .finish tokens e) (htokens : ∀ t ∈ tokens, t.lexeme ≠ .finish)
    (hstop : stop.lexeme = .finish) : Expr.ofTokens? (tokens ++ [stop]) = some (.ok e) := by
  obtain ⟨slot, p, e', hread, hholds, htree⟩ := h.read []
  have hfinish : ParseState.finish ⟨slot, p, []⟩ stop = .ok e := by
    rw [ParseState.finish, hholds.operand?, ← htree]
    rfl
  rw [Expr.ofTokens?, ParseState.run?_append_finish _ htokens hstop, ParseState.initial, hread]
  exact congrArg some hfinish

/-! ### Every phrase has a derivation

A phrase is a derivation of lexemes, so its tokens only have to be cut where its parts end. The
spans of the expression then follow from those of the tokens. -/

namespace Phrase

mutual

theorem Atom.exists_derives : ∀ {a : Atom}, a.Maximal → ∀ {ts : List Token},
    ts.map Token.lexeme = a.lexemes → ∀ next, ∃ e, Derives .atom next ts e ∧ e.bare = a.tree
  | .number text value, _, ts, hts, next => by
    obtain ⟨t, rfl, ht⟩ := List.map_eq_singleton_iff.mp hts
    exact ⟨_, .number ht, rfl⟩
  | .name text, _, ts, hts, next => by
    obtain ⟨t, rfl, ht⟩ := List.map_eq_singleton_iff.mp hts
    exact ⟨_, .name ht, rfl⟩
  | .group s, hmax, ts, hts, next => by
    obtain ⟨opening, us, rfl, hopening, hus⟩ := List.map_eq_cons_iff.mp hts
    obtain ⟨inner, closings, rfl, hinner, hclosings⟩ := List.map_eq_append_iff.mp hus
    obtain ⟨closing, rfl, hclosing⟩ := List.map_eq_singleton_iff.mp hclosings
    obtain ⟨e, he, htree⟩ := Sum.exists_derives (s := s) hmax endsSum_rightParen hinner
    exact ⟨_, .group hopening hclosing he, by rw [Expr.bare_withSpan, htree]; rfl⟩

theorem Power.exists_derives : ∀ {q : Power} {next : Lexeme}, q.Maximal next → EndsFactor next →
    ∀ {ts : List Token}, ts.map Token.lexeme = q.lexemes →
      ∃ e, Derives .power next ts e ∧ e.bare = q.tree
  | .plain a, next, hmax, hnext, ts, hts => by
    obtain ⟨e, he, htree⟩ := Atom.exists_derives (a := a) hmax hts next
    exact ⟨e, .plain hnext he, htree⟩
  | .raised a x, next, hmax, hnext, ts, hts => by
    obtain ⟨bs, xs, rfl, hbs, hxs⟩ := List.map_eq_append_iff.mp hts
    obtain ⟨caret, xs, rfl, hcaret, hxs⟩ := List.map_eq_cons_iff.mp hxs
    obtain ⟨base, hbase, htree⟩ := Atom.exists_derives (a := a) hmax.1 hbs .caret
    exact ⟨_, .raised hbase hcaret hxs hmax.2, by rw [Expr.bare, htree]; rfl⟩

theorem Factor.exists_derives : ∀ {f : Factor} {next : Lexeme}, f.Maximal next →
    EndsFactor next → ∀ {ts : List Token}, ts.map Token.lexeme = f.lexemes →
      ∃ e, Derives .factor next ts e ∧ e.bare = f.tree
  | .minus f, next, hmax, hnext, ts, hts => by
    obtain ⟨sign, ts, rfl, hsign, hts⟩ := List.map_eq_cons_iff.mp hts
    obtain ⟨e, he, htree⟩ := Factor.exists_derives (f := f) hmax hnext hts
    exact ⟨_, .minus hsign he, by rw [Expr.bare, htree]; rfl⟩
  | .power q, next, hmax, hnext, ts, hts => by
    obtain ⟨e, he, htree⟩ := Power.exists_derives (q := q) hmax hnext hts
    exact ⟨e, .power he, htree⟩

theorem TermRest.exists_derives : ∀ {r : TermRest} {next : Lexeme}, r.Maximal next →
    EndsTerm next → ∀ {us : List Token}, us.map Token.lexeme = r.lexemes →
      ∀ {ts : List Token} {left : Expr}, Derives .term (r.head next) ts left →
        ∃ e, Derives .term next (ts ++ us) e ∧ e.bare = r.treeAfter left.bare
  | .done, next, _, _, us, hus, ts, left, hleft => by
    obtain rfl := List.map_eq_nil_iff.mp hus
    exact ⟨left, by rwa [List.append_nil], rfl⟩
  | .more op hop f rest, next, hmax, hnext, us, hus, ts, left, hleft => by
    obtain ⟨sign, us, rfl, hsign, hus⟩ := List.map_eq_cons_iff.mp hus
    obtain ⟨fs, us, rfl, hfs, hus⟩ := List.map_eq_append_iff.mp hus
    obtain ⟨right, hright, hrtree⟩ :=
      Factor.exists_derives (f := f) hmax.1 (rest.endsFactor_head hnext) hfs
    obtain ⟨e, he, htree⟩ := TermRest.exists_derives (r := rest) hmax.2 hnext hus
      (.product hop hleft hsign hright)
    refine ⟨e, by simpa using he, ?_⟩
    rw [htree, Expr.bare_join, hrtree]
    rfl

theorem Term.exists_derives : ∀ {t : Term} {next : Lexeme}, t.Maximal next → EndsTerm next →
    ∀ {ts : List Token}, ts.map Token.lexeme = t.lexemes →
      ∃ e, Derives .term next ts e ∧ e.bare = t.tree
  | .mk first rest, next, hmax, hnext, ts, hts => by
    obtain ⟨fs, us, rfl, hfs, hus⟩ := List.map_eq_append_iff.mp hts
    obtain ⟨left, hleft, hltree⟩ :=
      Factor.exists_derives (f := first) hmax.1 (rest.endsFactor_head hnext) hfs
    obtain ⟨e, he, htree⟩ :=
      TermRest.exists_derives (r := rest) hmax.2 hnext hus (.factor hleft)
    exact ⟨e, he, by rw [htree, hltree]; rfl⟩

theorem SumRest.exists_derives : ∀ {r : SumRest} {next : Lexeme}, r.Maximal next →
    EndsSum next → ∀ {us : List Token}, us.map Token.lexeme = r.lexemes →
      ∀ {ts : List Token} {left : Expr}, Derives .sum (r.head next) ts left →
        ∃ e, Derives .sum next (ts ++ us) e ∧ e.bare = r.treeAfter left.bare
  | .done, next, _, _, us, hus, ts, left, hleft => by
    obtain rfl := List.map_eq_nil_iff.mp hus
    exact ⟨left, by rwa [List.append_nil], rfl⟩
  | .more op hop t rest, next, hmax, hnext, us, hus, ts, left, hleft => by
    obtain ⟨sign, us, rfl, hsign, hus⟩ := List.map_eq_cons_iff.mp hus
    obtain ⟨fs, us, rfl, hfs, hus⟩ := List.map_eq_append_iff.mp hus
    obtain ⟨right, hright, hrtree⟩ :=
      Term.exists_derives (t := t) hmax.1 (rest.endsTerm_head hnext) hfs
    obtain ⟨e, he, htree⟩ := SumRest.exists_derives (r := rest) hmax.2 hnext hus
      (.addition hop hleft hsign hright)
    refine ⟨e, by simpa using he, ?_⟩
    rw [htree, Expr.bare_join, hrtree]
    rfl

theorem Sum.exists_derives : ∀ {s : Sum} {next : Lexeme}, s.Maximal next → EndsSum next →
    ∀ {ts : List Token}, ts.map Token.lexeme = s.lexemes →
      ∃ e, Derives .sum next ts e ∧ e.bare = s.tree
  | .mk first rest, next, hmax, hnext, ts, hts => by
    obtain ⟨fs, us, rfl, hfs, hus⟩ := List.map_eq_append_iff.mp hts
    obtain ⟨left, hleft, hltree⟩ :=
      Term.exists_derives (t := first) hmax.1 (rest.endsTerm_head hnext) hfs
    obtain ⟨e, he, htree⟩ := SumRest.exists_derives (r := rest) hmax.2 hnext hus (.term hleft)
    exact ⟨e, he, by rw [htree, hltree]; rfl⟩

end

end Phrase

end SchoolAlgebra
