import Mathlib
import SchoolAlgebra.Proofs.Expr.SimplifyStable
import SchoolAlgebra.Proofs.ForMathlib.Except
import SchoolAlgebra.Proofs.Grammar.Parsing
import SchoolAlgebra.Proofs.Token.Words

/-!
# Expressions that come from a source

An expression that was read from a source has no coefficients but one, and its variables have names
that scanning finds. Simplifying keeps both. Reading itself is brought to the form in which printing
uses it: the lexemes of a source on one side, a derivation on the other.

## Why these two facts

The printer writes a coefficient in front of its variable, and a name as it is. An expression in
general could have any coefficient and any text for a name, and what is printed for it would say
nothing of it. Expressions of a source have neither, and simplifying brings in no variables, so for
all expressions that are ever printed the text can be scanned again.

## Main definitions

* `Expr.Lexical` — what sets the expressions of a source apart

## Main results

* `Phrase.Sum.exists_parse` — a source whose lexemes have a derivation is read
* `Expr.exists_spells_of_parse` — a source that is read has a derivation
* `Expr.lexical_of_parse`, `Expr.Lexical.simplify` — expressions of a source are lexical
-/

namespace SchoolAlgebra

open Phrase

/-! ### Reading a source -/

theorem Expr.parse_eq_ok_iff {source : String} {e : Expr} :
    Expr.parse source = .ok e ↔ Expr.ofTokens? (Token.scan source) = some (.ok e) := by
  rw [Expr.parse, Option.eq_some_iff_get_eq]
  exact ⟨fun h => ⟨Expr.isSome_ofTokens?_scan source, h⟩, fun ⟨_, h⟩ => h⟩

theorem Expr.parse?_eq_some_iff {source : String} {e : Expr} :
    Expr.parse? source = some e ↔ Expr.parse source = .ok e := by
  rw [Expr.parse?]
  cases Expr.parse source with
  | error error => exact ⟨nofun, nofun⟩
  | ok e' => exact ⟨fun h => congrArg _ (Option.some.inj h), fun h => congrArg _ (Except.ok.inj h)⟩

/-- The tokens of a source before its end. -/
theorem Token.exists_scan_eq_append (source : String) :
    ∃ (tokens : List Token) (stop : Token), Token.scan source = tokens ++ [stop] ∧
      (∀ t ∈ tokens, t.lexeme ≠ .finish) ∧ stop.lexeme = .finish ∧
      Lexeme.scan source.toList = tokens.map Token.lexeme ++ [.finish] := by
  obtain ⟨tokens, heq, htokens⟩ := Token.scan_eq_append_finish source
  refine ⟨tokens, _, heq, htokens, rfl, ?_⟩
  rw [Lexeme.scan, ← Token.scan, heq, List.map_append]
  rfl

/-- A source whose lexemes have a derivation is read as the expression of the derivation. -/
theorem Phrase.Sum.exists_parse {s : Phrase.Sum} {source : String}
    (hscan : Lexeme.scan source.toList = s.lexemes ++ [.finish]) (hmax : s.Maximal .finish) :
    ∃ e, Expr.parse source = .ok e ∧ e.bare = s.tree := by
  obtain ⟨tokens, stop, htokens, hfinish, hstop, hlexemes⟩ := Token.exists_scan_eq_append source
  have hspells : s.Spells (tokens.map Token.lexeme) :=
    ⟨List.append_cancel_right (hscan.symm.trans hlexemes), hmax⟩
  obtain ⟨e, he, htree⟩ := hspells.ofTokens? hfinish hstop
  exact ⟨e, Expr.parse_eq_ok_iff.mpr (htokens ▸ he), htree⟩

/-- A source that is read as an expression has a derivation of it. -/
theorem Expr.exists_spells_of_parse {source : String} {e : Expr} (h : Expr.parse source = .ok e) :
    ∃ s : Phrase.Sum, Lexeme.scan source.toList = s.lexemes ++ [.finish] ∧ s.tree = e.bare := by
  obtain ⟨tokens, stop, htokens, hfinish, hstop, hlexemes⟩ := Token.exists_scan_eq_append source
  rw [Expr.parse_eq_ok_iff, htokens] at h
  obtain ⟨s, hspells, htree⟩ := Sum.exists_of_ofTokens? hfinish hstop h
  exact ⟨s, by rw [hlexemes, hspells.1], htree⟩

/-- Reading a source gets no further than its lexemes. -/
theorem Expr.exists_read_of_parse {source : String} {e : Expr} (h : Expr.parse source = .ok e) :
    ∃ (tokens : List Token) (last : ParseState),
      Lexeme.scan source.toList = tokens.map Token.lexeme ++ [.finish] ∧
        ParseState.initial.read tokens = .ok last := by
  obtain ⟨tokens, stop, htokens, hfinish, hstop, hlexemes⟩ := Token.exists_scan_eq_append source
  rw [Expr.parse_eq_ok_iff, htokens, Expr.ofTokens?_append_finish hfinish hstop] at h
  obtain ⟨last, hread, -⟩ := exists_of_bind_eq_ok (Option.some.inj h)
  exact ⟨tokens, last, hlexemes, hread⟩

/-! ### Lexical expressions -/

namespace Expr

/-- Every coefficient is one and every name is one that scanning finds. -/
def Lexical : Expr → Prop
  | .num _ _ => True
  | .var name coefficient _ => IsName name.toList ∧ coefficient = .one
  | .binary _ left right _ => left.Lexical ∧ right.Lexical
  | .neg e _ => e.Lexical
  | .power base _ _ => base.Lexical

theorem lexical_bare (e : Expr) : e.bare.Lexical ↔ e.Lexical := by
  induction e with
  | num value s => exact Iff.rfl
  | var name coefficient s => exact Iff.rfl
  | binary op left right s ihl ihr => exact and_congr ihl ihr
  | neg e s ih => exact ih
  | power base exponent s ih => exact ih

end Expr

/-- The lexemes hold only names that scanning finds. -/
def NamesIn (ls : List Lexeme) : Prop := ∀ name, Lexeme.name name ∈ ls → IsName name.toList

theorem NamesIn.left {a b : List Lexeme} (h : NamesIn (a ++ b)) : NamesIn a :=
  fun name hname => h name (List.mem_append_left _ hname)

theorem NamesIn.right {a b : List Lexeme} (h : NamesIn (a ++ b)) : NamesIn b :=
  fun name hname => h name (List.mem_append_right _ hname)

theorem NamesIn.tail {l : Lexeme} {ls : List Lexeme} (h : NamesIn (l :: ls)) : NamesIn ls :=
  fun name hname => h name (List.mem_cons_of_mem _ hname)

namespace Phrase

mutual

theorem Sum.lexical_tree : ∀ {s : Sum}, NamesIn s.lexemes → s.tree.Lexical
  | .mk _ _, h => SumRest.lexical_treeAfter h.right (Term.lexical_tree h.left)

theorem SumRest.lexical_treeAfter : ∀ {r : SumRest} {left : Expr}, NamesIn r.lexemes →
    left.Lexical → (r.treeAfter left).Lexical
  | .done, _, _, hleft => hleft
  | .more op _ term rest, left, h, hleft =>
    have hnext : (Expr.binary op left term.tree none).Lexical :=
      ⟨hleft, Term.lexical_tree h.tail.left⟩
    SumRest.lexical_treeAfter (r := rest) h.tail.right hnext

theorem Term.lexical_tree : ∀ {t : Term}, NamesIn t.lexemes → t.tree.Lexical
  | .mk _ _, h => TermRest.lexical_treeAfter h.right (Factor.lexical_tree h.left)

theorem TermRest.lexical_treeAfter : ∀ {r : TermRest} {left : Expr}, NamesIn r.lexemes →
    left.Lexical → (r.treeAfter left).Lexical
  | .done, _, _, hleft => hleft
  | .more op _ factor rest, left, h, hleft =>
    have hnext : (Expr.binary op left factor.tree none).Lexical :=
      ⟨hleft, Factor.lexical_tree h.tail.left⟩
    TermRest.lexical_treeAfter (r := rest) h.tail.right hnext

theorem Factor.lexical_tree : ∀ {f : Factor}, NamesIn f.lexemes → f.tree.Lexical
  | .minus f, h => Factor.lexical_tree (f := f) h.tail
  | .power p, h => Power.lexical_tree (p := p) h

theorem Power.lexical_tree : ∀ {p : Power}, NamesIn p.lexemes → p.tree.Lexical
  | .plain a, h => Atom.lexical_tree (a := a) h
  | .raised base _, h => Atom.lexical_tree (a := base) h.left

theorem Atom.lexical_tree : ∀ {a : Atom}, NamesIn a.lexemes → a.tree.Lexical
  | .number .., _ => trivial
  | .name text, h => ⟨h text List.mem_cons_self, rfl⟩
  | .group s, h => Sum.lexical_tree (s := s) h.tail.left

end

end Phrase

namespace Expr

/-- An expression that was read from a source is lexical. -/
theorem lexical_of_parse {source : String} {e : Expr} (h : parse source = .ok e) : e.Lexical := by
  obtain ⟨s, hscan, htree⟩ := exists_spells_of_parse h
  rw [← lexical_bare, ← htree]
  refine Sum.lexical_tree fun name hname => ?_
  have hmem : Lexeme.name name ∈ Lexeme.scan source.toList := by
    rw [hscan]
    exact List.mem_append_left _ hname
  obtain ⟨t, ht, hlexeme⟩ := List.mem_map.mp hmem
  exact Token.isName_of_mem_scanFrom _ _ ht hlexeme

/-! ### Simplified expressions -/

variable {e left right base : Expr} {s : Option Span}

theorem Lexical.negate (h : e.Lexical) : (negate e s).Lexical := by
  obtain ⟨v, hv⟩ | hneg := negate_eq e s
  · rw [hv]
    trivial
  · rw [hneg]
    exact h

theorem Lexical.raise {exponent : Binary64} (h : base.Lexical) :
    (raise base exponent s).Lexical := by
  obtain ⟨v, hv⟩ | hpower := raise_eq base exponent s
  · rw [hv]
    trivial
  · rw [hpower]
    exact h

theorem Lexical.combine {op : Operator} (hleft : left.Lexical) (hright : right.Lexical) :
    (combine op left right s).Lexical := by
  obtain hl | hr | ⟨v, hv⟩ | hbinary := combine_eq op left right s
  · rwa [hl]
  · rwa [hr]
  · rw [hv]
    trivial
  · rw [hbinary]
    exact ⟨hleft, hright⟩

theorem Lexical.simplify (h : e.Lexical) : e.simplify.Lexical := by
  induction e with
  | num value s => exact h
  | var name coefficient s => exact h
  | neg e s ih =>
    rw [simplify_neg]
    exact (ih h).negate
  | power base exponent s ih =>
    rw [simplify_power]
    exact (ih h).raise
  | binary op left right s ihl ihr =>
    rw [simplify_binary]
    exact Lexical.combine (ihl h.1) (ihr h.2)

end Expr

end SchoolAlgebra
