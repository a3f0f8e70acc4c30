import SchoolAlgebra.Proofs.Expr.Lexical
import SchoolAlgebra.Proofs.Grammar.Segment
import SchoolAlgebra.Proofs.Token.Excerpt

/-!
# The excerpt of a node

The span of a node cuts the text of the node out of the source: read by itself, the excerpt gives
the node, moved to the start of the source. Only exponents that are not written out spoil that, see
`SchoolAlgebra.Proofs.Grammar.Segment`.

Two things meet here. The node has a segment of the tokens, which does not care about the tokens
around it, and the excerpt from the first token of the segment to the last is scanned into the
segment, which does not care about the text around it.

## Places

The excerpt begins at the beginning of a source, and so what is read from it has its spans further
to the left. The theorems say by how much: moved back to where the excerpt was cut out, it is the
node, with all of its spans.

## Main results

* `Derives.HasSegment.exists_parse` — a node with a segment is what its excerpt reads as
* `Expr.exists_parse_excerpt_num` — a number is that
* `Expr.exists_parse_excerpt` — where every exponent is written out, each node is that
-/

namespace SchoolAlgebra

open Phrase

variable {source : String} {e : Expr}

/-- A source is read as an expression exactly if its tokens have a derivation of it. -/
theorem Expr.parse_eq_ok_iff_derives {tokens : List Token} {stop : Token}
    (hscan : Token.scan source = tokens ++ [stop]) (hstop : stop.lexeme = .finish) :
    Expr.parse source = .ok e ↔ Derives .sum .finish tokens e := by
  obtain ⟨tokens', stop', hscan', htokens, -, -⟩ := Token.exists_scan_eq_append source
  obtain ⟨rfl, -⟩ := List.append_inj' (hscan.symm.trans hscan') rfl
  rw [Expr.parse_eq_ok_iff, hscan, Expr.ofTokens?_eq_ok_iff_derives htokens hstop]

/-- The segment of a node, moved somewhere else, reads as the node moved there. -/
theorem Derives.exists_of_map_shift_eq {us ts : List Token} {k : Nat}
    (h : Derives .sum .finish ts e) (hfinish : ∀ t ∈ ts, t.lexeme ≠ .finish)
    (hus : us.map (Token.shift k) = ts) :
    ∃ m, Derives .sum .finish us m ∧ m.shift k = e := by
  have hlexemes : us.map Token.lexeme = ts.map Token.lexeme := by
    rw [← hus, List.map_map]
    rfl
  obtain ⟨d, hd, -⟩ := h.exists_spells hfinish
  obtain ⟨m, hm, -⟩ := Sum.exists_derives (s := d) hd.2 endsSum_finish (hlexemes.trans hd.1.symm)
  exact ⟨m, hm, Derives.unique hfinish (hus ▸ hm.shift k) h⟩

theorem Stretch.isImplicitMultiply_first {ts : List Token} {first last : Token}
    (h : Stretch ts first last) : first.isImplicitMultiply = false := by
  simp [Token.isImplicitMultiply, h.first_ne]

theorem Stretch.isImplicitMultiply_last {ts : List Token} {first last : Token}
    (h : Stretch ts first last) : last.isImplicitMultiply = false := by
  simp [Token.isImplicitMultiply, h.last_ne]

/-- A node with a segment is what its excerpt reads as. -/
theorem Derives.HasSegment.exists_parse {tokens : List Token} {stop : Token} {n : Expr}
    (h : HasSegment tokens n) (hscan : Token.scan source = tokens ++ [stop])
    (htokens : ∀ t ∈ tokens, t.lexeme ≠ .finish) :
    ∃ (a : Span) (m : Expr), n.span = some a ∧ Expr.parse (a.excerpt source) = .ok m ∧
      m.shift a.start = n := by
  obtain ⟨before, seg, behind, first, last, rfl, hseg, hstretch, hspan⟩ := h
  have hfinish : ∀ t ∈ seg, t.lexeme ≠ .finish := fun t ht => htokens t (by simp [ht])
  rw [List.append_assoc] at hscan
  obtain ⟨us, stop', hexcerpt, hstop', hus⟩ :=
    Token.exists_scan_excerpt hscan hstretch.head_eq hstretch.last_eq
      hstretch.isImplicitMultiply_first hstretch.isImplicitMultiply_last hstretch.last_ne_finish
  obtain ⟨m, hm, hshift⟩ := hseg.exists_of_map_shift_eq hfinish hus
  exact ⟨_, m, hspan, (Expr.parse_eq_ok_iff_derives hexcerpt hstop').mpr hm, hshift⟩

/-- **A number is what its excerpt reads as**, whether or not the exponents around it are written
out. -/
theorem Expr.exists_parse_excerpt_num {v : Binary64} {s : Option Span}
    (hparse : Expr.parse source = .ok e) (hn : .num v s ∈ e.nodes) :
    ∃ (a : Span) (s' : Option Span), s = some a ∧
      Expr.parse (a.excerpt source) = .ok (.num v s') := by
  obtain ⟨tokens, stop, hscan, htokens, hstop, -⟩ := Token.exists_scan_eq_append source
  have hderives := (Expr.parse_eq_ok_iff_derives hscan hstop).mp hparse
  obtain ⟨a, m, hspan, hm, hshift⟩ :=
    (hderives.hasSegment_of_tail_nodes_eq_nil _ hn rfl).exists_parse hscan htokens
  cases m with
  | num w s' =>
    obtain ⟨rfl, -⟩ := Expr.num.inj hshift
    exact ⟨a, s', hspan, hm⟩
  | var | binary | neg | power => cases hshift

/-- **Every node is what its excerpt reads as.** In a source that is accepted and in which every
caret has a numeral, or a minus sign and a numeral, behind it, each node has a span, and the text at
that span is accepted as the node, as far to the left as the span begins. -/
theorem Expr.exists_parse_excerpt (source : String) (e : Expr) (hparse : Expr.parse source = .ok e)
    (hwritten : Lexeme.exponentsWritten ((Token.scan source).map Token.lexeme) = true) :
    ∀ n ∈ e.nodes, ∃ (a : Span) (m : Expr), n.span = some a ∧
      Expr.parse (a.excerpt source) = .ok m ∧ m.shift a.start = n := by
  intro n hn
  obtain ⟨tokens, stop, hscan, htokens, hstop, -⟩ := Token.exists_scan_eq_append source
  have hderives := (Expr.parse_eq_ok_iff_derives hscan hstop).mp hparse
  have hw : Lexeme.exponentsWritten (tokens.map Token.lexeme ++ .finish :: []) = true := by
    rw [hscan, List.map_append, List.map_singleton, hstop] at hwritten
    exact hwritten
  exact (hderives.hasSegment_of_mem_nodes hw n hn).exists_parse hscan htokens

/-- The power in `y-(2x)^-2`. Its base has the parentheses in its span. -/
def Expr.signedPower : Expr :=
  .power (.binary .multiply (.num .two (some ⟨3, 4⟩)) (.var "x" .one (some ⟨4, 5⟩))
    (some ⟨2, 6⟩)) Binary64.two.neg (some ⟨2, 9⟩)

/-- The excerpt of the power in `y-(2x)^-2` is `(2x)^-2`. -/
theorem Expr.exists_parse_excerpt_signedPower :
    (Expr.parse "y-(2x)^-2" = .ok (.join .subtract (.var "y" .one (some ⟨0, 1⟩)) signedPower) ∧
      Lexeme.exponentsWritten ((Token.scan "y-(2x)^-2").map Token.lexeme) = true) ∧
    ∃ m, Expr.parse "(2x)^-2" = .ok m ∧ m.shift 2 = Expr.signedPower := by
  have hparse : Expr.parse "y-(2x)^-2" =
      .ok (.join .subtract (.var "y" .one (some ⟨0, 1⟩)) signedPower) := by decide +kernel
  have hwritten : Lexeme.exponentsWritten ((Token.scan "y-(2x)^-2").map Token.lexeme) = true := by
    decide +kernel
  refine ⟨⟨hparse, hwritten⟩, ?_⟩
  obtain ⟨a, m, hspan, hm, hshift⟩ :=
    Expr.exists_parse_excerpt _ _ hparse hwritten Expr.signedPower (by decide +kernel)
  obtain rfl : a = ⟨2, 9⟩ := (Option.some.inj hspan).symm
  exact ⟨m, hm, hshift⟩

end SchoolAlgebra
