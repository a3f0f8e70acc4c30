import SchoolAlgebra.Proofs.Expr.Nodes
import SchoolAlgebra.Proofs.Grammar.Parsing

/-!
# The tokens of a node

Where every exponent is written out, each node of an expression has tokens of its own: a stretch of
the tokens of the whole, from which the parser reads the node and nothing else, and which the node
spans from the first token to the last.

Without a numeral behind a caret that fails. In `x ^ - y` the power spans `x` alone, and what its
tokens spell depends on what follows. So the exponents have to be written out, each with a numeral,
and then the lexeme that follows a derivation no longer matters.

## Leaves

Two results hold without a condition on the exponents. A node without operands has one token,
whatever stands around it, with any number of parentheses. An operation on two such nodes has three
pieces of this kind. In neither of them is there an exponent, so the lexeme that follows has no say
in how they are read; it only must not be a caret.

## Main definitions

* `Lexeme.exponentsWritten` — every caret has a numeral
* `Derives.HasSegment` — an expression is read by itself from a stretch of tokens, and spans it

## Main results

* `Derives.of_exponentsWritten` — a derivation does not depend on what follows
* `Derives.hasSegment_of_mem_nodes` — every node has a segment
* `Derives.hasSegment_of_tail_nodes_eq_nil` — a node without operands has one in any case
* `Derives.hasSegment_of_leaves` — so does an operation on two of these
* `Derives.shift` — derivations move with their tokens
-/

namespace SchoolAlgebra

open Phrase

/-! ### Written exponents

The condition is on lexemes, so that it can be asked of a source without parsing it. It passes to
the tokens in front of an operator and to those behind it, and each part of a derivation is one or
the other. -/

namespace Lexeme

/-- Whether a numeral comes first, or a minus sign and a numeral. -/
def beginsExponent : List Lexeme → Bool
  | .number .. :: _ => true
  | .operator .subtract :: .number .. :: _ => true
  | _ => false

/-- Whether behind every caret there is a numeral, or a minus sign and a numeral. -/
def exponentsWritten : List Lexeme → Bool
  | [] => true
  | .caret :: rest => beginsExponent rest && exponentsWritten rest
  | _ :: rest => exponentsWritten rest

theorem exponentsWritten_of_append (as : List Lexeme) {bs : List Lexeme}
    (h : exponentsWritten (as ++ bs) = true) : exponentsWritten bs = true := by
  induction as with
  | nil => exact h
  | cons l as ih =>
    cases l with
    | caret => exact ih (Bool.and_eq_true_iff.mp h).2
    | _ => exact ih h

theorem beginsExponent_of_exponentsWritten {as bs : List Lexeme}
    (h : exponentsWritten (as ++ .caret :: bs) = true) : beginsExponent bs = true :=
  (Bool.and_eq_true_iff.mp (exponentsWritten_of_append as h)).1

/-- Exponents that are written out are so in the tokens before an operator. -/
theorem exponentsWritten_before {ts us : List Token} {t : Token} {ls : List Lexeme}
    (h : exponentsWritten ((ts ++ t :: us).map Token.lexeme ++ ls) = true) :
    exponentsWritten (ts.map Token.lexeme ++ t.lexeme :: (us.map Token.lexeme ++ ls)) = true := by
  simpa using h

/-- Exponents that are written out are so in the tokens behind an operator. -/
theorem exponentsWritten_behind {ts us : List Token} {t : Token} {ls : List Lexeme}
    (h : exponentsWritten ((ts ++ t :: us).map Token.lexeme ++ ls) = true) :
    exponentsWritten (us.map Token.lexeme ++ ls) = true := by
  refine exponentsWritten_of_append (ts.map Token.lexeme ++ [t.lexeme]) ?_
  simpa using h

end Lexeme

open Lexeme

/-- A longest exponent takes the numeral that is there. -/
theorem Phrase.Exponent.Maximal.isSome_of_beginsExponent {x : Exponent} {next : Lexeme}
    {rest : List Lexeme} (hmax : x.Maximal next)
    (h : beginsExponent (x.lexemes ++ next :: rest) = true) : x.numeral?.isSome = true := by
  obtain ⟨minus, _ | numeral⟩ := x
  · cases next with
    | number text value => exact hmax.numeral?_isSome
    | operator op =>
      cases minus with
      | true => cases op <;> simp [Exponent.lexemes, beginsExponent] at h
      | false =>
        cases op with
        | subtract => exact absurd hmax.minus_or_isSome (by simp)
        | _ => simp [Exponent.lexemes, beginsExponent] at h
    | _ => cases minus <;> simp [Exponent.lexemes, beginsExponent] at h
  · rfl

/-- Where every exponent is written out, an exponent that is the longest has a numeral. -/
theorem Phrase.Exponent.Maximal.isSome_of_written {x : Exponent} {next : Lexeme}
    {caret : Token} {ts us : List Token} {rest : List Lexeme} (hmax : x.Maximal next)
    (hcaret : caret.lexeme = .caret) (hus : us.map Token.lexeme = x.lexemes)
    (hw : exponentsWritten ((ts ++ caret :: us).map Token.lexeme ++ next :: rest) = true) :
    x.numeral?.isSome = true := by
  have hbefore := exponentsWritten_before hw
  rw [hcaret, hus] at hbefore
  exact hmax.isSome_of_beginsExponent (beginsExponent_of_exponentsWritten hbefore)

namespace Derives

variable {level : Level} {next next' : Lexeme} {ts : List Token} {e : Expr} {rest : List Lexeme}

/-! ### What follows a derivation

The lexeme that follows is looked at in two places: a base without an exponent must not be followed
by a caret, and an exponent must not go on with it. With a numeral in it an exponent never goes on.
-/

/-- Where every exponent is written out, a derivation does not depend on the lexeme that follows. -/
theorem of_exponentsWritten (h : Derives level next ts e)
    (hw : exponentsWritten (ts.map Token.lexeme ++ next :: rest) = true)
    (hnext' : EndsFactor next') : Derives level next' ts e := by
  induction h with
  | number ht => exact .number ht
  | name ht => exact .name ht
  | group hopening hclosing h => exact .group hopening hclosing h
  | plain _ _ ih => exact .plain hnext' (ih hw)
  | raised hbase hcaret hus hmax =>
    have hwritten := hmax.isSome_of_written hcaret hus hw
    exact .raised hbase hcaret hus (Exponent.maximal_of_isSome hwritten next')
  | power _ ih => exact .power (ih hw)
  | minus hsign _ ih => exact .minus hsign (ih (exponentsWritten_of_append [_] hw))
  | factor _ ih => exact .factor (ih hw)
  | product hop hleft hsign _ _ ih =>
    exact .product hop hleft hsign (ih (exponentsWritten_behind hw))
  | term _ ih => exact .term (ih hw)
  | addition hop hleft hsign _ _ ih =>
    exact .addition hop hleft hsign (ih (exponentsWritten_behind hw))

/-- An expression of any level is a sum. -/
theorem toSum (h : Derives level next ts e) (hnext : EndsFactor next) : Derives .sum next ts e := by
  cases level with
  | sum => exact h
  | term => exact .term h
  | factor => exact .term (.factor h)
  | power => exact .term (.factor (.power h))
  | atom => exact .term (.factor (.power (.plain hnext h)))

end Derives

/-! ### Stretches of tokens

The first and the last token of an expression are never a multiplication, which a source may leave
unwritten, and never the end. So both are found in the text, and the excerpt between them is scanned
into the tokens again. -/

/-- Tokens that begin with `first` and end with `last`, neither of which is a multiplication or the
end of the source. -/
structure Stretch (ts : List Token) (first last : Token) : Prop where
  /-- The first token. -/
  head_eq : ts.head? = some first
  /-- The last token. -/
  last_eq : ts.getLast? = some last
  /-- A multiplication stands between its operands. -/
  first_ne : first.lexeme ≠ .operator .multiply
  /-- A multiplication stands between its operands. -/
  last_ne : last.lexeme ≠ .operator .multiply
  /-- The end of the source stands behind every expression. -/
  last_ne_finish : last.lexeme ≠ .finish

namespace Stretch

variable {ts us : List Token} {t first last first' last' : Token}

theorem singleton (hne : t.lexeme ≠ .operator .multiply) (hfinish : t.lexeme ≠ .finish) :
    Stretch [t] t t := ⟨rfl, rfl, hne, hne, hfinish⟩

/-- A stretch with a token before it. -/
theorem cons (h : Stretch ts first last) (hne : t.lexeme ≠ .operator .multiply) :
    Stretch (t :: ts) t last := by
  refine ⟨rfl, ?_, hne, h.last_ne, h.last_ne_finish⟩
  rw [List.getLast?_cons, h.last_eq]
  rfl

/-- Two stretches with a token between them. -/
theorem append (h : Stretch ts first last) (h' : Stretch us first' last') (t : Token) :
    Stretch (ts ++ t :: us) first last' := by
  refine ⟨?_, ?_, h.first_ne, h'.last_ne, h'.last_ne_finish⟩
  · rw [List.head?_append, h.head_eq]
    rfl
  · rw [List.getLast?_append, List.getLast?_cons, h'.last_eq]
    rfl

end Stretch

/-- An exponent with a numeral ends with it, and so does the span of its power. -/
theorem Phrase.Exponent.exists_stretch {x : Exponent} {us : List Token}
    (hx : x.numeral?.isSome = true) (hus : us.map Token.lexeme = x.lexemes) (base : Expr) :
    ∃ first last, Stretch us first last ∧ x.span base us = some ⟨base.start, last.span.stop⟩ := by
  obtain ⟨minus, _ | ⟨text, value⟩⟩ := x
  · cases hx
  · cases minus with
    | false =>
      obtain ⟨numeral, rfl, hnumeral⟩ := List.map_eq_singleton_iff.mp hus
      exact ⟨numeral, numeral, .singleton (by simp [hnumeral]) (by simp [hnumeral]), rfl⟩
    | true =>
      obtain ⟨minus, us, rfl, hminus, hus⟩ := List.map_eq_cons_iff.mp hus
      obtain ⟨numeral, rfl, hnumeral⟩ := List.map_eq_singleton_iff.mp hus
      exact ⟨minus, numeral, (Stretch.singleton (by simp [hnumeral]) (by simp [hnumeral])).cons
        (by simp [hminus]), rfl⟩

/-- A power has a span if its base has one. -/
theorem Phrase.Exponent.exists_span {x : Exponent} {us : List Token} {base : Expr} {a : Span}
    (hus : us.map Token.lexeme = x.lexemes) (h : base.span = some a) :
    ∃ b, x.span base us = some b := by
  cases hx : x.numeral?.isSome with
  | true =>
    obtain ⟨first, last, -, hspan⟩ := Exponent.exists_stretch hx hus base
    exact ⟨_, hspan⟩
  | false => exact ⟨a, by rw [Exponent.span, hx, ← h]; rfl⟩

theorem Phrase.Exponent.map_shift_span {x : Exponent} {us : List Token} {base : Expr} {a : Span}
    (h : base.span = some a) (k : Nat) :
    (x.span base us).map (Span.shift k) = x.span (base.shift k) (us.map (Token.shift k)) := by
  rw [Exponent.span, Exponent.span]
  split
  · rw [List.getLast?_map, Option.map_map, Option.map_map, Expr.start_shift h]
    rfl
  · rw [Expr.span_shift]

namespace Derives

variable {level : Level} {next : Lexeme} {ts : List Token} {e : Expr} {rest : List Lexeme}

/-- Where every exponent is written out, an expression spans its tokens from first to last. -/
theorem exists_stretch (h : Derives level next ts e)
    (hw : exponentsWritten (ts.map Token.lexeme ++ next :: rest) = true) :
    ∃ first last, Stretch ts first last ∧ e.span = some ⟨first.span.start, last.span.stop⟩ := by
  induction h generalizing rest with
  | @number _ t _ _ ht => exact ⟨t, t, .singleton (by simp [ht]) (by simp [ht]), rfl⟩
  | @name _ t _ ht => exact ⟨t, t, .singleton (by simp [ht]) (by simp [ht]), rfl⟩
  | @group _ opening closing ts e hopening hclosing _ _ =>
    refine ⟨opening, closing, ⟨rfl, ?_, by simp [hopening], by simp [hclosing],
      by simp [hclosing]⟩, Expr.span_withSpan ..⟩
    rw [← List.cons_append, List.getLast?_concat]
  | plain _ _ ih => exact ih hw
  | @raised _ caret ts us base x _ hcaret hus hmax ih =>
    have hbefore := exponentsWritten_before hw
    rw [hcaret] at hbefore
    obtain ⟨first, last, hts, hspan⟩ := ih hbefore
    obtain ⟨first', last', hus', hspan'⟩ :=
      Exponent.exists_stretch (hmax.isSome_of_written hcaret hus hw) hus base
    refine ⟨first, last', hts.append hus' caret, hspan'.trans ?_⟩
    rw [Expr.start_of_span hspan]
  | power _ ih => exact ih hw
  | @minus _ sign ts e hsign _ ih =>
    obtain ⟨first, last, hts, hspan⟩ := ih (exponentsWritten_of_append [_] hw)
    refine ⟨sign, last, hts.cons (by simp [hsign]), ?_⟩
    rw [Expr.span, Expr.stop_of_span hspan]
  | factor _ ih => exact ih hw
  | @product _ sign op ts us l r hop _ hsign _ ihl ihr =>
    obtain ⟨first, last, hts, hspan⟩ := ihl (hsign ▸ exponentsWritten_before hw)
    obtain ⟨first', last', hus, hspan'⟩ := ihr (exponentsWritten_behind hw)
    exact ⟨first, last', hts.append hus sign, Expr.span_join hspan hspan' op⟩
  | term _ ih => exact ih hw
  | @addition _ sign op ts us l r hop _ hsign _ ihl ihr =>
    obtain ⟨first, last, hts, hspan⟩ := ihl (hsign ▸ exponentsWritten_before hw)
    obtain ⟨first', last', hus, hspan'⟩ := ihr (exponentsWritten_behind hw)
    exact ⟨first, last', hts.append hus sign, Expr.span_join hspan hspan' op⟩

/-! ### The segment of a node

The outermost node has all tokens for a segment. Any other node is a node of an operand, and has its
segment among the tokens of the operand; parentheses, signs, operators and exponents only stand
before and behind them. The induction is over the derivation, for all nodes but the outermost one.
-/

/-- An expression is read by itself from a stretch of the tokens, and spans the stretch. -/
def HasSegment (ts : List Token) (e : Expr) : Prop :=
  ∃ (before seg behind : List Token) (first last : Token), ts = before ++ seg ++ behind ∧
    Derives .sum .finish seg e ∧ Stretch seg first last ∧
      e.span = some ⟨first.span.start, last.span.stop⟩

theorem HasSegment.append (h : HasSegment ts e) (before behind : List Token) :
    HasSegment (before ++ ts ++ behind) e := by
  obtain ⟨before', seg, behind', first, last, rfl, h⟩ := h
  exact ⟨before ++ before', seg, behind' ++ behind, first, last, by simp, h⟩

/-- A segment left or right of an operator. -/
theorem HasSegment.of_or {us : List Token} (h : HasSegment ts e ∨ HasSegment us e) (sign : Token) :
    HasSegment (ts ++ sign :: us) e := by
  rcases h with h | h
  · exact h.append [] (sign :: us)
  · simpa using h.append (ts ++ [sign]) []

/-- A node of two operands has its segment left or right of the operator. -/
theorem HasSegment.of_mem_join {us : List Token} {left right n : Expr}
    (hleft : n ∈ left.nodes → HasSegment ts n) (hright : n ∈ right.nodes → HasSegment us n)
    (sign : Token) (op : Operator) (hn : n ∈ (Expr.join op left right).nodes.tail) :
    HasSegment (ts ++ sign :: us) n :=
  .of_or ((List.mem_append.mp hn).imp hleft hright) sign

/-- The segment of the outermost node is all there is. -/
theorem hasSegment_of_tail (h : Derives level next ts e)
    (hw : exponentsWritten (ts.map Token.lexeme ++ next :: rest) = true)
    (htail : ∀ n ∈ e.nodes.tail, HasSegment ts n) : ∀ n ∈ e.nodes, HasSegment ts n := by
  intro n hn
  rw [Expr.nodes_eq_cons] at hn
  rcases List.mem_cons.mp hn with rfl | hn
  · obtain ⟨first, last, hts, hspan⟩ := h.exists_stretch hw
    exact ⟨[], ts, [], first, last, by simp,
      (h.of_exponentsWritten hw endsSum_finish.1).toSum endsSum_finish.1, hts, hspan⟩
  · exact htail n hn

/-- A node below the outermost one is a node of an operand, and has its segment there. -/
theorem hasSegment_of_mem_tail (h : Derives level next ts e)
    (hw : exponentsWritten (ts.map Token.lexeme ++ next :: rest) = true) :
    ∀ n ∈ e.nodes.tail, HasSegment ts n := by
  induction h generalizing rest with
  | number | name =>
    intro n hn
    cases hn
  | @group _ opening closing ts e hopening hclosing _ ih =>
    intro n hn
    rw [Expr.nodes_withSpan, List.tail_cons] at hn
    have hclosed : exponentsWritten ((ts ++ [closing]).map Token.lexeme ++ _ :: rest) = true :=
      exponentsWritten_of_append [opening.lexeme] hw
    have hinner := hclosing ▸ exponentsWritten_before hclosed
    simpa using (ih hinner n hn).append [opening] [closing]
  | plain _ _ ih | power _ ih | factor _ ih | term _ ih => exact ih hw
  | @raised _ caret ts us base x hbase hcaret hus hmax ih =>
    intro n hn
    have hbefore := hcaret ▸ exponentsWritten_before hw
    exact (hbase.hasSegment_of_tail hbefore (ih hbefore) n hn).append [] (caret :: us)
  | @minus _ sign ts e hsign h ih =>
    intro n hn
    have hbehind := exponentsWritten_of_append [_] hw
    simpa using (h.hasSegment_of_tail hbehind (ih hbehind) n hn).append [sign] []
  | @product _ sign op ts us l r hop hleft hsign hright ihl ihr =>
    have hbefore := hsign ▸ exponentsWritten_before hw
    have hbehind := exponentsWritten_behind hw
    exact fun n => .of_mem_join (hleft.hasSegment_of_tail hbefore (ihl hbefore) n)
      (hright.hasSegment_of_tail hbehind (ihr hbehind) n) sign op
  | @addition _ sign op ts us l r hop hleft hsign hright ihl ihr =>
    have hbefore := hsign ▸ exponentsWritten_before hw
    have hbehind := exponentsWritten_behind hw
    exact fun n => .of_mem_join (hleft.hasSegment_of_tail hbefore (ihl hbefore) n)
      (hright.hasSegment_of_tail hbehind (ihr hbehind) n) sign op

/-- **Where every exponent is written out, every node has a segment.** -/
theorem hasSegment_of_mem_nodes (h : Derives level next ts e)
    (hw : exponentsWritten (ts.map Token.lexeme ++ next :: rest) = true) :
    ∀ n ∈ e.nodes, HasSegment ts n :=
  h.hasSegment_of_tail hw (h.hasSegment_of_mem_tail hw)

/-- **A node without operands has a segment**, whatever the exponents around it: its token, with the
parentheses around that. -/
theorem hasSegment_of_tail_nodes_eq_nil (h : Derives level next ts e) :
    ∀ n ∈ e.nodes, n.nodes.tail = [] → HasSegment ts n := by
  induction h with
  | @number _ t _ _ ht =>
    intro n hn _
    obtain rfl := List.mem_singleton.mp hn
    exact ⟨[], [t], [], t, t, rfl, (Derives.number ht).toSum endsSum_finish.1,
      .singleton (by simp [ht]) (by simp [ht]), rfl⟩
  | @name _ t _ ht =>
    intro n hn _
    obtain rfl := List.mem_singleton.mp hn
    exact ⟨[], [t], [], t, t, rfl, (Derives.name ht).toSum endsSum_finish.1,
      .singleton (by simp [ht]) (by simp [ht]), rfl⟩
  | @group _ opening closing ts e hopening hclosing h ih =>
    intro n hn hleaf
    rw [Expr.nodes_withSpan] at hn
    rcases List.mem_cons.mp hn with rfl | hn
    · -- what is in the parentheses is read alike wherever they stand
      refine ⟨[], _, [], opening, closing, (List.append_nil _).symm,
        (Derives.group hopening hclosing h).toSum endsSum_finish.1,
        ⟨rfl, ?_, by simp [hopening], by simp [hclosing], by simp [hclosing]⟩,
        Expr.span_withSpan ..⟩
      rw [← List.cons_append, List.getLast?_concat]
    · simpa using (ih n (List.mem_of_mem_tail hn) hleaf).append [opening] [closing]
  | plain _ _ ih | power _ ih | factor _ ih | term _ ih => exact ih
  | @raised _ caret ts us base x _ _ _ _ ih =>
    intro n hn hleaf
    rcases List.mem_cons.mp hn with rfl | hn
    · exact absurd hleaf (List.ne_nil_of_mem base.self_mem_nodes)
    · exact (ih n hn hleaf).append [] (caret :: us)
  | @minus _ sign ts e _ _ ih =>
    intro n hn hleaf
    rcases List.mem_cons.mp hn with rfl | hn
    · exact absurd hleaf (List.ne_nil_of_mem e.self_mem_nodes)
    · simpa using (ih n hn hleaf).append [sign] []
  | @product _ sign op ts us l r _ _ _ _ ihl ihr =>
    intro n hn hleaf
    rcases List.mem_cons.mp hn with rfl | hn
    · exact absurd hleaf (List.ne_nil_of_mem (List.mem_append_left _ l.self_mem_nodes))
    · exact .of_mem_join (fun h => ihl n h hleaf) (fun h => ihr n h hleaf) sign op hn
  | @addition _ sign op ts us l r _ _ _ _ ihl ihr =>
    intro n hn hleaf
    rcases List.mem_cons.mp hn with rfl | hn
    · exact absurd hleaf (List.ne_nil_of_mem (List.mem_append_left _ l.self_mem_nodes))
    · exact .of_mem_join (fun h => ihl n h hleaf) (fun h => ihr n h hleaf) sign op hn

/-! ### An operation on two leaves

The nodes of a sum in parentheses are those of the sum, but for the span of the outermost one. The
span is therefore left open in what is proved by induction: the operation is found with some span,
and the segment is that of the operation without parentheses. -/

/-- A node without operands is read from all its tokens, whatever follows, and spans them. -/
theorem exists_stretch_of_leaf (h : Derives level next ts e) (hleaf : e.nodes.tail = []) :
    (∃ first last, Stretch ts first last ∧ e.span = some ⟨first.span.start, last.span.stop⟩) ∧
      ∀ next', EndsFactor next' → Derives level next' ts e := by
  induction h with
  | @number _ t _ _ ht =>
    exact ⟨⟨t, t, .singleton (by simp [ht]) (by simp [ht]), rfl⟩, fun _ _ => .number ht⟩
  | @name _ t _ ht =>
    exact ⟨⟨t, t, .singleton (by simp [ht]) (by simp [ht]), rfl⟩, fun _ _ => .name ht⟩
  | @group _ opening closing ts e hopening hclosing h _ =>
    refine ⟨⟨opening, closing, ⟨rfl, ?_, by simp [hopening], by simp [hclosing],
      by simp [hclosing]⟩, Expr.span_withSpan ..⟩, fun _ _ => .group hopening hclosing h⟩
    rw [← List.cons_append, List.getLast?_concat]
  | plain _ _ ih =>
    obtain ⟨hstretch, hderives⟩ := ih hleaf
    exact ⟨hstretch, fun next' hnext' => .plain hnext' (hderives next' hnext')⟩
  | power _ ih =>
    obtain ⟨hstretch, hderives⟩ := ih hleaf
    exact ⟨hstretch, fun next' hnext' => .power (hderives next' hnext')⟩
  | factor _ ih =>
    obtain ⟨hstretch, hderives⟩ := ih hleaf
    exact ⟨hstretch, fun next' hnext' => .factor (hderives next' hnext')⟩
  | term _ ih =>
    obtain ⟨hstretch, hderives⟩ := ih hleaf
    exact ⟨hstretch, fun next' hnext' => .term (hderives next' hnext')⟩
  | @raised _ _ _ _ base => exact absurd hleaf (List.ne_nil_of_mem base.self_mem_nodes)
  | @minus _ _ _ e => exact absurd hleaf (List.ne_nil_of_mem e.self_mem_nodes)
  | @product _ _ _ _ _ l | @addition _ _ _ _ _ l =>
    exact absurd hleaf (List.ne_nil_of_mem (List.mem_append_left _ l.self_mem_nodes))

/-- The tokens of two leaves and the operator between them. -/
theorem hasSegment_join {us : List Token} {sign : Token} {op : Operator} {left right : Expr}
    (hjoin : Derives .sum .finish (ts ++ sign :: us) (.join op left right))
    (hleft : ∃ first last, Stretch ts first last ∧
      left.span = some ⟨first.span.start, last.span.stop⟩)
    (hright : ∃ first last, Stretch us first last ∧
      right.span = some ⟨first.span.start, last.span.stop⟩) :
    HasSegment (ts ++ sign :: us) (.join op left right) := by
  obtain ⟨first, last, hts, hspan⟩ := hleft
  obtain ⟨first', last', hus, hspan'⟩ := hright
  exact ⟨[], ts ++ sign :: us, [], first, last', by simp, hjoin, hts.append hus sign,
    Expr.span_join hspan hspan' op⟩

/-- **An operation on two leaves has a segment**, whatever the exponents around it: its operands and
the operator, without the parentheses around all three. -/
theorem hasSegment_of_leaves (h : Derives level next ts e) {op : Operator} {left right : Expr}
    (hleft : left.nodes.tail = []) (hright : right.nodes.tail = []) :
    ∀ s, .binary op left right s ∈ e.nodes → HasSegment ts (.join op left right) := by
  induction h with
  | number | name =>
    intro s hn
    cases List.mem_singleton.mp hn
  | @group _ opening closing ts e hopening hclosing _ ih =>
    intro s hn
    rw [Expr.nodes_withSpan] at hn
    -- parentheses change the span of the operation in them, and nothing that matters here
    have hinner : ∃ s', .binary op left right s' ∈ e.nodes := by
      rcases List.mem_cons.mp hn with hself | hn
      · cases e with
        | binary op' left' right' s' =>
          obtain ⟨rfl, rfl, rfl, -⟩ := Expr.binary.inj hself
          exact ⟨s', Expr.self_mem_nodes _⟩
        | _ => cases hself
      · exact ⟨s, List.mem_of_mem_tail hn⟩
    obtain ⟨s', hn⟩ := hinner
    simpa using (ih s' hn).append [opening] [closing]
  | plain _ _ ih | power _ ih | factor _ ih | term _ ih => exact ih
  | @raised _ caret ts us base x _ _ _ _ ih =>
    intro s hn
    rcases List.mem_cons.mp hn with hself | hn
    · cases hself
    · exact (ih s hn).append [] (caret :: us)
  | @minus _ sign ts e _ _ ih =>
    intro s hn
    rcases List.mem_cons.mp hn with hself | hn
    · cases hself
    · simpa using (ih s hn).append [sign] []
  | @product _ sign op' ts us l r hop hl hsign hr ihl ihr =>
    intro s hn
    rcases List.mem_cons.mp hn with hself | hn
    · obtain ⟨rfl, rfl, rfl, -⟩ := Expr.binary.inj hself
      obtain ⟨hus, hfinish⟩ := hr.exists_stretch_of_leaf hright
      exact hasSegment_join
        (.term (.product hop hl hsign (hfinish .finish endsSum_finish.1)))
        (hl.exists_stretch_of_leaf hleft).1 hus
    · exact .of_or ((List.mem_append.mp hn).imp (ihl s) (ihr s)) sign
  | @addition _ sign op' ts us l r hop hl hsign hr ihl ihr =>
    intro s hn
    rcases List.mem_cons.mp hn with hself | hn
    · obtain ⟨rfl, rfl, rfl, -⟩ := Expr.binary.inj hself
      obtain ⟨hus, hfinish⟩ := hr.exists_stretch_of_leaf hright
      exact hasSegment_join (.addition hop hl hsign (hfinish .finish endsSum_finish.1))
        (hl.exists_stretch_of_leaf hleft).1 hus
    · exact .of_or ((List.mem_append.mp hn).imp (ihl s) (ihr s)) sign

/-! ### Moving a derivation

Spans are made from those of the tokens by taking the start of one and the end of another, which a
shift leaves in place. The operands must have spans for this, and in a derivation they do. -/

theorem exists_span (h : Derives level next ts e) : ∃ a, e.span = some a := by
  induction h with
  | raised _ _ hus _ ih =>
    obtain ⟨a, ha⟩ := ih
    exact Exponent.exists_span hus ha
  | group => exact ⟨_, Expr.span_withSpan ..⟩
  | plain _ _ ih | power _ ih | factor _ ih | term _ ih => exact ih
  | _ => exact ⟨_, rfl⟩

/-- **Derivations move with their tokens.** -/
theorem shift (h : Derives level next ts e) (k : Nat) :
    Derives level next (ts.map (Token.shift k)) (e.shift k) := by
  induction h with
  | number ht => exact .number ht
  | name ht => exact .name ht
  | group hopening hclosing _ ih =>
    rw [List.map_cons, List.map_append, Expr.shift_withSpan]
    exact .group hopening hclosing ih
  | plain hnext _ ih => exact .plain hnext ih
  | @raised _ caret ts us base x hbase hcaret hus hmax ih =>
    obtain ⟨a, ha⟩ := hbase.exists_span
    have hus' : (us.map (Token.shift k)).map Token.lexeme = x.lexemes := by
      rw [List.map_map, ← hus]
      rfl
    rw [List.map_append, List.map_cons, Expr.shift, Exponent.map_shift_span ha]
    exact .raised ih hcaret hus' hmax
  | power _ ih => exact .power ih
  | minus hsign h ih =>
    obtain ⟨a, ha⟩ := h.exists_span
    rw [List.map_cons, Expr.shift, Option.map_some, Span.shift, ← Expr.stop_shift ha]
    exact .minus hsign ih
  | factor _ ih => exact .factor ih
  | product hop hleft hsign hright ihl ihr =>
    obtain ⟨a, ha⟩ := hleft.exists_span
    obtain ⟨b, hb⟩ := hright.exists_span
    rw [List.map_append, List.map_cons, Expr.shift_join ha hb]
    exact .product hop ihl hsign ihr
  | term _ ih => exact .term ih
  | addition hop hleft hsign hright ihl ihr =>
    obtain ⟨a, ha⟩ := hleft.exists_span
    obtain ⟨b, hb⟩ := hright.exists_span
    rw [List.map_append, List.map_cons, Expr.shift_join ha hb]
    exact .addition hop ihl hsign ihr

end Derives

end SchoolAlgebra
