import Mathlib
import SchoolAlgebra.Expr.Outline
import SchoolAlgebra.Proofs.Expr.FixedPoint
import SchoolAlgebra.Proofs.ForMathlib.List
import SchoolAlgebra.Proofs.Json.Numeral
import SchoolAlgebra.Proofs.Token.Cover

/-!
# What an outline shows

An expression that was read from a source can be told from its outline, spans included, but for the
sign of a zero exponent: the exact text of both zeros is the same.

The outline is told apart from its front. A line ends at the first line end and its indentation is
known, so what is left are the word for the node, the text behind it and the span. None of these
holds a blank but the span, which begins with two. The word tells how many operands follow, one
level deeper, and each is told apart in turn from what follows it.

## Telling texts apart from their front

Each statement has the form that two texts with something behind them are equal only if the first
parts are equal and so are the parts behind. Such statements can be chained: a line is told apart
from what follows it, then the outline of the first operand, then that of the second. The depth at
which an outline stands is the same on both sides, and so the indentation need not be told apart.

## Main definitions

* `Expr.unsignExponents` — the expression with the sign of zero exponents forgotten
* `Expr.Unsigned` — no number of the expression is minus zero

## Main results

* `Binary64.unsignZero_eq_of_exactText_eq` — the exact text determines the number
* `Token.unsignZero_of_mem_scan` — no numeral of a source is minus zero
* `Expr.firstLine_inj` — the first line of an outline determines the node
* `Expr.outlineAt_append_inj` — an outline is determined with what follows it
* `Expr.outline_eq_iff_of_parse` — expressions with the same outline
-/

namespace SchoolAlgebra

attribute [local irreducible] oneUnits

/-! ### Exact texts

The exact text of a number is a numeral of JSON, and these are told apart by their texts. The
numeral of a number that is not integral denotes that number. The one of an integral number denotes
an integer, which determines the magnitude and, unless it is zero, the sign. -/

namespace Number

variable {x y : Number} {n : Int}

/-- An integral number is a whole number of ones, with its sign. -/
theorem exists_whole_of_toInt? (h : x.toInt? = some n) :
    ∃ whole : Nat, x.magnitude = whole * oneUnits ∧
      n = if x.negative then -(whole : Int) else whole := by
  have hwhole : x.magnitude % oneUnits = 0 := (toInt?_isSome_iff x).mp (by rw [h]; rfl)
  rw [toInt?_of_mod_eq_zero hwhole] at h
  exact ⟨_, (Nat.div_mul_cancel (Nat.dvd_of_mod_eq_zero hwhole)).symm, (Option.some.inj h).symm⟩

/-- A sign and a natural number are determined by the integer, but for the sign of zero. -/
theorem eq_of_signed_eq {a b : Bool} {k m : Nat}
    (h : (if a then -(k : Int) else k) = if b then -(m : Int) else m) :
    k = m ∧ (k ≠ 0 → a = b) := by
  cases a <;> cases b <;> simp at h ⊢ <;> omega

/-- Integral numbers of the same value are the same but for the sign of a zero. -/
theorem unsignZero_eq_of_toInt? (hx : x.toInt? = some n) (hy : y.toInt? = some n) :
    (Binary64.finite x).unsignZero = (Binary64.finite y).unsignZero := by
  obtain ⟨whole, hxWhole, hxValue⟩ := exists_whole_of_toInt? hx
  obtain ⟨_, hyWhole, hyValue⟩ := exists_whole_of_toInt? hy
  obtain ⟨rfl, hsign⟩ := eq_of_signed_eq (hxValue.symm.trans hyValue)
  by_cases hzero : whole = 0
  · have hisZero {z : Number} (hz : z.magnitude = whole * oneUnits) : z.isZero = true := by
      rw [isZero_iff_magnitude, hz, hzero, Nat.zero_mul]
    rw [Binary64.unsignZero, Binary64.unsignZero, if_pos (hisZero hxWhole),
      if_pos (hisZero hyWhole)]
  · rw [ext_magnitude (hsign hzero) (hxWhole.trans hyWhole.symm)]

/-- The exact text of a number is a numeral of JSON: an integer's, or one that denotes it. -/
theorem exists_numeral_exactText (x : Number) :
    ∃ m : Json.Numeral, m.text = (Binary64.finite x).exactText.toList ∧ m.integer? = x.toInt? ∧
      (x.toInt? = none → m.number = .finite x) := by
  rw [Binary64.exactText]
  cases hx : x.toInt? with
  | none =>
    obtain ⟨m, htext, hinteger, hnumber⟩ := Json.exists_numeral_fullText x
    exact ⟨m, htext, hinteger, fun _ => hnumber⟩
  | some n =>
    obtain ⟨m, htext, hinteger⟩ := Json.exists_numeral_toString n
    exact ⟨m, htext, hinteger, fun h => absurd h (Option.some_ne_none n)⟩

/-- What stands in the exact text of a number. -/
theorem isNumeric_of_mem_exactText {c : Char} (h : c ∈ (Binary64.finite x).exactText.toList) :
    Json.Numeral.isNumeric c = true := by
  obtain ⟨m, htext, -⟩ := x.exists_numeral_exactText
  exact m.forall_isNumeric c (htext ▸ h)

end Number

namespace Binary64

/-- The exact text of an infinity is that of no number. -/
theorem exactText_infinite_ne (negative : Bool) (x : Number) :
    (infinite negative).exactText ≠ (finite x).exactText := by
  intro h
  have hmem : 'i' ∈ (finite x).exactText.toList := by
    rw [← h]
    cases negative <;> decide
  exact absurd (Number.isNumeric_of_mem_exactText hmem) (by decide)

/-- **The exact text determines the number**, but for the sign of a zero. -/
theorem unsignZero_eq_of_exactText_eq {v w : Binary64} (h : v.exactText = w.exactText) :
    v.unsignZero = w.unsignZero := by
  cases v with
  | infinite negative =>
    cases w with
    | finite y => exact absurd h (exactText_infinite_ne negative y)
    | infinite negative' =>
      revert h
      cases negative <;> cases negative' <;> decide
  | finite x =>
    cases w with
    | infinite negative => exact absurd h.symm (exactText_infinite_ne negative x)
    | finite y =>
      obtain ⟨m, hm, hmInteger, hmNumber⟩ := x.exists_numeral_exactText
      obtain ⟨k, hk, hkInteger, hkNumber⟩ := y.exists_numeral_exactText
      obtain rfl : m = k := Json.Numeral.text_injective (by rw [hm, hk, h])
      have hinteger : x.toInt? = y.toInt? := hmInteger.symm.trans hkInteger
      cases hx : x.toInt? with
      | none => rw [← hmNumber hx, ← hkNumber (hinteger ▸ hx)]
      | some n => exact Number.unsignZero_eq_of_toInt? hx (hinteger ▸ hx)

end Binary64

/-! ### Digits -/

namespace Decimal

/-- The digits determine the number. -/
theorem digitsOf_injective {n m : Nat} (h : digitsOf n = digitsOf m) : n = m := by
  rw [← ofDigits_digitsOf n, h, ofDigits_digitsOf]

/-- A natural number is determined with what follows its digits. -/
theorem digitsOf_append_inj {n m : Nat} {c : Char} {rest rest' : List Char}
    (hc : c.isDigit = false) (h : digitsOf n ++ c :: rest = digitsOf m ++ c :: rest') :
    n = m ∧ rest = rest' := by
  have hhead (rest : List Char) : ∀ d ∈ (c :: rest).head?, d.isDigit = false := by
    rintro d hd
    cases hd
    exact hc
  obtain ⟨hdigits, hrest⟩ := append_inj_of_forall Char.isDigit (fun _ => isDigit_of_mem_digitsOf)
    (fun _ => isDigit_of_mem_digitsOf) (hhead rest) (hhead rest') h
  exact ⟨digitsOf_injective hdigits, (List.cons.inj hrest).2⟩

end Decimal

/-! ### Symbols -/

/-- The symbol determines the operator. -/
theorem Operator.symbol_injective {op op' : Operator} (h : op.symbol = op'.symbol) : op = op' := by
  have hread := Operator.ofChar?_symbol op
  rw [h, Operator.ofChar?_symbol] at hread
  exact (Option.some.inj (List.cons.inj hread).1).symm

namespace Expr

variable {e e' : Expr} {level : Nat} {rest rest' : List Char}

/-! ### The parts of a line

Behind the indentation stand two words, the kind of the node and its content. Neither holds a blank,
and each is followed by a blank or by the end of the line. So each ends where the first character is
met that is not solid. -/

/-- Neither a blank nor a line end. -/
def isSolid (c : Char) : Bool := c != ' ' && c != '\n'

/-- The word for a node. -/
def kind : Expr → String
  | .num .. => "Number"
  | .var .. => "Variable"
  | .neg .. => "Unary"
  | .power .. => "Power"
  | .binary .. => "Binary"

/-- What stands behind the word for a node. -/
def content : Expr → String
  | .num v _ => v.exactText
  | .var name _ _ => name
  | .neg .. => "-"
  | .power _ exponent _ => "^" ++ exponent.exactText
  | .binary op .. => op.symbol

/-- The lines of the operands, which stand at a level. -/
def operandLines (level : Nat) : Expr → String
  | .num .. | .var .. => ""
  | .neg operand _ => operand.outlineAt level
  | .power base _ _ => base.outlineAt level
  | .binary _ left right _ => left.outlineAt level ++ right.outlineAt level

theorem coefficientText_of_eq_one {coefficient : Binary64} (h : coefficient = .one) :
    coefficientText coefficient = "" := by
  rw [coefficientText, if_pos h]

theorem Lexical.headline_eq (h : e.Lexical) : e.headline = e.kind ++ " " ++ e.content := by
  cases e with
  | var name coefficient s =>
    rw [headline, coefficientText_of_eq_one h.2, String.append_empty]
    rfl
  | power base exponent s => rw [headline, content, ← String.append_assoc]; rfl
  | num | neg | binary => rfl

/-- An outline is a line for the node and the lines of its operands. -/
theorem Lexical.toList_outlineAt (h : e.Lexical) (level : Nat) :
    (e.outlineAt level).toList =
      (indent level).toList ++ (e.kind.toList ++ ' ' :: (e.content.toList ++
        ((spanText e.span).toList ++ '\n' :: (e.operandLines (level + 1)).toList))) := by
  have hlines : e.outlineAt level =
      indent level ++ e.headline ++ spanText e.span ++ "\n" ++ e.operandLines (level + 1) := by
    cases e <;> rw [outlineAt, operandLines]
  rw [hlines, h.headline_eq]
  simp

theorem isSolid_of_mem_exactText {v : Binary64} {c : Char} (h : c ∈ v.exactText.toList) :
    isSolid c = true := by
  cases v with
  | infinite negative =>
    have hall : (Binary64.infinite negative).exactText.toList.all isSolid = true := by
      cases negative <;> decide
    exact List.all_eq_true.mp hall c h
  | finite x =>
    have hnumeric := Number.isNumeric_of_mem_exactText h
    rw [isSolid, Bool.and_eq_true, bne_iff_ne, bne_iff_ne]
    constructor <;>
    · rintro rfl
      exact absurd hnumeric (by decide)

theorem isSolid_of_isName {name : List Char} (h : IsName name) : ∀ c ∈ name, isSolid c = true := by
  intro c hc
  have hclass := Lexeme.forall_mem_of_isName h c hc
  rw [isSolid, Bool.and_eq_true, bne_iff_ne, bne_iff_ne]
  constructor <;>
  · rintro rfl
    exact absurd hclass (by decide)

theorem isSolid_kind (e : Expr) : ∀ c ∈ e.kind.toList, isSolid c = true := by
  cases e <;> simp [kind, isSolid]

/-- Neither a word nor what stands behind it holds a blank. -/
theorem Lexical.isSolid_content (h : e.Lexical) : ∀ c ∈ e.content.toList, isSolid c = true := by
  cases e with
  | num v s => exact fun c => isSolid_of_mem_exactText
  | var name coefficient s => exact isSolid_of_isName h.1
  | neg operand s => simp [content, isSolid]
  | power base exponent s =>
    rw [content, String.toList_append]
    exact List.forall_mem_cons.mpr ⟨by decide, fun c => isSolid_of_mem_exactText⟩
  | binary op left right s =>
    cases op <;> simp [content, Operator.symbol, isSolid]

/-! ### Spans -/

theorem toList_spanText_some (a : Span) :
    (spanText (some a)).toList = ' ' :: ' ' :: '[' :: (Decimal.digitsOf a.start ++
      ':' :: (Decimal.digitsOf a.stop ++ [']'])) := by
  simp [spanText, Decimal.digitsOf]

/-- The end of a node's line is determined with what follows it. -/
theorem spanText_append_inj {a b : Option Span}
    (h : (spanText a).toList ++ '\n' :: rest = (spanText b).toList ++ '\n' :: rest') :
    a = b ∧ rest = rest' := by
  cases a with
  | none =>
    cases b with
    | none => exact ⟨rfl, (List.cons.inj h).2⟩
    | some b =>
      rw [toList_spanText_some] at h
      exact absurd (List.cons.inj h).1 (by decide)
  | some a =>
    cases b with
    | none =>
      rw [toList_spanText_some] at h
      exact absurd (List.cons.inj h).1 (by decide)
    | some b =>
      simp only [toList_spanText_some, List.cons_append, List.append_assoc, List.nil_append,
        List.cons.injEq, true_and] at h
      obtain ⟨hstart, h⟩ := Decimal.digitsOf_append_inj rfl h
      obtain ⟨hstop, h⟩ := Decimal.digitsOf_append_inj rfl h
      exact ⟨congrArg some (by cases a; cases b; simp_all), (List.cons.inj h).2⟩

/-! ### Lines -/

theorem isSolid_head?_spanText_append (a : Option Span) (rest : List Char) :
    ∀ c ∈ ((spanText a).toList ++ '\n' :: rest).head?, isSolid c = false := by
  intro c hc
  cases a with
  | none =>
    cases hc
    rfl
  | some a =>
    rw [toList_spanText_some] at hc
    cases hc
    rfl

/-- **The first line of an outline determines the node.** -/
theorem firstLine_inj (he : e.Lexical) (he' : e'.Lexical)
    (h : (e.outlineAt level).toList ++ rest = (e'.outlineAt level).toList ++ rest') :
    e.kind = e'.kind ∧ e.content = e'.content ∧ e.span = e'.span ∧
      (e.operandLines (level + 1)).toList ++ rest =
        (e'.operandLines (level + 1)).toList ++ rest' := by
  have hblank (rest : List Char) : ∀ c ∈ (' ' :: rest).head?, isSolid c = false := by
    rintro c hc
    cases hc
    rfl
  simp only [he.toList_outlineAt, he'.toList_outlineAt, List.append_assoc, List.cons_append] at h
  obtain ⟨hkind, h⟩ := append_inj_of_forall isSolid e.isSolid_kind e'.isSolid_kind
    (hblank _) (hblank _) (List.append_cancel_left h)
  obtain ⟨hcontent, h⟩ := append_inj_of_forall isSolid he.isSolid_content
    he'.isSolid_content (isSolid_head?_spanText_append _ _) (isSolid_head?_spanText_append _ _)
    (List.cons.inj h).2
  obtain ⟨hspan, h⟩ := spanText_append_inj h
  exact ⟨String.toList_inj.mp hkind, String.toList_inj.mp hcontent, hspan, h⟩

/-! ### Outlines

The word for a node says how many operands follow. The induction is over the first expression; by
the first line the second one has the same node, and the operands are told apart one after another.
-/

/-- The expression with the sign of zero exponents forgotten. -/
def unsignExponents : Expr → Expr
  | .num v s => .num v s
  | .var name coefficient s => .var name coefficient s
  | .binary op left right s => .binary op left.unsignExponents right.unsignExponents s
  | .neg e s => .neg e.unsignExponents s
  | .power base exponent s => .power base.unsignExponents exponent.unsignZero s

/-- No number of the expression is minus zero. -/
def Unsigned : Expr → Prop
  | .num v _ => v.unsignZero = v
  | .var .. => True
  | .binary _ left right _ => left.Unsigned ∧ right.Unsigned
  | .neg e _ => e.Unsigned
  | .power base _ _ => base.Unsigned

/-- **An outline is determined with what follows it.** -/
theorem outlineAt_append_inj (he : e.Lexical) (he' : e'.Lexical) (hu : e.Unsigned)
    (hu' : e'.Unsigned)
    (h : (e.outlineAt level).toList ++ rest = (e'.outlineAt level).toList ++ rest') :
    e.unsignExponents = e'.unsignExponents ∧ rest = rest' := by
  -- the word for the node tells the constructor, and with it how many operands follow
  induction e generalizing e' level rest rest' with
  | num v s =>
    obtain ⟨hkind, hcontent, hspan, hrest⟩ := firstLine_inj he he' h
    cases e' with
    | num v' s' =>
      obtain rfl : s = s' := hspan
      have hv : v.unsignZero = v'.unsignZero := Binary64.unsignZero_eq_of_exactText_eq hcontent
      have hsame : v = v' := by rw [← show v.unsignZero = v from hu, hv]; exact hu'
      exact ⟨by rw [hsame], hrest⟩
    | _ => simp [kind] at hkind
  | var name coefficient s =>
    obtain ⟨hkind, hcontent, hspan, hrest⟩ := firstLine_inj he he' h
    cases e' with
    | var name' coefficient' s' =>
      obtain rfl : name = name' := hcontent
      obtain rfl : s = s' := hspan
      have hcoefficient : coefficient = .one := he.2
      have hcoefficient' : coefficient' = .one := he'.2
      rw [hcoefficient, hcoefficient']
      exact ⟨rfl, hrest⟩
    | _ => simp [kind] at hkind
  | neg operand s ih =>
    obtain ⟨hkind, -, hspan, hrest⟩ := firstLine_inj he he' h
    cases e' with
    | neg operand' s' =>
      obtain rfl : s = s' := hspan
      obtain ⟨hoperand, hrest⟩ := @ih operand' (level + 1) rest rest' he he' hu hu' hrest
      exact ⟨by rw [unsignExponents, unsignExponents, hoperand], hrest⟩
    | _ => simp [kind] at hkind
  | power base exponent s ih =>
    obtain ⟨hkind, hcontent, hspan, hrest⟩ := firstLine_inj he he' h
    cases e' with
    | power base' exponent' s' =>
      obtain rfl : s = s' := hspan
      have hexponent : exponent.unsignZero = exponent'.unsignZero :=
        Binary64.unsignZero_eq_of_exactText_eq ((String.append_right_inj "^").mp hcontent)
      obtain ⟨hbase, hrest⟩ := @ih base' (level + 1) rest rest' he he' hu hu' hrest
      exact ⟨by rw [unsignExponents, unsignExponents, hbase, hexponent], hrest⟩
    | _ => simp [kind] at hkind
  | binary op left right s ihl ihr =>
    obtain ⟨hkind, hcontent, hspan, hrest⟩ := firstLine_inj he he' h
    cases e' with
    | binary op' left' right' s' =>
      obtain rfl : s = s' := hspan
      obtain rfl : op = op' := Operator.symbol_injective hcontent
      rw [operandLines, operandLines, String.toList_append, String.toList_append,
        List.append_assoc, List.append_assoc] at hrest
      obtain ⟨hleft, hrest⟩ := @ihl left' _ _ _ he.1 he'.1 hu.1 hu'.1 hrest
      obtain ⟨hright, hrest⟩ := @ihr right' _ _ _ he.2 he'.2 hu.2 hu'.2 hrest
      exact ⟨by rw [unsignExponents, unsignExponents, hleft, hright], hrest⟩
    | _ => simp [kind] at hkind

/-- An outline shows no sign of a zero exponent. -/
theorem outlineAt_unsignExponents (level : Nat) (e : Expr) :
    e.unsignExponents.outlineAt level = e.outlineAt level := by
  induction e generalizing level with
  | num | var => rfl
  | neg operand s ih => rw [unsignExponents, outlineAt, outlineAt, ih]; rfl
  | power base exponent s ih =>
    rw [unsignExponents, outlineAt, outlineAt, ih, headline, headline, exactText_unsignZero]
    rfl
  | binary op left right s ihl ihr => rw [unsignExponents, outlineAt, outlineAt, ihl, ihr]; rfl

/-! ### Numbers of a source

The two zeros have the same exact text, and no numeral denotes minus zero. A minus zero can come
only from an exponent, where the sign belongs to the number, and this is what the outline cannot
show. -/

theorem unsigned_withSpan (s : Option Span) (e : Expr) : (e.withSpan s).Unsigned ↔ e.Unsigned := by
  cases e <;> rfl

end Expr

/-- A numeral does not denote minus zero. -/
theorem Decimal.unsignZero_toBinary64 (d : Decimal) : d.toBinary64.unsignZero = d.toBinary64 := by
  cases hd : d.toBinary64 with
  | infinite negative => rfl
  | finite x =>
    have hsign : x.negative = false :=
      Number.negative_of_round? (Binary64.round_eq_finite.mp hd)
    obtain ⟨negative, mantissa, scale, canonical⟩ := x
    subst hsign
    rw [Binary64.unsignZero_eq]
    rfl

/-- No numeral of a source is minus zero. -/
theorem Token.unsignZero_of_mem_scan {source : String} {t : Token} {v : Binary64}
    (ht : t ∈ scan source) (hv : t.lexeme.value? = some v) : v.unsignZero = v := by
  obtain rfl | himplied | ⟨length, hword, -⟩ := eq_word_of_mem_scanAt (Nat.zero_le _) ht
  · cases hv
  · rw [(isImplicitMultiply_iff.mp himplied).1] at hv
    cases hv
  · obtain ⟨-, heq⟩ | ⟨-, -, heq⟩ | ⟨-, -, heq⟩ := Lexeme.longest?_cases _
    · obtain ⟨hlexeme, -⟩ := Prod.mk.inj (Option.some.inj (hword.symm.trans heq))
      rw [hlexeme] at hv
      rw [← Option.some.inj hv, Decimal.unsignZero_toBinary64]
    · obtain ⟨hlexeme, -⟩ := Prod.mk.inj (Option.some.inj (hword.symm.trans heq))
      rw [hlexeme] at hv
      cases hv
    · obtain ⟨l, hl, hpair⟩ := Option.map_eq_some_iff.mp (heq.symm.trans hword)
      obtain ⟨c, -, hc⟩ := Option.bind_eq_some_iff.mp hl
      have hnumber := (Lexeme.ne_number_of_ofChar? hc).1
      rw [(Prod.mk.inj hpair).1, Lexeme.isNumber, hv] at hnumber
      cases hnumber

/-- An expression has only numbers of its tokens. -/
theorem Derives.unsigned {l : Level} {next : Lexeme} {ts : List Token} {e : Expr}
    (h : Derives l next ts e)
    (hts : ∀ t ∈ ts, ∀ v, t.lexeme.value? = some v → v.unsignZero = v) : e.Unsigned := by
  induction h with
  | number ht => exact hts _ List.mem_cons_self _ (by rw [ht]; rfl)
  | name => trivial
  | group _ _ _ ih =>
    have he := ih fun t ht => hts t (List.mem_cons_of_mem _ (List.mem_append_left _ ht))
    rwa [Expr.unsigned_withSpan]
  | raised _ _ _ _ ih => exact ih fun t ht => hts t (List.mem_append_left _ ht)
  | plain _ _ ih | power _ ih | factor _ ih | term _ ih => exact ih hts
  | minus _ _ ih => exact ih fun t ht => hts t (List.mem_cons_of_mem _ ht)
  | product _ _ _ _ ihl ihr | addition _ _ _ _ ihl ihr =>
    exact ⟨ihl fun t ht => hts t (List.mem_append_left _ ht),
      ihr fun t ht => hts t (List.mem_append_right _ (List.mem_cons_of_mem _ ht))⟩

namespace Expr

/-- No number of an expression that was read from a source is minus zero. -/
theorem unsigned_of_parse {source : String} (h : parse source = .ok e) : e.Unsigned := by
  obtain ⟨tokens, stop, htokens, hfinish, hstop, -⟩ := Token.exists_scan_eq_append source
  rw [parse_eq_ok_iff, htokens, ofTokens?_eq_ok_iff_derives hfinish hstop] at h
  exact h.unsigned fun t ht _ => Token.unsignZero_of_mem_scan (htokens ▸ List.mem_append_left _ ht)

/-- **Expressions with the same outline** are the same, spans included, but for the sign of zero
exponents. -/
theorem outline_eq_iff_of_parse (source other : String) (e e' : Expr)
    (he : parse source = .ok e) (he' : parse other = .ok e') :
    e.outline = e'.outline ↔ e.unsignExponents = e'.unsignExponents := by
  constructor
  · intro h
    have hlines : (e.outlineAt 0).toList ++ [] = (e'.outlineAt 0).toList ++ [] :=
      congrArg (·.toList ++ []) h
    exact (outlineAt_append_inj (lexical_of_parse he) (lexical_of_parse he')
      (unsigned_of_parse he) (unsigned_of_parse he') hlines).1
  · intro h
    rw [outline, outline, ← outlineAt_unsignExponents, h, outlineAt_unsignExponents]

/-- The expression of `x^-0+(2)`, and with a plain zero that of `x^00+(2)`. -/
def zeroPower (exponent : Binary64) : Expr :=
  .join .add (.power (.var "x" .one (some ⟨0, 1⟩)) exponent (some ⟨0, 4⟩))
    (.num .two (some ⟨5, 8⟩))

/-- The outline does not tell the signs of zero exponents apart. -/
theorem outline_eq_iff_of_parse_zeroPower :
    parse "x^-0+(2)" = .ok (zeroPower (.finite Number.zero.neg)) ∧
      parse "x^00+(2)" = .ok (zeroPower (.finite .zero)) ∧
      (zeroPower (.finite Number.zero.neg)).outline = (zeroPower (.finite .zero)).outline ∧
      (zeroPower (.finite Number.zero.neg)).unsignExponents =
        (zeroPower (.finite .zero)).unsignExponents ∧
      zeroPower (.finite Number.zero.neg) ≠ zeroPower (.finite .zero) := by
  have hsigned : parse "x^-0+(2)" = .ok (zeroPower (.finite Number.zero.neg)) := by decide +kernel
  have hplain : parse "x^00+(2)" = .ok (zeroPower (.finite .zero)) := by decide +kernel
  have houtline : (zeroPower (.finite Number.zero.neg)).outline =
      (zeroPower (.finite .zero)).outline := by decide +kernel
  exact ⟨hsigned, hplain, houtline,
    (outline_eq_iff_of_parse _ _ _ _ hsigned hplain).mp houtline, by decide⟩

end Expr

end SchoolAlgebra
