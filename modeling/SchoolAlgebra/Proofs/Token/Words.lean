import Mathlib
import SchoolAlgebra.Proofs.Decimal.Numeral
import SchoolAlgebra.Proofs.ForMathlib.List
import SchoolAlgebra.Proofs.Token.Scanning

/-!
# Texts that are put together from words

A text that was put together from words is scanned into the lexemes of the words. Where one lexeme
ends is decided by the character after it, so a word is scanned by itself only if what follows does
not continue it: `ScansAs` says what a text is scanned as in front of every delimiter.

## Delimiters

What may follow a word without being taken for part of it depends on the kind of the word: behind a
numeral neither a digit nor a point, behind a name neither a letter nor a digit. A letter behind a
numeral is not taken for part of it, but it implies a multiplication. One notion of a delimiter,
which excludes all of these, is enough for all words, and whatever text is put together from words
and signs ends in front of one.

## Main definitions

* `Lexeme.scan` — the lexemes of a text, the end of the source last
* `Delimited` — nothing that could continue a numeral or a name stands at the start
* `ScansAs` — what a text is scanned as in front of a delimiter
* `IsName` — letters, then digits

## Main results

* `scansAs_numeral`, `scansAs_name`, `ScansAs.cons_symbol` — single words
* `ScansAs.append`, `ScansAs.parenthesized`, `ScansAs.operation` — texts that are put together
* `isName_of_mem_scan` — the names that scanning finds
-/

namespace SchoolAlgebra

/-! ### Characters -/

theorem isDigit_eq_false_of_isAlpha {c : Char} (h : c.isAlpha = true) : c.isDigit = false := by
  simp only [Char.isAlpha, Char.isUpper, Char.isLower, Bool.or_eq_true, Bool.and_eq_true,
    decide_eq_true_eq, ge_iff_le, UInt32.le_iff_toNat_le] at h
  simp only [Char.isDigit, Bool.and_eq_false_iff, decide_eq_false_iff_not, ge_iff_le,
    UInt32.le_iff_toNat_le, not_le]
  have hA : 'A'.val.toNat = 65 := rfl
  have ha : 'a'.val.toNat = 97 := rfl
  have h9 : '9'.val.toNat = 57 := rfl
  omega

theorem isAlpha_eq_false_of_isDigit {c : Char} (h : c.isDigit = true) : c.isAlpha = false := by
  by_contra halpha
  rw [isDigit_eq_false_of_isAlpha (Bool.not_eq_false _ ▸ halpha)] at h
  cases h

theorem ne_point_of_isAlpha {c : Char} (h : c.isAlpha = true) : c ≠ '.' := by
  rintro rfl
  exact absurd h (by decide)

/-! ### The lexemes of a text

The lexemes do not depend on where a text stands. They are defined by scanning from the start, and
the equations for them are those of scanning without the offsets. -/

/-- The lexemes of a text, the end of the source last. -/
def Lexeme.scan (chars : List Char) : List Lexeme := (Token.scanFrom 0 0 chars).map Token.lexeme

namespace Token

/-- The lexemes of a word with what it implies before the text that follows. -/
def lexemesOf (lexeme : Lexeme) (following : List Char) : List Lexeme :=
  lexeme ::
    if lexeme.isNumber && following.head?.any Char.isAlpha then [.operator .multiply] else []

theorem map_lexeme_ofLexeme (lexeme : Lexeme) (offset length : Nat) (following : List Char) :
    (ofLexeme lexeme offset length following).map Token.lexeme = lexemesOf lexeme following := by
  simp only [ofLexeme, lexemesOf, List.map_cons]
  split <;> rfl

/-- The lexemes do not depend on where a text stands. -/
theorem map_lexeme_scanFrom (offset : Nat) (chars : List Char) :
    (scanFrom offset 0 chars).map Token.lexeme = Lexeme.scan chars := by
  rw [← Nat.zero_add offset, scanFrom_add, List.map_map]
  rfl

end Token

namespace Lexeme

@[simp] theorem scan_nil : scan [] = [.finish] := rfl

theorem scan_cons_of_longest?_eq_none {c : Char} {rest : List Char}
    (h : longest? (c :: rest) = none) : scan (c :: rest) = scan rest := by
  rw [scan, Token.scanFrom_cons_of_longest?_eq_none h, Token.map_lexeme_scanFrom]

/-- A word is read as a whole, and scanning goes on behind it. -/
theorem scan_of_longest?_eq_some {chars : List Char} {l : Lexeme} {length : Nat}
    (h : longest? chars = some (l, length)) :
    scan chars = Token.lexemesOf l (chars.drop length) ++ scan (chars.drop length) := by
  rw [scan, Token.scanFrom_of_longest?_eq_some h, List.map_append, Token.map_lexeme_ofLexeme,
    Token.map_lexeme_scanFrom]

end Lexeme

/-! ### Delimiters -/

/-- Neither a letter nor a digit nor a point stands at the start of the text. -/
def Delimited (chars : List Char) : Prop :=
  ∀ c, chars.head? = some c → c.isAlpha = false ∧ c.isDigit = false ∧ c ≠ '.'

theorem delimited_nil : Delimited [] := nofun

theorem delimited_cons {c : Char} (halpha : c.isAlpha = false) (hdigit : c.isDigit = false)
    (hpoint : c ≠ '.') (rest : List Char) : Delimited (c :: rest) := by
  intro c' hc'
  cases hc'
  exact ⟨halpha, hdigit, hpoint⟩

/-! ### Numerals -/

namespace Numeral

/-- The lexeme of a numeral. -/
def lexeme (n : Numeral) : Lexeme := .number (String.ofList n.text) n.decimal.toBinary64

theorem text_ne_nil (n : Numeral) : n.text ≠ [] := by
  simp [text, n.whole_ne_nil]

theorem numeralPart_append (n : Numeral) {rest : List Char}
    (hrest : ∀ c, rest.head? = some c → c.isDigit = false ∧ c ≠ '.') :
    Lexeme.numeralPart (n.text ++ rest) = n.text := by
  have hdigit : ∀ c, rest.head? = some c → c.isDigit = false := fun c hc => (hrest c hc).1
  rcases eq_or_ne n.fraction [] with hnil | hne
  · rw [text_of_fraction_eq_nil hnil, Lexeme.numeralPart,
      takeWhile_append_of_head? n.isDigit_whole hdigit,
      dropWhile_append_of_head? n.isDigit_whole hdigit]
    split
    · next tail => exact absurd rfl (hrest '.' rfl).2
    · rfl
  · have hpoint : ∀ c, ('.' :: n.fraction ++ rest).head? = some c → c.isDigit = false := by
      rintro c hc
      cases hc
      rfl
    rw [text_of_fraction_ne_nil hne, List.append_assoc, Lexeme.numeralPart,
      takeWhile_append_of_head? n.isDigit_whole hpoint,
      dropWhile_append_of_head? n.isDigit_whole hpoint]
    simp only [List.cons_append]
    rw [takeWhile_append_of_head? n.isDigit_fraction hdigit]
    split
    · next heq => exact absurd heq hne
    · rfl

/-- A numeral is the longest word at its place unless a digit or a point follows. -/
theorem longest?_append (n : Numeral) {rest : List Char}
    (hrest : ∀ c, rest.head? = some c → c.isDigit = false ∧ c ≠ '.') :
    Lexeme.longest? (n.text ++ rest) = some (n.lexeme, n.text.length) := by
  have hnumeral := n.numeralPart_append hrest
  have hne : Lexeme.numeralPart (n.text ++ rest) ≠ [] := by
    rw [hnumeral]
    exact n.text_ne_nil
  rw [Lexeme.longest?_of_numeralPart_ne_nil hne, hnumeral, ofNumeral_text, lexeme]

theorem scan_append (n : Numeral) {rest : List Char}
    (hrest : ∀ c, rest.head? = some c → c.isDigit = false ∧ c ≠ '.') :
    Lexeme.scan (n.text ++ rest) = Token.lexemesOf n.lexeme rest ++ Lexeme.scan rest := by
  rw [Lexeme.scan_of_longest?_eq_some (n.longest?_append hrest), List.drop_left]

end Numeral

/-! ### Names -/

/-- Letters, then digits. -/
def IsName (chars : List Char) : Prop :=
  ∃ letters digits : List Char, letters ≠ [] ∧ (∀ c ∈ letters, c.isAlpha = true) ∧
    (∀ c ∈ digits, c.isDigit = true) ∧ chars = letters ++ digits

/-- A text that starts with neither a digit nor a point starts with no numeral. -/
theorem numeralPart_eq_nil {c : Char} (hdigit : c.isDigit = false) (hpoint : c ≠ '.')
    (rest : List Char) : Lexeme.numeralPart (c :: rest) = [] := by
  rw [Lexeme.numeralPart, List.takeWhile_cons_of_neg (by simp [hdigit]),
    List.dropWhile_cons_of_neg (by simp [hdigit])]
  split
  · next heq => exact absurd (List.cons.inj heq).1 hpoint
  · rfl

theorem namePart_eq_nil {c : Char} (halpha : c.isAlpha = false) (rest : List Char) :
    Lexeme.namePart (c :: rest) = [] := by
  rw [Lexeme.namePart, List.takeWhile_cons_of_neg (by simp [halpha])]

/-- A name is the longest word at its place unless a letter or a digit follows. -/
theorem IsName.longest?_append {chars rest : List Char} (h : IsName chars)
    (hrest : Delimited rest) :
    Lexeme.longest? (chars ++ rest) = some (.name (String.ofList chars), chars.length) := by
  obtain ⟨letters, digits, hne, hletters, hdigits, rfl⟩ := h
  have hnoAlpha : ∀ c, (digits ++ rest).head? = some c → c.isAlpha = false := by
    intro c hc
    cases digits with
    | nil => exact (hrest c hc).1
    | cons d digits =>
      cases hc
      exact isAlpha_eq_false_of_isDigit (hdigits _ List.mem_cons_self)
  have hname : Lexeme.namePart (letters ++ digits ++ rest) = letters ++ digits := by
    have htake := takeWhile_append_of_head? hletters hnoAlpha
    rw [List.append_assoc, Lexeme.namePart_eq_append (htake.trans_ne hne), htake,
      dropWhile_append_of_head? hletters hnoAlpha,
      takeWhile_append_of_head? hdigits fun c hc => (hrest c hc).2.1]
  have hnumeral : Lexeme.numeralPart (letters ++ digits ++ rest) = [] := by
    cases letters with
    | nil => exact absurd rfl hne
    | cons c letters =>
      have halpha := hletters c List.mem_cons_self
      exact numeralPart_eq_nil (isDigit_eq_false_of_isAlpha halpha) (ne_point_of_isAlpha halpha) _
  have hnameNe : Lexeme.namePart (letters ++ digits ++ rest) ≠ [] := by
    rw [hname]
    exact List.append_ne_nil_of_left_ne_nil hne digits
  rw [Lexeme.longest?_of_namePart_ne_nil hnumeral hnameNe, hname]

/-! ### Texts that are put together

A sign is a lexeme by itself, whatever follows, and it is a delimiter for what stands before it. So
signs can be put before, between and around texts that are scanned as known. -/

/-- In front of every delimiter the text is scanned as these lexemes. -/
def ScansAs (chars : List Char) (ls : List Lexeme) : Prop :=
  ∀ rest, Delimited rest → Lexeme.scan (chars ++ rest) = ls ++ Lexeme.scan rest

theorem ScansAs.scan_eq {chars : List Char} {ls : List Lexeme} (h : ScansAs chars ls) :
    Lexeme.scan chars = ls ++ [.finish] := by
  have hscan := h [] delimited_nil
  rwa [List.append_nil, Lexeme.scan_nil] at hscan

theorem scansAs_numeral (n : Numeral) : ScansAs n.text [n.lexeme] := by
  intro rest hrest
  rw [n.scan_append fun c hc => (hrest c hc).2, Token.lexemesOf]
  have halpha : rest.head?.any Char.isAlpha = false := by
    rw [Option.any_eq_false]
    intro c hc
    simp [(hrest c hc).1]
  rw [halpha, Bool.and_false]
  rfl

theorem scansAs_name {chars : List Char} (h : IsName chars) :
    ScansAs chars [.name (String.ofList chars)] := by
  intro rest hrest
  rw [Lexeme.scan_of_longest?_eq_some (h.longest?_append hrest), List.drop_left]
  rfl

/-- A character that is a lexeme by itself is read whatever follows. -/
theorem scan_cons_symbol {c : Char} {l : Lexeme} (h : Lexeme.ofChar? c = some l)
    (halpha : c.isAlpha = false) (hdigit : c.isDigit = false) (hpoint : c ≠ '.')
    (rest : List Char) : Lexeme.scan (c :: rest) = l :: Lexeme.scan rest := by
  have hlongest : Lexeme.longest? (c :: rest) = some (l, 1) := by
    rw [Lexeme.longest?_of_eq_nil (numeralPart_eq_nil hdigit hpoint rest)
      (namePart_eq_nil halpha rest)]
    simp [h]
  rw [Lexeme.scan_of_longest?_eq_some hlongest, Token.lexemesOf,
    (Lexeme.ne_number_of_ofChar? h).1]
  rfl

@[simp] theorem scan_cons_blank (rest : List Char) :
    Lexeme.scan (' ' :: rest) = Lexeme.scan rest := by
  apply Lexeme.scan_cons_of_longest?_eq_none
  rw [Lexeme.longest?_of_eq_nil (numeralPart_eq_nil rfl (by decide) rest)
    (namePart_eq_nil rfl rest)]
  rfl

@[simp] theorem scan_cons_minus (rest : List Char) :
    Lexeme.scan ('-' :: rest) = .operator .subtract :: Lexeme.scan rest :=
  scan_cons_symbol rfl rfl rfl (by decide) rest

@[simp] theorem scan_cons_caret (rest : List Char) :
    Lexeme.scan ('^' :: rest) = .caret :: Lexeme.scan rest :=
  scan_cons_symbol rfl rfl rfl (by decide) rest

@[simp] theorem scan_cons_leftParen (rest : List Char) :
    Lexeme.scan ('(' :: rest) = .leftParen :: Lexeme.scan rest :=
  scan_cons_symbol rfl rfl rfl (by decide) rest

@[simp] theorem scan_cons_rightParen (rest : List Char) :
    Lexeme.scan (')' :: rest) = .rightParen :: Lexeme.scan rest :=
  scan_cons_symbol rfl rfl rfl (by decide) rest

/-- The glyph of an operator is scanned as the operator. -/
theorem scan_glyph_append (op : Operator) (rest : List Char) :
    Lexeme.scan (op.glyph.toList ++ rest) = .operator op :: Lexeme.scan rest := by
  cases op <;> exact scan_cons_symbol rfl rfl rfl (by decide) rest

namespace ScansAs

variable {a b : List Char} {as bs : List Lexeme}

theorem cons_minus (h : ScansAs a as) : ScansAs ('-' :: a) (.operator .subtract :: as) := by
  intro rest hrest
  rw [List.cons_append, scan_cons_minus, h rest hrest, List.cons_append]

theorem parenthesized (h : ScansAs a as) :
    ScansAs ('(' :: (a ++ [')'])) (.leftParen :: (as ++ [.rightParen])) := by
  intro rest hrest
  have hdelimited : Delimited (')' :: rest) := delimited_cons rfl rfl (by decide) rest
  rw [List.cons_append, scan_cons_leftParen, List.append_assoc, List.singleton_append,
    h _ hdelimited, scan_cons_rightParen]
  simp

theorem raised (ha : ScansAs a as) (hb : ScansAs b bs) :
    ScansAs (a ++ '^' :: b) (as ++ .caret :: bs) := by
  intro rest hrest
  have hdelimited : Delimited ('^' :: (b ++ rest)) := delimited_cons rfl rfl (by decide) _
  rw [List.append_assoc, List.cons_append, ha _ hdelimited, scan_cons_caret, hb rest hrest]
  simp

/-- An operator stands between blanks. -/
theorem operation (op : Operator) (ha : ScansAs a as) (hb : ScansAs b bs) :
    ScansAs (a ++ ' ' :: (op.glyph.toList ++ ' ' :: b)) (as ++ .operator op :: bs) := by
  intro rest hrest
  have hdelimited : Delimited (' ' :: (op.glyph.toList ++ ' ' :: b ++ rest)) :=
    delimited_cons rfl rfl (by decide) _
  rw [List.append_assoc, List.cons_append, ha _ hdelimited, scan_cons_blank, List.append_assoc,
    scan_glyph_append, List.cons_append, scan_cons_blank, hb rest hrest]
  simp

end ScansAs

/-! ### The names that are found -/

theorem isName_namePart {chars : List Char} (h : Lexeme.namePart chars ≠ []) :
    IsName (Lexeme.namePart chars) := by
  rw [Lexeme.namePart] at h ⊢
  split at h
  · exact absurd rfl h
  · next hletters =>
    exact ⟨chars.takeWhile Char.isAlpha, (chars.dropWhile Char.isAlpha).takeWhile Char.isDigit,
      hletters, fun c hc => List.mem_takeWhile_imp hc, fun c hc => List.mem_takeWhile_imp hc, rfl⟩

theorem isName_of_longest? {chars : List Char} {name : String} {length : Nat}
    (h : Lexeme.longest? chars = some (.name name, length)) : IsName name.toList := by
  obtain ⟨-, heq⟩ | ⟨-, hne, heq⟩ | ⟨-, -, heq⟩ := Lexeme.longest?_cases chars
  · cases heq.symm.trans h
  · cases heq.symm.trans h
    rw [String.toList_ofList]
    exact isName_namePart hne
  · obtain ⟨l, hl, hpair⟩ := Option.map_eq_some_iff.mp (heq.symm.trans h)
    cases hpair
    obtain ⟨c, -, hc⟩ := Option.bind_eq_some_iff.mp hl
    exact absurd rfl ((Lexeme.ne_number_of_ofChar? hc).2 name)

/-- Every name that scanning finds is letters, then digits. -/
theorem Token.isName_of_mem_scanFrom {name : String} {t : Token} (offset : Nat)
    (chars : List Char) (ht : t ∈ scanFrom offset 0 chars) (hname : t.lexeme = .name name) :
    IsName name.toList := by
  induction offset, chars using scan_induction with
  | nil offset =>
    rw [List.mem_singleton.mp ht] at hname
    cases hname
  | skip offset c rest hnone ih =>
    rw [scanFrom_cons_of_longest?_eq_none hnone] at ht
    exact ih ht
  | word offset chars l length hsome ih =>
    rw [scanFrom_of_longest?_eq_some hsome, ofLexeme_eq_cons] at ht
    rcases List.mem_append.mp ht with ht | ht
    · rcases List.mem_cons.mp ht with rfl | ht
      · obtain rfl : l = .name name := hname
        exact isName_of_longest? hsome
      · rw [eq_of_mem_implied ht] at hname
        cases hname
    · exact ih ht

end SchoolAlgebra
