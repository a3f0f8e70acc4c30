import SchoolAlgebra.Proofs.Token.Longest
import SchoolAlgebra.Token.Display

/-!
# What the tokens of a source do not show

A multiplication can be written in three ways and a division in two, and a character that belongs to
no word can be any other such character. The tokens of a source show neither: a source with such
characters put for each other has the same tokens at the same places.

All characters that may stand for each other have one plain spelling, and scanning finds the same in
a text as in its plain spelling. In particular the display glyphs of the operators can be written
into the source where the operators stand. That is one change to each character by itself, since an
operator takes one character and nothing else is displayed as one.

## Main definitions

* `Lexeme.IsInert` — the character belongs to no word
* `Lexeme.Interchangeable` — two characters may stand for each other
* `Token.withGlyphs` — a source with the displayed operators written into it

## Main results

* `Token.scanFrom_map_plain` — scanning a text in its plain spelling
* `Token.toList_withGlyphs` — which characters the displayed operators change
* `Token.scan_eq_of_interchangeable` — sources with the same tokens
-/

namespace SchoolAlgebra

namespace Lexeme

variable {c d : Char}

/-- The character can stand in no word: it is no digit, no letter, no point and no sign. -/
def IsInert (c : Char) : Prop :=
  c.isDigit = false ∧ c.isAlpha = false ∧ c ≠ '.' ∧ c ∉ signs

instance : DecidablePred IsInert := fun c =>
  inferInstanceAs (Decidable (c.isDigit = false ∧ c.isAlpha = false ∧ c ≠ '.' ∧ c ∉ signs))

/-- Two characters that may stand for each other in a source. -/
inductive Interchangeable : Char → Char → Prop where
  | same (c : Char) : Interchangeable c c
  | multiply {c d : Char} (hc : c ∈ ['*', '×', '·']) (hd : d ∈ ['*', '×', '·']) :
    Interchangeable c d
  | divide {c d : Char} (hc : c ∈ ['/', '÷']) (hd : d ∈ ['/', '÷']) : Interchangeable c d
  | inert {c d : Char} (hc : IsInert c) (hd : IsInert d) : Interchangeable c d

/-! ### The plain spelling

To compare two texts it is enough to compare each with its plain spelling. A property of characters
that does not tell apart signs of one operator, nor inert characters, is the same for a character
and its plain spelling. -/

/-- The character that all those are spelled with that it may stand for: a blank for an inert one,
and the ASCII symbol of an operator. -/
def plain (c : Char) : Char := if IsInert c then ' ' else asciiGlyph c

theorem plain_of_isInert (h : IsInert c) : plain c = ' ' := if_pos h

/-- A character that is no sign but stands in words is spelled as it is. -/
theorem plain_eq_self (h : c.isDigit = true ∨ c.isAlpha = true ∨ c = '.') : plain c = c := by
  have hinert : ¬ IsInert c := by
    rintro ⟨hdigit, halpha, hpoint, -⟩
    simp [hdigit, halpha, hpoint] at h
  have hself : [c].map asciiGlyph = [c] := map_asciiGlyph (by simpa using h)
  rw [plain, if_neg hinert]
  exact (List.cons.inj hself).1

/-- A character is inert, or a sign, or spelled as it is. -/
theorem isInert_or_mem_signs_or (c : Char) :
    IsInert c ∨ c ∈ signs ∨ c.isDigit = true ∨ c.isAlpha = true ∨ c = '.' := by
  by_cases hsign : c ∈ signs
  · exact .inr (.inl hsign)
  · by_cases hword : c.isDigit = true ∨ c.isAlpha = true ∨ c = '.'
    · exact .inr (.inr hword)
    · simp only [not_or, Bool.not_eq_true] at hword
      exact .inl ⟨hword.1, hword.2.1, hword.2.2, hsign⟩

/-- What does not depend on the spelling of signs and of inert characters does not depend on the
spelling at all. -/
theorem eq_of_plain {α : Type} (f : Char → α) (hsigns : signs.map (f ∘ plain) = signs.map f)
    (hinert : ∀ c, IsInert c → f c = f ' ') (c : Char) : f (plain c) = f c := by
  obtain h | h | h := isInert_or_mem_signs_or c
  · rw [plain_of_isInert h, hinert c h]
  · exact List.map_inj_left.mp hsigns c h
  · rw [plain_eq_self h]

theorem isDigit_plain (c : Char) : (plain c).isDigit = c.isDigit :=
  eq_of_plain Char.isDigit (by decide) (fun _ h => h.1) c

theorem isAlpha_plain (c : Char) : (plain c).isAlpha = c.isAlpha :=
  eq_of_plain Char.isAlpha (by decide) (fun _ h => h.2.1) c

theorem ofChar?_plain (c : Char) : ofChar? (plain c) = ofChar? c := by
  refine eq_of_plain ofChar? (by decide) (fun c h => ?_) c
  cases hc : ofChar? c with
  | none => rfl
  | some l => exact absurd (of_ofChar?_eq_some hc).1 h.2.2.2

theorem plain_eq_point_iff : plain c = '.' ↔ c = '.' := by
  have h := eq_of_plain (fun c => decide (c = '.')) (by decide)
    (fun _ h => by simpa using h.2.2.1) c
  simpa using h

theorem Interchangeable.plain_eq (h : Interchangeable c d) : plain c = plain d := by
  have hmultiply : ∀ c ∈ ['*', '×', '·'], plain c = '*' :=
    List.map_inj_left.mp (by decide)
  have hdivide : ∀ c ∈ ['/', '÷'], plain c = '/' := List.map_inj_left.mp (by decide)
  cases h with
  | same => rfl
  | multiply hc hd => rw [hmultiply c hc, hmultiply d hd]
  | divide hc hd => rw [hdivide c hc, hdivide d hd]
  | inert hc hd => rw [plain_of_isInert hc, plain_of_isInert hd]

/-! ### Words in the plain spelling

Runs of digits and letters are spelled as they are, and end at the same place. So a word is found in
the plain spelling exactly where it is found in the text, and it is the same lexeme. -/

variable {p : Char → Bool} {chars : List Char}

theorem map_plain (h : ∀ c ∈ chars, c.isDigit = true ∨ c.isAlpha = true ∨ c = '.') :
    chars.map plain = chars := by
  rw [List.map_congr_left fun c hc => plain_eq_self (h c hc), List.map_id']

/-- A run of characters of a class that words are made of is spelled as it is. -/
theorem takeWhile_map_plain (hp : ∀ c, p (plain c) = p c)
    (hself : ∀ c, p c = true → c.isDigit = true ∨ c.isAlpha = true ∨ c = '.') (chars : List Char) :
    (chars.map plain).takeWhile p = chars.takeWhile p := by
  rw [List.takeWhile_map, funext (f := p ∘ plain) (g := p) hp]
  exact map_plain fun c hc => hself c (List.mem_takeWhile_imp hc)

theorem dropWhile_map_plain (hp : ∀ c, p (plain c) = p c) (chars : List Char) :
    (chars.map plain).dropWhile p = (chars.dropWhile p).map plain := by
  rw [List.dropWhile_map, funext (f := p ∘ plain) (g := p) hp]

theorem takeWhile_isDigit_map_plain (chars : List Char) :
    (chars.map plain).takeWhile Char.isDigit = chars.takeWhile Char.isDigit :=
  takeWhile_map_plain isDigit_plain (fun _ => .inl) chars

theorem takeWhile_isAlpha_map_plain (chars : List Char) :
    (chars.map plain).takeWhile Char.isAlpha = chars.takeWhile Char.isAlpha :=
  takeWhile_map_plain isAlpha_plain (fun _ h => .inr (.inl h)) chars

theorem pointPart_map_plain (chars : List Char) :
    pointPart (chars.map plain) = pointPart chars := by
  cases chars with
  | nil => rfl
  | cons c rest =>
    rw [List.map_cons]
    by_cases hc : c = '.'
    · rw [hc, plain_eq_point_iff.mpr rfl]
      simp only [pointPart, takeWhile_isDigit_map_plain]
    · rw [pointPart_of_ne hc, pointPart_of_ne (mt plain_eq_point_iff.mp hc)]

theorem numeralPart_map_plain (chars : List Char) :
    numeralPart (chars.map plain) = numeralPart chars := by
  rw [numeralPart_eq_append, numeralPart_eq_append, takeWhile_isDigit_map_plain,
    dropWhile_map_plain isDigit_plain, pointPart_map_plain]

theorem namePart_map_plain (chars : List Char) : namePart (chars.map plain) = namePart chars := by
  rw [namePart, namePart, takeWhile_isAlpha_map_plain, dropWhile_map_plain isAlpha_plain,
    takeWhile_isDigit_map_plain]

/-- The word at the start of a text is found in the plain spelling too. -/
theorem longest?_map_plain (chars : List Char) : longest? (chars.map plain) = longest? chars := by
  have hhead : ((chars.map plain).head? >>= ofChar?) = (chars.head? >>= ofChar?) := by
    cases chars with
    | nil => rfl
    | cons c rest => exact ofChar?_plain c
  unfold longest?
  rw [numeralPart_map_plain, namePart_map_plain, hhead]

end Lexeme

namespace Token

open Lexeme

theorem ofLexeme_map_plain (l : Lexeme) (offset length : Nat) (following : List Char) :
    ofLexeme l offset length (following.map plain) = ofLexeme l offset length following := by
  have hletter : (following.map plain).head?.any Char.isAlpha =
      following.head?.any Char.isAlpha := by
    cases following with
    | nil => rfl
    | cons c rest => exact isAlpha_plain c
  rw [ofLexeme, ofLexeme, hletter]

/-- **Scanning does not look at the spelling.** -/
theorem scanFrom_map_plain (offset skip : Nat) (chars : List Char) :
    scanFrom offset skip (chars.map plain) = scanFrom offset skip chars := by
  induction chars generalizing offset skip with
  | nil => rfl
  | cons c rest ih =>
    cases skip with
    | succ skip => exact ih (offset + 1) skip
    | zero =>
      have hlongest := longest?_map_plain (c :: rest)
      rw [List.map_cons] at hlongest ⊢
      rw [scanFrom, scanFrom, hlongest]
      cases longest? (c :: rest) with
      | none => exact ih (offset + 1) 0
      | some found =>
        dsimp only
        rw [ih, ← List.map_cons, ← List.map_drop, ofLexeme_map_plain]

/-- Texts whose characters may stand for each other have the same plain spelling. -/
theorem map_plain_eq_of_forall₂ {chars others : List Char}
    (h : List.Forall₂ Interchangeable chars others) : chars.map plain = others.map plain := by
  induction h with
  | nil => rfl
  | cons hc _ ih => rw [List.map_cons, List.map_cons, hc.plain_eq, ih]

theorem scan_eq_of_forall₂ {source other : String}
    (h : List.Forall₂ Interchangeable source.toList other.toList) : scan source = scan other := by
  rw [scan, ← scanFrom_map_plain, map_plain_eq_of_forall₂ h, scanFrom_map_plain, scan]

/-! ### Displayed operators

Writing the glyphs into a source could shift what stands behind them. It does not, because an
operator is one character and so is its glyph, and each glyph may stand for what it is written over.
-/

/-- The text with a word written over a span of it. -/
def overwrite (text : List Char) (a : Span) (word : List Char) : List Char :=
  text.take a.start ++ word ++ text.drop a.stop

/-- The operators among the tokens that an editor shows. -/
def displayedOperators (tokens : List Token) : List DisplayToken :=
  (display tokens).filter (·.kind = .operator)

/-- The text with some displayed tokens written into it where they stand. -/
def writeInto (text : List Char) (shown : List DisplayToken) : List Char :=
  shown.foldl (fun text t => overwrite text t.span t.text.toList) text

/-- The source with every displayed operator written into it where it stands. -/
def withGlyphs (source : String) : String :=
  String.ofList (writeInto source.toList (displayedOperators (scan source)))

/-- The display glyph of a character that is an operator; any other character is left as it is. -/
def displayGlyph : Char → Char
  | '*' | '·' => '×'
  | '/' => '÷'
  | c => c

theorem interchangeable_displayGlyph (c : Char) : Interchangeable c (displayGlyph c) := by
  unfold displayGlyph
  split
  · exact .multiply (by decide) (by decide)
  · exact .multiply (by decide) (by decide)
  · exact .divide (by decide) (by decide)
  · exact .same _

/-- An operator is displayed as the glyph of the character that it is read from. -/
theorem toList_glyph_of_ofChar? {c : Char} {op : Operator} (h : Operator.ofChar? c = some op) :
    op.glyph.toList = [displayGlyph c] := by
  unfold Operator.ofChar? at h
  split at h <;> cases h <;> rfl

theorem displayGlyph_of_ofChar?_eq_none {c : Char} (h : Operator.ofChar? c = none) :
    displayGlyph c = c := by
  unfold displayGlyph
  split <;> first | rfl | cases h

/-- A character at which no word begins is no operator. -/
theorem operator_eq_none_of_longest? {c : Char} {rest : List Char}
    (h : longest? (c :: rest) = none) : Operator.ofChar? c = none := by
  by_contra hne
  obtain ⟨op, hop⟩ := Option.ne_none_iff_exists'.mp hne
  have hsign : ofChar? c = some (.operator op) := by
    unfold Operator.ofChar? at hop
    split at hop <;> cases hop <;> rfl
  exact not_readableAt_zero h ⟨c, rfl, .inr (.inr (.inl (of_ofChar?_eq_some hsign).1))⟩

/-- Numerals and names are displayed as they are. -/
theorem map_displayGlyph {word : List Char}
    (h : ∀ c ∈ word, c.isDigit = true ∨ c.isAlpha = true ∨ c = '.') :
    word.map displayGlyph = word := by
  have hself : ∀ c ∈ word, displayGlyph c = id c := by
    intro c hc
    have hc := h c hc
    unfold displayGlyph
    split <;> first | rfl | exact absurd hc (by decide)
  rw [List.map_congr_left hself, List.map_id]

/-! ### Writing the displayed operators into a source

The tokens are written one after the other into a text that they share. The induction is along the
words, with the text in front already written, and shows that every character is changed by itself.
-/

variable {chars : List Char} {l : Lexeme} {length : Nat} {t : Token}

theorem displayedOperators_append (ts us : List Token) :
    displayedOperators (ts ++ us) = displayedOperators ts ++ displayedOperators us := by
  simp [displayedOperators, display]

theorem displayedOperators_of_isImplicitMultiply (h : t.isImplicitMultiply = true) :
    displayedOperators [t] = [] := by
  simp [displayedOperators, display, display?, h]

theorem displayedOperators_singleton (h : t.isImplicitMultiply = false) :
    displayedOperators [t] = match t.lexeme with
      | .operator op => [⟨.operator, op.glyph, t.span, none⟩]
      | _ => [] := by
  obtain ⟨l, a⟩ := t
  cases l <;>
    simp [displayedOperators, display, display?, h, displayKind?, displayText, Lexeme.value?]

theorem displayedOperators_implied (l : Lexeme) (stop : Nat) (following : List Char) :
    displayedOperators (implied l stop following) = [] := by
  unfold implied
  split
  · exact displayedOperators_of_isImplicitMultiply (by simp [isImplicitMultiply, Span.isEmpty])
  · rfl

/-- What a word is displayed as is written over it: its operator, if it is one. -/
theorem writeInto_word (h : longest? chars = some (l, length)) (before : List Char) :
    writeInto (before ++ chars)
        (displayedOperators [⟨l, ⟨before.length, before.length + length⟩⟩]) =
      before ++ (chars.take length).map displayGlyph ++ chars.drop length := by
  have hpos := (length_of_longest? h).1
  have himplicit : isImplicitMultiply ⟨l, ⟨before.length, before.length + length⟩⟩ = false := by
    simpa [isImplicitMultiply, Span.isEmpty] using fun _ => Nat.ne_of_gt hpos
  have hkept {word : List Char} (hword : word <+: chars) (hlength : length = word.length)
      (hclass : ∀ c ∈ word, c.isDigit = true ∨ c.isAlpha = true ∨ c = '.') :
      before ++ chars =
        before ++ (chars.take length).map displayGlyph ++ chars.drop length := by
    rw [hlength, ← List.prefix_iff_eq_take.mp hword, map_displayGlyph hclass, List.append_assoc]
    exact congrArg (before ++ ·) (List.prefix_append_drop hword)
  rw [displayedOperators_singleton himplicit]
  obtain ⟨hne, ⟨value, rfl⟩, hlength⟩ | ⟨hne, rfl, hlength⟩ | ⟨c, rest, rfl, hc, rfl⟩ :=
    longest?_eq_some_cases h
  · exact hkept (prefix_numeralPart chars) hlength (isNumeral_numeralPart hne).forall_mem
  · exact hkept (prefix_namePart chars) hlength
      fun c hc => (forall_mem_of_isName (isName_namePart hne) c hc).imp_right .inl
  · unfold ofChar? at hc
    split at hc
    case h_4 =>
      obtain ⟨op, hop, rfl⟩ := Option.map_eq_some_iff.mp hc
      simp [writeInto, overwrite, toList_glyph_of_ofChar? hop, List.drop_append]
    all_goals
      cases hc
      simp [writeInto, displayGlyph]

/-- The displayed operators of a text that stands behind another change each of its characters to
its glyph. -/
theorem writeInto_scanFrom (before chars : List Char) :
    writeInto (before ++ chars) (displayedOperators (scanFrom before.length 0 chars)) =
      before ++ chars.map displayGlyph := by
  generalize hoffset : before.length = offset
  induction offset, chars using scan_induction generalizing before with
  | nil offset => rfl
  | skip offset c rest hnone ih =>
    have hc : Operator.ofChar? c = none := operator_eq_none_of_longest? hnone
    rw [scanFrom_cons_of_longest?_eq_none hnone, List.map_cons, displayGlyph_of_ofChar?_eq_none hc,
      List.append_cons before c rest, List.append_cons before c (rest.map displayGlyph)]
    exact ih (before ++ [c]) (by simp [hoffset])
  | word offset chars l length hsome ih =>
    subst hoffset
    have hle := (length_of_longest? hsome).2
    have hchars : chars.map displayGlyph =
        (chars.take length).map displayGlyph ++ (chars.drop length).map displayGlyph := by
      rw [← List.map_append, List.take_append_drop]
    rw [scanFrom_of_longest?_eq_some hsome, ofLexeme_eq_cons, ← List.singleton_append,
      displayedOperators_append, displayedOperators_append, displayedOperators_implied,
      List.append_nil, writeInto, List.foldl_append]
    have hword := writeInto_word hsome before
    rw [writeInto] at hword
    rw [hword, hchars, ← List.append_assoc]
    refine ih (before ++ (chars.take length).map displayGlyph) ?_
    simp [hle]

/-- Writing the displayed operators into a source changes each character to its glyph. -/
theorem toList_withGlyphs (source : String) :
    (withGlyphs source).toList = source.toList.map displayGlyph := by
  rw [withGlyphs, String.toList_ofList]
  exact writeInto_scanFrom [] source.toList

theorem forall₂_withGlyphs (source : String) :
    List.Forall₂ Interchangeable source.toList (withGlyphs source).toList := by
  rw [toList_withGlyphs, List.forall₂_map_right_iff, List.forall₂_same]
  exact fun c _ => interchangeable_displayGlyph c

/-- **The tokens of a source do not show how operators are written, nor which characters are passed
over.** Let two sources be of the same length and have at each offset the same character, or two
characters that may stand for each other: two signs of multiplication, two of division, or two that
stand in no word. Then they have the same tokens. In particular a source has the same tokens, and
they are displayed the same, after the displayed operators are written into it. -/
theorem scan_eq_of_interchangeable (source : String) :
    (∀ other : String, List.Forall₂ Interchangeable source.toList other.toList →
        scan other = scan source) ∧
      scan (withGlyphs source) = scan source ∧
        display (scan (withGlyphs source)) = display (scan source) := by
  have hglyphs : scan (withGlyphs source) = scan source :=
    (scan_eq_of_forall₂ (forall₂_withGlyphs source)).symm
  exact ⟨fun other h => (scan_eq_of_forall₂ h).symm, hglyphs, congrArg display hglyphs⟩

/-- The sources `3x*.5 ?/y` and `3x·.5\t#÷y` have the same tokens, and so has the first one with its
operators written as they are displayed. -/
theorem scan_eq_of_interchangeable_looseProduct :
    List.Forall₂ Interchangeable "3x*.5 ?/y".toList "3x·.5\t#÷y".toList ∧
      scan "3x·.5\t#÷y" = scan "3x*.5 ?/y" ∧ withGlyphs "3x*.5 ?/y" = "3x×.5 ?÷y" ∧
        scan "3x×.5 ?÷y" = scan "3x*.5 ?/y" := by
  have hsource : "3x*.5 ?/y".toList = ['3', 'x', '*', '.', '5', ' ', '?', '/', 'y'] := by decide
  have hother : "3x·.5\t#÷y".toList = ['3', 'x', '·', '.', '5', '\t', '#', '÷', 'y'] := by decide
  have hsame : List.Forall₂ Interchangeable "3x*.5 ?/y".toList "3x·.5\t#÷y".toList := by
    rw [hsource, hother]
    exact .cons (.same _) <| .cons (.same _) <| .cons (.multiply (by decide) (by decide)) <|
      .cons (.same _) <| .cons (.same _) <| .cons (.inert (by decide) (by decide)) <|
      .cons (.inert (by decide) (by decide)) <| .cons (.divide (by decide) (by decide)) <|
      .cons (.same _) .nil
  have hglyphs : withGlyphs "3x*.5 ?/y" = "3x×.5 ?÷y" := by decide +kernel
  obtain ⟨hscan, hwritten, -⟩ := scan_eq_of_interchangeable "3x*.5 ?/y"
  exact ⟨hsame, hscan _ hsame, hglyphs, hglyphs ▸ hwritten⟩

end Token

end SchoolAlgebra
