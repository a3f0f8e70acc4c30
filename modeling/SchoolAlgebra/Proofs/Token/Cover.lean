import SchoolAlgebra.Proofs.Token.Longest
import SchoolAlgebra.Proofs.Token.Order

/-!
# Tokens cover a source

The tokens of a source are laid one behind the other, and together they take up exactly the
characters that can be told to belong to a word. Each of them is spelled as it stands in the source,
with the ASCII symbols for the operators. Numerals and names reach as far as they can.

One token stands for nothing in the source. Between a numeral and a letter right behind it there is
a multiplication without room, and its text is the symbol of the operator all the same.

## What a word is

That a token is the longest word is said without the scanner: it is a numeral, a name or a sign by
the definition of these texts, and no longer stretch of the source from there on is one of the same
kind. Which characters belong to words is said without the scanner too, from a character and the one
behind it.

## Main definitions

* `Token.IsLongest` — a token is spelled as a word of a kind, and nothing longer there is one
* `Token.Covers` — the tokens cover a source

## Main results

* `Token.eq_word_of_mem_scanAt` — a token is the end of the source, implied, or a word
* `Token.covers_scan` — scanning covers the source
-/

namespace SchoolAlgebra

namespace Token

open Lexeme

variable {text : List Char} {k i length : Nat} {l : Lexeme} {t u : Token}

/-! ### Words of a text

Everything that is said of tokens is shown by induction along the words. A character of the text is
passed over, or belongs to the word that is found there, or to the text behind that word. -/

/-- A token is the end of the source, an implied multiplication, or a word that is found at its
start. -/
theorem eq_word_of_mem_scanAt (hk : k ≤ text.length) (ht : t ∈ scanAt text k) :
    t = ⟨.finish, ⟨text.length, text.length⟩⟩ ∨ t.isImplicitMultiply = true ∨
      ∃ length, longest? (text.drop t.span.start) = some (t.lexeme, length) ∧
        t.span.stop = t.span.start + length := by
  induction k, hk using scanAt_induction with
  | stop =>
    rw [scanAt_length] at ht
    exact .inl (List.mem_singleton.mp ht)
  | skip k hlt hnone ih => exact ih (scanAt_of_longest?_eq_none hnone hlt ▸ ht)
  | word k l length hle hsome ih =>
    rw [scanAt_of_longest?_eq_some hsome] at ht
    rcases List.mem_cons.mp ht with rfl | ht
    · exact .inr (.inr ⟨length, hsome, rfl⟩)
    · rcases List.mem_append.mp ht with ht | ht
      · exact .inr (.inl (isImplicitMultiply_of_mem_implied ht))
      · exact ih ht

/-- The characters that tokens take up are those that can be told to belong to a word. -/
theorem exists_mem_scanAt_iff (hk : k ≤ text.length) (hi : k ≤ i) :
    (∃ t ∈ scanAt text k, t.span.start ≤ i ∧ i < t.span.stop) ↔ ReadableAt text i := by
  induction k, hk using scanAt_induction with
  | stop =>
    rw [scanAt_length]
    constructor
    · rintro ⟨t, ht, -, hstop⟩
      rw [List.mem_singleton.mp ht] at hstop
      exact absurd hi (Nat.not_le_of_lt hstop)
    · rintro ⟨c, hc, -⟩
      exact absurd hi (Nat.not_le_of_lt (List.getElem?_eq_some_iff.mp hc).1)
  | skip k hlt hnone ih =>
    rw [scanAt_of_longest?_eq_none hnone hlt]
    rcases Nat.lt_or_eq_of_le hi with hlt' | rfl
    · exact ih hlt'
    · constructor
      · rintro ⟨t, ht, hstart, -⟩
        exact absurd hstart (Nat.not_le_of_lt ((laid_scanAt text _ hlt).of_mem ht).1)
      · intro h
        exact absurd ((readableAt_drop text k 0).mpr h) (not_readableAt_zero hnone)
  | word k l length hle hsome ih =>
    rw [scanAt_of_longest?_eq_some hsome]
    rcases Nat.lt_or_ge i (k + length) with hlt | hge
    · obtain ⟨j, rfl⟩ := Nat.exists_eq_add_of_le hi
      have hreadable : ReadableAt text (k + j) :=
        (readableAt_drop text k j).mp (readableAt_of_longest? hsome (by omega))
      exact iff_of_true ⟨_, List.mem_cons_self, hi, hlt⟩ hreadable
    · rw [← ih hge]
      constructor
      · rintro ⟨t, ht, hstart, hstop⟩
        rcases List.mem_cons.mp ht with rfl | ht
        · exact absurd hstop (Nat.not_lt_of_le hge)
        · rcases List.mem_append.mp ht with ht | ht
          · rw [eq_of_mem_implied ht] at hstart hstop
            exact absurd hstart (Nat.not_le_of_lt hstop)
          · exact ⟨t, ht, hstart, hstop⟩
      · rintro ⟨t, ht, hspan⟩
        exact ⟨t, List.mem_cons_of_mem _ (List.mem_append_right _ ht), hspan⟩

/-- A numeral or a name is a word that is found at its start. -/
theorem exists_longest?_of_mem_scan {source : String} (ht : t ∈ scan source)
    (hfinish : t.lexeme ≠ .finish) (himplicit : t.isImplicitMultiply = false) :
    ∃ length, longest? (source.toList.drop t.span.start) = some (t.lexeme, length) ∧
      t.span.stop = t.span.start + length := by
  obtain rfl | h | h := eq_word_of_mem_scanAt (Nat.zero_le _) ht
  · exact absurd rfl hfinish
  · cases himplicit.symm.trans h
  · exact h

/-- The numeral before an implied multiplication. -/
theorem of_isImplicitMultiply {source : String} {before behind : List Token}
    (h : scan source = before ++ t :: u :: behind) (hu : u.isImplicitMultiply = true) :
    t.lexeme.isNumber = true ∧ u.span = ⟨t.span.stop, t.span.stop⟩ ∧
      ∃ c, source.toList[t.span.stop]? = some c ∧ c.isAlpha = true := by
  rw [List.append_cons] at h
  obtain ⟨before', numeral, name, rest, hbefore, -, hnumber, hstop, hletter, -⟩ :=
    exists_neighbours (Nat.zero_le _) h hu
  obtain rfl : t = numeral := List.singleton_inj.mp (List.append_inj' hbefore rfl).2
  obtain ⟨-, hempty⟩ := isImplicitMultiply_iff.mp hu
  refine ⟨hnumber, ?_, hletter⟩
  rw [hstop]
  nth_rewrite 2 [hempty]
  rfl

/-! ### Covers -/

/-- The token is spelled as a word of a kind, and no longer stretch of the source from its start
on is such a word. -/
structure IsLongest (p : List Char → Prop) (source : String) (t : Token) : Prop where
  /-- The text is a word of the kind. -/
  text : p t.lexeme.text.toList
  /-- With characters behind it, it would be none. -/
  not_longer : ∀ stop, t.span.stop < stop → stop ≤ source.length →
    ¬ p ((Span.mk t.span.start stop).excerpt source).toList

/-- The tokens cover the source: they are the longest words in it, in order, and an end. -/
structure Covers (source : String) (tokens : List Token) : Prop where
  /-- The end of the source is the last token, and no other is one. -/
  finish : ∃ words, tokens = words ++ [⟨.finish, ⟨source.length, source.length⟩⟩] ∧
    ∀ t ∈ words, t.lexeme ≠ .finish
  /-- Tokens lie in the source. -/
  inside : ∀ t ∈ tokens, t.span.start ≤ t.span.stop ∧ t.span.stop ≤ source.length
  /-- A token ends before the next one begins. -/
  ordered : tokens.Pairwise fun t u => t.span.stop ≤ u.span.start
  /-- They take up the characters that can be told to belong to a word. -/
  covered : ∀ i, (∃ t ∈ tokens, t.span.start ≤ i ∧ i < t.span.stop) ↔
    ReadableAt source.toList i
  /-- They are spelled as they stand in the source, with ASCII symbols for the operators; an
  implied multiplication has its symbol. -/
  spelled : ∀ t ∈ tokens, t.lexeme.text.toList =
    if t.isImplicitMultiply then ['*'] else (t.span.excerpt source).toList.map asciiGlyph
  /-- Numerals are as long as can be. -/
  numeral : ∀ t ∈ tokens, t.lexeme.isNumber = true → IsLongest IsNumeral source t
  /-- Names are as long as can be. -/
  name : ∀ t ∈ tokens, ∀ text, t.lexeme = .name text → IsLongest IsName source t
  /-- Only the end of the source and an implied multiplication take no room. -/
  empty : ∀ t ∈ tokens, t.span.start = t.span.stop →
    t.lexeme = .finish ∨ t.isImplicitMultiply = true
  /-- No source begins with an implied multiplication. -/
  first : ∀ t behind, tokens = t :: behind → t.isImplicitMultiply = false
  /-- A multiplication is implied behind a numeral, and there exactly if a letter follows. -/
  implied_iff : ∀ before t u behind, tokens = before ++ t :: u :: behind →
    (u.isImplicitMultiply = true ↔
      t.lexeme.isNumber = true ∧ ∃ c, source.toList[t.span.stop]? = some c ∧ c.isAlpha = true)
  /-- It stands where the numeral ends. -/
  implied_span : ∀ before t u behind, tokens = before ++ t :: u :: behind →
    u.isImplicitMultiply = true → u.span = ⟨t.span.stop, t.span.stop⟩

/-- What is longer than any word of a kind is no word of the kind. -/
theorem isLongest_of_forall {p : List Char → Prop} {source : String}
    (htext : p t.lexeme.text.toList) (hstop : t.span.stop = t.span.start + length)
    (hle : ∀ word, p word → word <+: source.toList.drop t.span.start → word.length ≤ length) :
    IsLongest p source t := by
  refine ⟨htext, fun stop hlt hstop' hword => ?_⟩
  rw [Span.toList_excerpt] at hword
  have hlength := hle _ hword (List.take_prefix _ _)
  rw [List.length_take, List.length_drop, String.length_toList] at hlength
  omega

/-- **Scanning covers the source.** -/
theorem covers_scan (source : String) : Covers source (scan source) where
  finish := by
    obtain ⟨words, heq, hwords⟩ := scanFrom_eq_append_finish source.toList 0 0
    rw [Nat.zero_add, String.length_toList] at heq
    exact ⟨words, heq, hwords⟩
  inside t ht := by
    obtain ⟨-, hroom, hstop⟩ := (laid_scan source).of_mem ht
    exact ⟨hroom.start_le_stop, hstop⟩
  ordered := (laid_scan source).pairwise
  covered i := exists_mem_scanAt_iff (Nat.zero_le _) (Nat.zero_le i)
  spelled t ht := by
    cases himplicit : t.isImplicitMultiply with
    | true =>
      rw [(isImplicitMultiply_iff.mp himplicit).1]
      rfl
    | false =>
      obtain rfl | h | ⟨length, hfound, hstop⟩ := eq_word_of_mem_scanAt (Nat.zero_le _) ht
      · simp [Span.toList_excerpt, Lexeme.text]
      · cases himplicit.symm.trans h
      · rw [if_neg Bool.false_ne_true, Span.toList_excerpt, hstop, Nat.add_sub_cancel_left]
        exact toList_text_of_longest? hfound
  numeral t ht hnumber := by
    have hne (l : Lexeme) (hl : l.isNumber = false) : t.lexeme ≠ l := by
      rintro rfl
      cases hl.symm.trans hnumber
    obtain ⟨length, hfound, hstop⟩ := exists_longest?_of_mem_scan ht (hne _ rfl)
      (isImplicitMultiply_of_ne (hne _ rfl))
    obtain ⟨htext, hle⟩ := isNumeral_of_longest? hfound hnumber
    exact isLongest_of_forall htext hstop hle
  name t ht name hname := by
    obtain ⟨length, hfound, hstop⟩ := exists_longest?_of_mem_scan ht (by simp [hname])
      (isImplicitMultiply_of_ne (by simp [hname]))
    rw [hname] at hfound
    obtain ⟨htext, hle⟩ := isName_and_length_le_of_longest? hfound
    exact isLongest_of_forall (hname ▸ htext) hstop hle
  empty t ht hempty := by
    by_contra hne
    rw [not_or, Bool.not_eq_true] at hne
    have hlt := ((laid_scan source).of_mem ht).2.1.start_lt_stop hne.2 hne.1
    omega
  first t behind h := by
    by_contra himplicit
    have hscan : scanAt source.toList 0 = [] ++ t :: behind := h
    obtain ⟨before, numeral, -, -, hnil, -⟩ :=
      exists_neighbours (Nat.zero_le _) hscan (Bool.not_eq_false _ ▸ himplicit)
    exact List.append_ne_nil_of_right_ne_nil before (List.cons_ne_nil _ _) hnil.symm
  implied_iff before t u behind h := by
    constructor
    · intro hu
      obtain ⟨hnumber, -, hletter⟩ := of_isImplicitMultiply h hu
      exact ⟨hnumber, hletter⟩
    · rintro ⟨hnumber, c, hc, halpha⟩
      exact isImplicitMultiply_of_isNumber (Nat.zero_le _) h hnumber hc halpha
  implied_span before t u behind h hu := (of_isImplicitMultiply h hu).2.1

/-- The text of an implied multiplication does not stand in the source. -/
theorem not_forall_text_eq_excerpt :
    ¬ ∀ (source : String), ∀ t ∈ scan source,
      t.lexeme.text.toList = (t.span.excerpt source).toList.map asciiGlyph := by
  intro h
  have hmem : (⟨.operator .multiply, ⟨1, 1⟩⟩ : Token) ∈ scan "3x" := by decide +kernel
  exact absurd (h _ _ hmem) (by decide +kernel)

end Token

end SchoolAlgebra
