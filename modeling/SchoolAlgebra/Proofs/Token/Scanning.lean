import SchoolAlgebra.Proofs.Expr.Nodes
import SchoolAlgebra.Token.Display
import SchoolAlgebra.Token.Scan

/-!
# Scanning word by word

Scanning is defined character by character, with a count of those that belong to an earlier token.
Here it goes word by word: past a character at which no word starts, or over a word and the
multiplication that is implied between it and the text behind it. What is found does not depend on
where the text stands, but for its spans.

## From characters to words

The count of characters to be passed over makes scanning structural in the text, but it is in the
way of every proof about what is scanned. It is removed once: with a word in front, scanning passes
over exactly the characters of the word. What remains are two equations, one for a character without
a word and one for a word, and an induction that follows them.

## Main definitions

* `Token.implied` — the multiplication between a word and the text behind it

## Main results

* `Lexeme.longest?_cases` — a numeral, else a name, else a single character
* `Token.scanFrom_of_longest?_eq_some` — a word, and the text behind it
* `Token.scan_induction` — induction along the words of a text
* `Token.scanFrom_add` — tokens move with the text
-/

namespace SchoolAlgebra

theorem Span.toList_excerpt (source : String) (a b : Nat) :
    ((Span.mk a b).excerpt source).toList = (source.toList.drop a).take (b - a) := by
  rw [excerpt, String.toList_ofList, List.drop_take]

/-! ### The word at the start of a text

A numeral and a name are each given by their parts, and their lengths by the lengths of the parts.
What is found is the first of the three kinds that is not empty. -/

namespace Lexeme

variable {chars rest : List Char}

/-- A point and the digits after it; nothing if there are no digits. -/
def pointPart : List Char → List Char
  | '.' :: rest =>
    match rest.takeWhile Char.isDigit with
    | [] => []
    | fraction => '.' :: fraction
  | _ => []

theorem pointPart_point (h : rest.takeWhile Char.isDigit ≠ []) :
    pointPart ('.' :: rest) = '.' :: rest.takeWhile Char.isDigit := by
  rw [pointPart]
  split
  · next hnil => exact absurd hnil h
  · rfl

theorem pointPart_point_of_eq_nil (h : rest.takeWhile Char.isDigit = []) :
    pointPart ('.' :: rest) = [] := by
  rw [pointPart, h]

theorem pointPart_of_ne {c : Char} (h : c ≠ '.') (rest : List Char) :
    pointPart (c :: rest) = [] := by
  unfold pointPart
  split
  · next heq => exact absurd (List.cons.inj heq).1 h
  · rfl

theorem numeralPart_eq_append (chars : List Char) :
    numeralPart chars =
      chars.takeWhile Char.isDigit ++ pointPart (chars.dropWhile Char.isDigit) := by
  unfold numeralPart
  split
  · next rest hrest =>
    rw [hrest]
    split
    · next hnil => rw [pointPart_point_of_eq_nil hnil, List.append_nil]
    · next hne => rw [pointPart_point hne]
  · next hpoint =>
    cases hrest : chars.dropWhile Char.isDigit with
    | nil => simp [pointPart]
    | cons c rest =>
      have hc : c ≠ '.' := by
        rintro rfl
        exact hpoint _ hrest
      rw [pointPart_of_ne hc, List.append_nil]

theorem namePart_eq_append (h : chars.takeWhile Char.isAlpha ≠ []) :
    namePart chars =
      chars.takeWhile Char.isAlpha ++ (chars.dropWhile Char.isAlpha).takeWhile Char.isDigit := by
  rw [namePart]
  split
  · next hnil => exact absurd hnil h
  · rfl

private theorem length_takeWhile_add (p : Char → Bool) (chars : List Char) :
    (chars.takeWhile p).length + (chars.dropWhile p).length = chars.length := by
  rw [← List.length_append, List.takeWhile_append_dropWhile]

private theorem length_takeWhile_le (p : Char → Bool) (chars : List Char) :
    (chars.takeWhile p).length ≤ chars.length := (List.takeWhile_prefix p).length_le

theorem length_pointPart_le (rest : List Char) : (pointPart rest).length ≤ rest.length := by
  unfold pointPart
  split
  · next rest =>
    split
    · exact Nat.zero_le _
    · exact Nat.succ_le_succ (length_takeWhile_le _ rest)
  · exact Nat.zero_le _

theorem length_numeralPart_le (chars : List Char) :
    (numeralPart chars).length ≤ chars.length := by
  have hpoint := length_pointPart_le (chars.dropWhile Char.isDigit)
  have hparts := length_takeWhile_add Char.isDigit chars
  rw [numeralPart_eq_append, List.length_append]
  omega

theorem length_namePart_le (chars : List Char) : (namePart chars).length ≤ chars.length := by
  have hdigits := length_takeWhile_le Char.isDigit (chars.dropWhile Char.isAlpha)
  have hparts := length_takeWhile_add Char.isAlpha chars
  rw [namePart]
  split
  · exact Nat.zero_le _
  · rw [List.length_append]
    omega

theorem longest?_of_numeralPart_ne_nil (h : numeralPart chars ≠ []) :
    longest? chars = some (.number (String.ofList (numeralPart chars))
      (Decimal.ofNumeral (numeralPart chars)).toBinary64, (numeralPart chars).length) := by
  unfold longest?
  split
  · next hnil _ => exact absurd hnil h
  · next hnil _ => exact absurd hnil h
  · rfl

theorem longest?_of_namePart_ne_nil (hnumeral : numeralPart chars = [])
    (h : namePart chars ≠ []) :
    longest? chars = some (.name (String.ofList (namePart chars)), (namePart chars).length) := by
  unfold longest?
  rw [hnumeral]
  split
  · next hnil => exact absurd hnil h
  · rfl
  · next hnil _ => exact absurd rfl hnil

theorem longest?_of_eq_nil (hnumeral : numeralPart chars = []) (hname : namePart chars = []) :
    longest? chars = (chars.head? >>= ofChar?).map (·, 1) := by
  unfold longest?
  rw [hnumeral, hname]

/-- At the start of a text stands a numeral, or else a name, or else a single character. -/
theorem longest?_cases (chars : List Char) :
    (numeralPart chars ≠ [] ∧
      longest? chars = some (.number (String.ofList (numeralPart chars))
        (Decimal.ofNumeral (numeralPart chars)).toBinary64, (numeralPart chars).length)) ∨
    (numeralPart chars = [] ∧ namePart chars ≠ [] ∧
      longest? chars = some (.name (String.ofList (namePart chars)), (namePart chars).length)) ∨
    (numeralPart chars = [] ∧ namePart chars = [] ∧
      longest? chars = (chars.head? >>= ofChar?).map (·, 1)) := by
  by_cases hnumeral : numeralPart chars = []
  · by_cases hname : namePart chars = []
    · exact .inr (.inr ⟨hnumeral, hname, longest?_of_eq_nil hnumeral hname⟩)
    · exact .inr (.inl ⟨hnumeral, hname, longest?_of_namePart_ne_nil hnumeral hname⟩)
  · exact .inl ⟨hnumeral, longest?_of_numeralPart_ne_nil hnumeral⟩

/-- A single character is no numeral and no name. -/
theorem ne_number_of_ofChar? {c : Char} {l : Lexeme} (h : ofChar? c = some l) :
    l.isNumber = false ∧ ∀ name, l ≠ .name name := by
  unfold ofChar? at h
  split at h
  case h_4 =>
    obtain ⟨op, -, rfl⟩ := Option.map_eq_some_iff.mp h
    exact ⟨rfl, nofun⟩
  all_goals
    cases h
    exact ⟨rfl, nofun⟩

/-- A lexeme is not empty and stands in the text. -/
theorem length_of_longest? {l : Lexeme} {length : Nat} (h : longest? chars = some (l, length)) :
    0 < length ∧ length ≤ chars.length := by
  obtain ⟨hnumeral, heq⟩ | ⟨-, hname, heq⟩ | ⟨-, -, heq⟩ := longest?_cases chars
  · rw [heq] at h
    cases h
    exact ⟨List.length_pos_iff.mpr hnumeral, length_numeralPart_le chars⟩
  · rw [heq] at h
    cases h
    exact ⟨List.length_pos_iff.mpr hname, length_namePart_le chars⟩
  · obtain ⟨found, hfound, hpair⟩ := Option.map_eq_some_iff.mp (heq.symm.trans h)
    cases hpair
    cases chars with
    | nil => cases hfound
    | cons c rest => exact ⟨Nat.one_pos, Nat.le_add_left 1 rest.length⟩

end Lexeme

/-! ### Words and what is between them

What a word implies depends on the word and on the first character behind it. It is given a name of
its own, since it is the one token that does not stand for characters of the text. -/

namespace Token

open Lexeme

variable {offset length : Nat} {chars : List Char} {l : Lexeme}

/-- Characters that belong to an earlier token are passed over. -/
theorem scanFrom_skip {skip : Nat} (h : skip ≤ chars.length) (offset : Nat) :
    scanFrom offset skip chars = scanFrom (offset + skip) 0 (chars.drop skip) := by
  induction chars generalizing offset skip with
  | nil =>
    obtain rfl := Nat.le_zero.mp h
    rfl
  | cons c rest ih =>
    cases skip with
    | zero => rfl
    | succ skip =>
      rw [scanFrom, ih (Nat.le_of_succ_le_succ h), List.drop_succ_cons, Nat.add_assoc,
        Nat.add_comm 1]

theorem scanFrom_cons_of_longest?_eq_none {c : Char} {rest : List Char}
    (h : longest? (c :: rest) = none) (offset : Nat) :
    scanFrom offset 0 (c :: rest) = scanFrom (offset + 1) 0 rest := by
  simp only [scanFrom, h]

/-- The tokens of a word come first, and scanning goes on behind it. -/
theorem scanFrom_of_longest?_eq_some (h : longest? chars = some (l, length)) (offset : Nat) :
    scanFrom offset 0 chars =
      ofLexeme l offset length (chars.drop length) ++
        scanFrom (offset + length) 0 (chars.drop length) := by
  obtain ⟨hpos, hle⟩ := length_of_longest? h
  obtain ⟨length, rfl⟩ := Nat.exists_eq_add_one_of_ne_zero (Nat.ne_of_gt hpos)
  cases chars with
  | nil => cases h
  | cons c rest =>
    have hrest : length ≤ rest.length := Nat.le_of_succ_le_succ hle
    simp only [scanFrom, h, Nat.add_sub_cancel, List.drop_succ_cons, scanFrom_skip hrest]
    rw [Nat.add_assoc, Nat.add_comm 1]

/-- Induction along the words of a text. -/
theorem scan_induction {P : Nat → List Char → Prop} (nil : ∀ offset, P offset [])
    (skip : ∀ offset c rest, longest? (c :: rest) = none → P (offset + 1) rest →
      P offset (c :: rest))
    (word : ∀ offset chars l length, longest? chars = some (l, length) →
      P (offset + length) (chars.drop length) → P offset chars)
    (offset : Nat) (chars : List Char) : P offset chars := by
  match chars with
  | [] => exact nil offset
  | c :: rest =>
    cases h : longest? (c :: rest) with
    | none => exact skip _ _ _ h (scan_induction nil skip word _ rest)
    | some found =>
      have hlength := length_of_longest? h
      exact word _ _ _ _ h (scan_induction nil skip word _ _)
termination_by chars.length

/-- The multiplication between a lexeme that ends at an offset and the text that follows, if the
two imply one. -/
def implied (l : Lexeme) (stop : Nat) (following : List Char) : List Token :=
  if l.isNumber && following.head?.any Char.isAlpha then [⟨.operator .multiply, ⟨stop, stop⟩⟩]
  else []

theorem ofLexeme_eq_cons (l : Lexeme) (offset length : Nat) (following : List Char) :
    ofLexeme l offset length following =
      ⟨l, ⟨offset, offset + length⟩⟩ :: implied l (offset + length) following := rfl

theorem eq_of_mem_implied {l : Lexeme} {stop : Nat} {following : List Char} {t : Token}
    (h : t ∈ implied l stop following) : t = ⟨.operator .multiply, ⟨stop, stop⟩⟩ := by
  rw [implied] at h
  split at h
  · exact List.mem_singleton.mp h
  · cases h

theorem isImplicitMultiply_of_mem_implied {l : Lexeme} {stop : Nat} {following : List Char}
    {t : Token} (h : t ∈ implied l stop following) : t.isImplicitMultiply = true := by
  rw [eq_of_mem_implied h]
  simp [isImplicitMultiply, Span.isEmpty]

@[simp] theorem implied_nil (l : Lexeme) (stop : Nat) : implied l stop [] = [] := by
  simp [implied]

theorem map_shift_implied (l : Lexeme) (stop : Nat) (following : List Char) (k : Nat) :
    (implied l stop following).map (shift k) = implied l (stop + k) following := by
  rw [implied, implied]
  split <;> rfl

/-- Tokens move with the text. -/
theorem scanFrom_add (offset : Nat) (chars : List Char) (k : Nat) :
    scanFrom (offset + k) 0 chars = (scanFrom offset 0 chars).map (shift k) := by
  induction offset, chars using scan_induction with
  | nil offset => rfl
  | skip offset c rest hnone ih =>
    rw [scanFrom_cons_of_longest?_eq_none hnone, scanFrom_cons_of_longest?_eq_none hnone, ← ih,
      Nat.add_right_comm]
  | word offset chars l length hsome ih =>
    rw [scanFrom_of_longest?_eq_some hsome, scanFrom_of_longest?_eq_some hsome, List.map_append,
      ← ih, Nat.add_right_comm, ofLexeme_eq_cons, ofLexeme_eq_cons, List.map_cons,
      map_shift_implied, Nat.add_right_comm]
    rfl

end Token

end SchoolAlgebra
