import SchoolAlgebra.Proofs.Token.Excerpt
import SchoolAlgebra.Proofs.Token.Spelling

/-!
# Scanning is local

A character that can stand in no word separates the text in front of it from the text behind it:
each of the two is scanned as it would be by itself. Scanning does look ahead, for the end of a run,
for a digit behind a point and for a letter behind a numeral. But none of them is found across such
a character, just as none is found across the end of a source.

The argument goes through the place of the character. Every character of a word can be told to
belong to one, and this one cannot, so no word that begins in front of it reaches it. What begins
there is then found in the text that is cut off at the character, and at the character itself
nothing is found.

## Main results

* `Lexeme.longest?_append_of_isInert` — a word does not depend on the text behind such a character
* `Token.scanFrom_append_of_isInert` — the text in front of it by itself, then the text behind it
* `Token.exists_scan_append_of_isInert` — the same for sources, the tokens behind it moved
-/

namespace SchoolAlgebra

namespace Lexeme

variable {c : Char}

theorem not_readableAt_of_isInert (hc : IsInert c) (chars rest : List Char) :
    ¬ ReadableAt (chars ++ c :: rest) chars.length := by
  rintro ⟨d, hd, hclass⟩
  obtain rfl : d = c := by simpa [eq_comm] using hd
  obtain ⟨hdigit, halpha, hpoint, hsign⟩ := hc
  obtain h | h | h | ⟨h, -⟩ := hclass
  · exact absurd (hdigit.symm.trans h) Bool.false_ne_true
  · exact absurd (halpha.symm.trans h) Bool.false_ne_true
  · exact hsign h
  · exact hpoint h

/-- No word reaches a character that can stand in none. -/
theorem length_le_of_longest?_append {l : Lexeme} {length : Nat} {chars rest : List Char}
    (hc : IsInert c) (h : longest? (chars ++ c :: rest) = some (l, length)) :
    length ≤ chars.length := by
  by_contra hlt
  exact not_readableAt_of_isInert hc chars rest (readableAt_of_longest? h (Nat.lt_of_not_le hlt))

/-- **What begins in front of a character that can stand in no word is found without the character
and the text behind it.** -/
theorem longest?_append_of_isInert (hc : IsInert c) (chars rest : List Char) :
    longest? (chars ++ c :: rest) = longest? chars := by
  have htake : (chars ++ c :: rest).take chars.length = chars := List.take_left
  cases h : longest? (chars ++ c :: rest) with
  | none =>
    have hnone := longest?_take_eq_none h chars.length
    rw [htake] at hnone
    exact hnone.symm
  | some found =>
    have hsome := longest?_take h (length_le_of_longest?_append hc h)
    rw [htake] at hsome
    exact hsome.symm

end Lexeme

namespace Token

open Lexeme

variable {c : Char}

/-- No multiplication is implied across the character. -/
theorem implied_append_of_isInert (hc : IsInert c) (l : Lexeme) (stop : Nat)
    (following rest : List Char) :
    implied l stop (following ++ c :: rest) = implied l stop following := by
  cases following with
  | nil => simp [implied, hc.2.1]
  | cons d following => rfl

theorem scanFrom_ne_nil (offset skip : Nat) (chars : List Char) :
    scanFrom offset skip chars ≠ [] := by
  obtain ⟨words, heq, -⟩ := scanFrom_eq_append_finish chars offset skip
  rw [heq]
  exact List.concat_ne_nil _ words

/-- **The text in front of a character that can stand in no word is scanned by itself, and scanning
goes on behind the character.** Only the token for the end of the text in front is not there. -/
theorem scanFrom_append_of_isInert (hc : IsInert c) (offset : Nat) (chars rest : List Char) :
    scanFrom offset 0 (chars ++ c :: rest) =
      (scanFrom offset 0 chars).dropLast ++ scanFrom (offset + chars.length + 1) 0 rest := by
  induction offset, chars using scan_induction with
  | nil offset =>
    -- nothing begins at the character, as nothing begins at the end of a source
    have hnone : longest? (c :: rest) = none := longest?_append_of_isInert hc [] rest
    exact scanFrom_cons_of_longest?_eq_none hnone offset
  | skip offset d chars hnone ih =>
    have hnone' : longest? (d :: (chars ++ c :: rest)) = none :=
      (longest?_append_of_isInert hc (d :: chars) rest).trans hnone
    rw [List.cons_append, scanFrom_cons_of_longest?_eq_none hnone',
      scanFrom_cons_of_longest?_eq_none hnone, ih, List.length_cons, Nat.add_assoc offset,
      Nat.add_comm 1]
  | word offset chars l length hsome ih =>
    have hsome' := (longest?_append_of_isInert hc chars rest).trans hsome
    have hle : length ≤ chars.length := (length_of_longest? hsome).2
    have hoffset : offset + length + (chars.drop length).length = offset + chars.length := by
      rw [List.length_drop]
      omega
    rw [scanFrom_of_longest?_eq_some hsome', scanFrom_of_longest?_eq_some hsome,
      List.drop_append_of_le_length hle, ofLexeme_eq_cons, implied_append_of_isInert hc, ih,
      hoffset, ← ofLexeme_eq_cons, List.dropLast_append_of_ne_nil (scanFrom_ne_nil _ _ _),
      List.append_assoc]

/-- **The texts on the two sides of a character that can stand in no word are scanned apart.** The
tokens of the whole are those of the text in front but for its end, and then those of the text
behind, moved to where it stands. -/
theorem exists_scan_append_of_isInert (source behind : String) {c : Char} (hc : IsInert c) :
    ∃ words, scan source = words ++ [⟨.finish, ⟨source.length, source.length⟩⟩] ∧
      (∀ t ∈ words, t.lexeme ≠ .finish) ∧
      scan (source ++ String.singleton c ++ behind) =
        words ++ (scan behind).map (shift (source.length + 1)) := by
  obtain ⟨words, heq, hwords⟩ := scan_eq_append_finish source
  refine ⟨words, heq, hwords, ?_⟩
  have htext : (source ++ String.singleton c ++ behind).toList =
      source.toList ++ c :: behind.toList := by simp
  calc scan (source ++ String.singleton c ++ behind)
      = (scan source).dropLast ++ scanFrom (0 + source.toList.length + 1) 0 behind.toList := by
        rw [scan, htext, scanFrom_append_of_isInert hc, scan]
    _ = words ++ scanFrom (0 + (source.length + 1)) 0 behind.toList := by
        rw [heq, List.dropLast_concat, String.length_toList, Nat.add_assoc]
    _ = words ++ (scan behind).map (shift (source.length + 1)) := by
        rw [scanFrom_add, scan]

/-- In `2x1.#5y` the point is passed over. Without the character behind it, it would begin the
numeral `.5`. -/
theorem exists_scan_append_of_isInert_loosePoint :
    IsInert '#' ∧
      (∃ words, scan "2x1." = words ++ [⟨.finish, ⟨4, 4⟩⟩] ∧
        scan "2x1.#5y" = words ++ (scan "5y").map (shift 5)) ∧
      (scan "2x1.#5y").map (·.lexeme.text) = ["2", "*", "x1", "5", "*", "y", ""] ∧
      (scan "2x1.5y").map (·.lexeme.text) = ["2", "*", "x1", ".5", "*", "y", ""] := by
  have hinert : IsInert '#' := by decide
  obtain ⟨words, hfront, -, hscan⟩ := exists_scan_append_of_isInert "2x1." "5y" hinert
  exact ⟨hinert, ⟨words, hfront, hscan⟩, by decide +kernel, by decide +kernel⟩

end Token

end SchoolAlgebra
