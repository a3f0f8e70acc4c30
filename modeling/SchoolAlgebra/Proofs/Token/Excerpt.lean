import Mathlib
import SchoolAlgebra.Proofs.ForMathlib.List
import SchoolAlgebra.Proofs.Token.Scanning

/-!
# Scanning an excerpt

A stretch of a source that begins where a token begins and ends where a token ends is scanned into
the tokens of the stretch, moved to its start. Two things could go wrong. A lexeme could depend on
what is cut off behind it, as scanning looks ahead for the end of a numeral or a name; it does not,
since nothing behind the cut belonged to it. And a multiplication that the source leaves unwritten
is seen only from both sides, so an excerpt must not begin or end with one.

## Cutting behind a word

Cutting the text off behind a word can change what is found in two ways, by what a word takes and by
what it implies. A word takes no more than its length, so it is found in any text that holds all of
it. An implied multiplication is found from the first character behind the word, and this is not cut
off, because the cut is at the end of a later token.

## Main results

* `Lexeme.longest?_take` — a lexeme does not depend on the text behind it
* `Token.scanFrom_drop` — scanning from the start of a token
* `Token.scanFrom_take` — scanning up to the end of a token
* `Token.exists_scan_excerpt` — both together, moved to the start
-/

namespace SchoolAlgebra

/-! ### A lexeme and the text behind it

Each part of a lexeme is found again in every text that holds all of it. -/

namespace Lexeme

variable {chars rest : List Char} {k : Nat}

theorem pointPart_take (h : (pointPart rest).length ≤ k) :
    pointPart (rest.take k) = pointPart rest := by
  cases rest with
  | nil => rw [List.take_nil]
  | cons c rest =>
    cases k with
    | zero => exact (List.eq_nil_of_length_eq_zero (Nat.le_zero.mp h)).symm
    | succ k =>
      rw [List.take_succ_cons]
      by_cases hc : c = '.'
      · subst hc
        by_cases hdigits : rest.takeWhile Char.isDigit = []
        · have htake : (rest.take k).takeWhile Char.isDigit = [] := by
            rw [← List.take_takeWhile, hdigits, List.take_nil]
          rw [pointPart_point_of_eq_nil hdigits, pointPart_point_of_eq_nil htake]
        · rw [pointPart_point hdigits, List.length_cons] at h
          have htake := takeWhile_take_of_length_le (Nat.le_of_succ_le_succ h)
          rw [pointPart_point hdigits, pointPart_point (htake ▸ hdigits), htake]
      · rw [pointPart_of_ne hc, pointPart_of_ne hc]

theorem numeralPart_take (h : (numeralPart chars).length ≤ k) :
    numeralPart (chars.take k) = numeralPart chars := by
  rw [numeralPart_eq_append, List.length_append] at h
  rw [numeralPart_eq_append, numeralPart_eq_append, takeWhile_take_of_length_le (by omega),
    dropWhile_take, pointPart_take (by omega)]

theorem namePart_take (h : (namePart chars).length ≤ k) :
    namePart (chars.take k) = namePart chars := by
  by_cases hletters : chars.takeWhile Char.isAlpha = []
  · have htake : (chars.take k).takeWhile Char.isAlpha = [] := by
      rw [← List.take_takeWhile, hletters, List.take_nil]
    rw [namePart, namePart, hletters, htake]
  · rw [namePart_eq_append hletters, List.length_append] at h
    have htake : (chars.take k).takeWhile Char.isAlpha = chars.takeWhile Char.isAlpha :=
      takeWhile_take_of_length_le (by omega)
    rw [namePart_eq_append hletters, namePart_eq_append (htake ▸ hletters), htake, dropWhile_take,
      takeWhile_take_of_length_le (by omega)]

/-- A text at which no lexeme starts is still such a text when its end is cut off. -/
theorem longest?_take_eq_none (h : longest? chars = none) (k : Nat) :
    longest? (chars.take k) = none := by
  obtain ⟨-, heq⟩ | ⟨-, -, heq⟩ | ⟨hnumeral, hname, heq⟩ := longest?_cases chars
  · rw [heq] at h
    cases h
  · rw [heq] at h
    cases h
  · cases k with
    | zero => rfl
    | succ k =>
      have hnumeral' : numeralPart (chars.take (k + 1)) = [] := by
        rw [numeralPart_take (by simp [hnumeral]), hnumeral]
      have hname' : namePart (chars.take (k + 1)) = [] := by
        rw [namePart_take (by simp [hname]), hname]
      rw [longest?_of_eq_nil hnumeral' hname', List.head?_take, if_neg (Nat.succ_ne_zero k), ← heq,
        h]

/-- **A lexeme does not depend on the text behind it.** -/
theorem longest?_take {l : Lexeme} {length : Nat} (h : longest? chars = some (l, length))
    (hk : length ≤ k) : longest? (chars.take k) = some (l, length) := by
  obtain ⟨hnumeral, heq⟩ | ⟨hnumeral, hname, heq⟩ | ⟨hnumeral, hname, heq⟩ := longest?_cases chars
  · rw [heq] at h
    cases h
    have hnumeral' := numeralPart_take hk
    rw [longest?_of_numeralPart_ne_nil (hnumeral' ▸ hnumeral), hnumeral']
  · rw [heq] at h
    cases h
    have hnumeral' : numeralPart (chars.take k) = numeralPart chars :=
      numeralPart_take (by simp [hnumeral])
    have hname' := namePart_take hk
    rw [longest?_of_namePart_ne_nil (hnumeral'.trans hnumeral) (hname' ▸ hname), hname']
  · have hnumeral' : numeralPart (chars.take k) = numeralPart chars :=
      numeralPart_take (by simp [hnumeral])
    have hname' : namePart (chars.take k) = namePart chars := namePart_take (by simp [hname])
    have hpos : k ≠ 0 := Nat.ne_of_gt (Nat.lt_of_lt_of_le (length_of_longest? h).1 hk)
    rw [longest?_of_eq_nil (hnumeral'.trans hnumeral) (hname'.trans hname), List.head?_take,
      if_neg hpos, ← heq, h]

end Lexeme

namespace Token

open Lexeme

theorem implied_take {k : Nat} (h : k ≠ 0) (l : Lexeme) (stop : Nat) (following : List Char) :
    implied l stop (following.take k) = implied l stop following := by
  rw [implied, implied, List.head?_take, if_neg h]

/-- A token of the source itself comes after an implied multiplication. -/
theorem exists_of_implied_append_eq {l : Lexeme} {stop : Nat} {following : List Char} {t : Token}
    {rest pre post : List Token} (h : implied l stop following ++ rest = pre ++ t :: post)
    (ht : t.isImplicitMultiply = false) :
    ∃ pre', pre = implied l stop following ++ pre' ∧ rest = pre' ++ t :: post := by
  obtain ⟨pre', hpre, hrest⟩ | ⟨found, himplied, hfound⟩ := List.append_eq_append_iff.mp h
  · exact ⟨pre', hpre, hrest⟩
  · cases found with
    | nil => exact ⟨[], by rw [himplied, List.append_nil, List.append_nil], hfound.symm⟩
    | cons u found =>
      obtain ⟨rfl, -⟩ := List.cons.inj hfound
      have hmem : t ∈ implied l stop following := by
        rw [himplied]
        exact List.mem_append_right _ List.mem_cons_self
      rw [isImplicitMultiply_of_mem_implied hmem] at ht
      cases ht

/-! ### Cutting at tokens

Scanning from the start of a token leaves out what stands before, and scanning up to the end of one
leaves out what stands behind. The two are put together by moving the tokens to the start of the
excerpt. -/

variable {pre post : List Token} {t : Token}

/-- Scanning from the start of a token finds the token and those that follow it. -/
theorem scanFrom_drop (offset : Nat) (chars : List Char)
    (h : scanFrom offset 0 chars = pre ++ t :: post) (ht : t.isImplicitMultiply = false) :
    ∃ k, t.span.start = offset + k ∧ scanFrom t.span.start 0 (chars.drop k) = t :: post := by
  induction offset, chars using scan_induction generalizing pre with
  | nil offset =>
    obtain ⟨-, hcons⟩ | ⟨-, hnil⟩ := List.singleton_eq_append_iff.mp h
    · obtain ⟨rfl, rfl⟩ := List.cons.inj hcons
      exact ⟨0, rfl, rfl⟩
    · cases hnil
  | skip offset c rest hnone ih =>
    rw [scanFrom_cons_of_longest?_eq_none hnone] at h
    obtain ⟨k, hstart, hscan⟩ := ih h
    exact ⟨k + 1, by omega, hscan⟩
  | word offset chars l length hsome ih =>
    have hscan := scanFrom_of_longest?_eq_some hsome offset
    rw [hscan, ofLexeme_eq_cons, List.cons_append] at h
    cases pre with
    | nil =>
      obtain ⟨rfl, rfl⟩ := List.cons.inj h
      exact ⟨0, rfl, hscan⟩
    | cons first pre =>
      obtain ⟨pre', -, hrest⟩ := exists_of_implied_append_eq (List.cons.inj h).2 ht
      obtain ⟨k, hstart, hdrop⟩ := ih hrest
      exact ⟨length + k, by omega, by rw [← List.drop_drop, hdrop]⟩

/-- Scanning up to the end of a token finds the token and those before it. -/
theorem scanFrom_take (offset : Nat) (chars : List Char)
    (h : scanFrom offset 0 chars = pre ++ t :: post) (ht : t.isImplicitMultiply = false)
    (hfinish : t.lexeme ≠ .finish) :
    ∃ k, t.span.stop = offset + k ∧ scanFrom offset 0 (chars.take k) =
      pre ++ [t, ⟨.finish, ⟨t.span.stop, t.span.stop⟩⟩] := by
  induction offset, chars using scan_induction generalizing pre with
  | nil offset =>
    obtain ⟨-, hcons⟩ | ⟨-, hnil⟩ := List.singleton_eq_append_iff.mp h
    · obtain ⟨rfl, -⟩ := List.cons.inj hcons
      exact absurd rfl hfinish
    · cases hnil
  | skip offset c rest hnone ih =>
    rw [scanFrom_cons_of_longest?_eq_none hnone] at h
    obtain ⟨k, hstop, hscan⟩ := ih h
    refine ⟨k + 1, by omega, ?_⟩
    have hnone' : longest? (c :: rest.take k) = none := longest?_take_eq_none hnone (k + 1)
    rw [List.take_succ_cons, scanFrom_cons_of_longest?_eq_none hnone', hscan]
  | word offset chars l length hsome ih =>
    rw [scanFrom_of_longest?_eq_some hsome, ofLexeme_eq_cons, List.cons_append] at h
    cases pre with
    | nil =>
      obtain ⟨rfl, -⟩ := List.cons.inj h
      refine ⟨length, rfl, ?_⟩
      rw [scanFrom_of_longest?_eq_some (longest?_take hsome (Nat.le_refl _)), ofLexeme_eq_cons,
        List.drop_take, Nat.sub_self, List.take_zero, implied_nil]
      rfl
    | cons first pre =>
      obtain ⟨rfl, htail⟩ := List.cons.inj h
      obtain ⟨pre', rfl, hrest⟩ := exists_of_implied_append_eq htail ht
      obtain ⟨k, hstop, hscan⟩ := ih hrest
      -- the token that is cut at is behind the implied multiplication, so the letter is not cut off
      have hk : k ≠ 0 := by
        rintro rfl
        have hlength := congrArg List.length hscan
        simp [scanFrom] at hlength
      refine ⟨length + k, by omega, ?_⟩
      have hsome' := longest?_take hsome (Nat.le_add_right length k)
      rw [scanFrom_of_longest?_eq_some hsome', ofLexeme_eq_cons, List.drop_take,
        Nat.add_sub_cancel_left, implied_take hk, hscan]
      simp

/-- **An excerpt from the start of one token to the end of another is scanned into the tokens
between the two, moved to its start.** -/
theorem exists_scan_excerpt {source : String} {ts : List Token} {first last : Token}
    (h : scan source = pre ++ ts ++ post) (hfirst : ts.head? = some first)
    (hlast : ts.getLast? = some last) (hfirst' : first.isImplicitMultiply = false)
    (hlast' : last.isImplicitMultiply = false) (hfinish : last.lexeme ≠ .finish) :
    ∃ (us : List Token) (stop : Token),
      scan ((Span.mk first.span.start last.span.stop).excerpt source) = us ++ [stop] ∧
        stop.lexeme = .finish ∧ us.map (shift first.span.start) = ts := by
  obtain ⟨rest, rfl⟩ := List.head?_eq_some_iff.mp hfirst
  obtain ⟨init, hinit⟩ := List.getLast?_eq_some_iff.mp hlast
  rw [List.append_assoc, List.cons_append] at h
  obtain ⟨a, ha, hdrop⟩ := scanFrom_drop 0 source.toList h hfirst'
  rw [← List.cons_append, hinit, List.append_assoc, List.singleton_append] at hdrop
  obtain ⟨b, hb, htake⟩ := scanFrom_take _ _ hdrop hlast' hfinish
  have hexcerpt : ((Span.mk first.span.start last.span.stop).excerpt source).toList =
      (source.toList.drop a).take b := by
    rw [Span.toList_excerpt, hb, ha, Nat.zero_add, Nat.add_sub_cancel_left]
  have hscan : (scan ((Span.mk first.span.start last.span.stop).excerpt source)).map
      (shift first.span.start) =
        first :: rest ++ [⟨.finish, ⟨last.span.stop, last.span.stop⟩⟩] := by
    rw [scan, ← scanFrom_add, Nat.zero_add, hexcerpt, htake, hinit, List.append_assoc]
    rfl
  obtain ⟨us, stops, heq, hus, hstops⟩ := List.map_eq_append_iff.mp hscan
  obtain ⟨stop, rfl, hstop⟩ := List.map_eq_singleton_iff.mp hstops
  exact ⟨us, stop, heq, congrArg lexeme hstop, hus⟩

end Token

end SchoolAlgebra
