import SchoolAlgebra.Proofs.Grammar.Printed
import SchoolAlgebra.Proofs.Grammar.Reading

/-!
# Lexemes that the parser refuses

Some lexemes in a row are refused wherever they stand: no state of the parser takes them. What can
follow a caret is decided by the slot of the state alone, so two of these cases are found by looking
at the slots one step after the other.

## In every state

A state of the parser holds all that stands to the left, and what is refused here is refused in all
states. So nothing has to be known of the text in front, and it does not matter whether that text
was in order: refusing a part of the lexemes refuses the whole. The lemmas on `Refused` carry a
refusal from a part of a printed expression to the whole of it.

## Main definitions

* `Refused` — no state takes these lexemes

## Main results

* `refused_caret_name` — an exponent is not a name
* `refused_caret_number_caret` — a base with an exponent is not a base again
-/

namespace SchoolAlgebra

open ParseState

/-- No state of the parser takes tokens with these lexemes. -/
def Refused (ls : List Lexeme) : Prop :=
  ∀ tokens : List Token, tokens.map Token.lexeme = ls → ∀ s s' : ParseState, s.read tokens ≠ .ok s'

namespace Refused

variable {ls : List Lexeme}

/-- What is refused is refused as a part of more lexemes. -/
theorem append (h : Refused ls) (before after : List Lexeme) :
    Refused (before ++ ls ++ after) := by
  intro tokens htokens s s' hread
  obtain ⟨front, back, rfl, hfront, -⟩ := List.map_eq_append_iff.mp htokens
  obtain ⟨first, middle, rfl, -, hmiddle⟩ := List.map_eq_append_iff.mp hfront
  obtain ⟨s₂, hread₂, -⟩ := exists_read_of_read_append hread
  obtain ⟨s₁, -, hread₁⟩ := exists_read_of_read_append hread₂
  exact h middle hmiddle s₁ s₂ hread₁

theorem append_left (h : Refused ls) (before : List Lexeme) : Refused (before ++ ls) := by
  simpa using h.append before []

theorem append_right (h : Refused ls) (after : List Lexeme) : Refused (ls ++ after) := by
  simpa using h.append [] after

theorem cons (h : Refused ls) (l : Lexeme) : Refused (l :: ls) := h.append_left [l]

theorem inParensIf (h : Refused ls) (needed : Bool) : Refused (inParensIf needed ls) := by
  cases needed with
  | false => exact h
  | true => exact (h.append_right [.rightParen]).cons .leftParen

end Refused

namespace ParseState

variable {s s' : ParseState} {t : Token}

/-- A caret can only follow an atom. -/
theorem slot_of_step_caret (ht : t.lexeme = .caret) (h : s.step t = .ok s') :
    (∃ base, s.slot = .atom base) ∧ ∃ base, s'.slot = .caret base := by
  obtain ⟨slot, pending, groups⟩ := s
  cases slot with
  | atom base =>
    simp only [step, ht] at h
    cases h
    exact ⟨⟨base, rfl⟩, base, rfl⟩
  | _ => simp [step, ht, Slot.operand?, beginOperand, afterOperand] at h

/-- A numeral after a caret completes a power. -/
theorem slot_of_step_number {text : String} {value : Binary64} (ht : t.lexeme = .number text value)
    (hs : (∃ base, s.slot = .caret base) ∨ ∃ base, s.slot = .signedCaret base)
    (h : s.step t = .ok s') : ∃ e, s'.slot = .power e := by
  obtain ⟨slot, pending, groups⟩ := s
  rcases hs with ⟨base, hbase⟩ | ⟨base, hbase⟩
  all_goals
    simp only at hbase
    subst hbase
    simp only [step, ht] at h
    cases h
    exact ⟨_, rfl⟩

theorem slot_of_step_minus (ht : t.lexeme = .operator .subtract)
    (hs : ∃ base, s.slot = .caret base) (h : s.step t = .ok s') :
    ∃ base, s'.slot = .signedCaret base := by
  obtain ⟨slot, pending, groups⟩ := s
  obtain ⟨base, hbase⟩ := hs
  simp only at hbase
  subst hbase
  simp only [step, ht] at h
  cases h
  exact ⟨_, rfl⟩

/-- A name cannot follow a caret, with or without a sign. -/
theorem step_name_ne_ok {name : String} (ht : t.lexeme = .name name)
    (hs : (∃ base, s.slot = .caret base) ∨ ∃ base, s.slot = .signedCaret base) :
    s.step t ≠ .ok s' := by
  intro h
  obtain ⟨slot, pending, groups⟩ := s
  rcases hs with ⟨base, hbase⟩ | ⟨base, hbase⟩
  all_goals
    simp only at hbase
    subst hbase
    simp [step, ht, Slot.operand?, afterOperand] at h

end ParseState

/-- A caret and the sign of an exponent, if there is one. -/
theorem exists_read_of_caret_sign {negative : Bool} {rest : List Lexeme} {tokens : List Token}
    {s s' : ParseState}
    (htokens : tokens.map Token.lexeme = .caret :: (signLexemes negative ++ rest))
    (h : s.read tokens = .ok s') :
    ∃ (us : List Token) (next : ParseState), us.map Token.lexeme = rest ∧ next.read us = .ok s' ∧
      ((∃ base, next.slot = .caret base) ∨ ∃ base, next.slot = .signedCaret base) := by
  obtain ⟨t, ts, rfl, ht, hts⟩ := List.map_eq_cons_iff.mp htokens
  obtain ⟨s₁, hstep, hread⟩ := exists_step_of_read_cons h
  have hcaret := (slot_of_step_caret ht hstep).2
  cases negative with
  | false => exact ⟨ts, s₁, hts, hread, .inl hcaret⟩
  | true =>
    obtain ⟨u, us, rfl, hu, hus⟩ := List.map_eq_cons_iff.mp hts
    obtain ⟨s₂, hstep₂, hread₂⟩ := exists_step_of_read_cons hread
    exact ⟨us, s₂, hus, hread₂, .inr (slot_of_step_minus hu hcaret hstep₂)⟩

/-- An exponent cannot be a name. -/
theorem refused_caret_name (negative : Bool) (name : String) :
    Refused (.caret :: (signLexemes negative ++ [.name name])) := by
  intro tokens htokens s s' h
  obtain ⟨us, s₁, hus, hread, hslot⟩ := exists_read_of_caret_sign htokens h
  obtain ⟨t, ts, rfl, ht, -⟩ := List.map_eq_cons_iff.mp hus
  obtain ⟨s₂, hstep, -⟩ := exists_step_of_read_cons hread
  exact step_name_ne_ok ht hslot hstep

/-- A power cannot be a base without parentheses. -/
theorem refused_caret_number_caret (negative : Bool) (text : String) (value : Binary64) :
    Refused (.caret :: (signLexemes negative ++ [.number text value, .caret])) := by
  intro tokens htokens s s' h
  obtain ⟨us, s₁, hus, hread, hslot⟩ := exists_read_of_caret_sign htokens h
  obtain ⟨t, ts, rfl, ht, hts⟩ := List.map_eq_cons_iff.mp hus
  obtain ⟨s₂, hstep, hread₂⟩ := exists_step_of_read_cons hread
  obtain ⟨u, us', rfl, hu, -⟩ := List.map_eq_cons_iff.mp hts
  obtain ⟨s₃, hstep₃, -⟩ := exists_step_of_read_cons hread₂
  obtain ⟨e, he⟩ := slot_of_step_number ht hslot hstep
  obtain ⟨base, hbase⟩ := (slot_of_step_caret hu hstep₃).1
  rw [he] at hbase
  cases hbase

end SchoolAlgebra
