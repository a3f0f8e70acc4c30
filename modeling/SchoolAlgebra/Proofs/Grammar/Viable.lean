import SchoolAlgebra.Proofs.Grammar.Parsing

/-!
# What can still become an expression

Whether lexemes are accepted does not depend on where they stand. So one can ask of the beginning of
a list of lexemes whether anything accepted begins like that. The parser answers as early as can
be: as long as it reads on, the lexemes so far can be completed, and where it stops with an error
they cannot.

A completion is short. Where an operand must come, any numeral will do; then every open group takes
a closing parenthesis. That no continuation mends an error holds because the parser sees one token
at a time, in order.

## Main definitions

* `Lexeme.Accepted` — the parser accepts the lexemes

## Main results

* `Lexeme.accepted_map_iff` — it does not matter where they stand
* `Lexeme.exists_accepted_of_read` — what is read can be completed
* `Lexeme.not_accepted_of_step` — what is not read cannot
* `ParseState.exists_of_run?_eq_error` — an error is found at a token that is not read
-/

namespace SchoolAlgebra

open Phrase

/-! ### Lexemes that are accepted

By definition lexemes are accepted if some tokens with them are. It has to be shown that then any
other tokens with these lexemes are accepted too, and for this the grammar is used, which knows of
no places. -/

namespace Lexeme

/-- The parser accepts tokens with these lexemes, in front of the end of a source. -/
def Accepted (ls : List Lexeme) : Prop :=
  ∃ (tokens : List Token) (stop : Token) (e : Expr), tokens.map Token.lexeme = ls ∧
    (∀ t ∈ tokens, t.lexeme ≠ .finish) ∧ stop.lexeme = .finish ∧
      Expr.ofTokens? (tokens ++ [stop]) = some (.ok e)

/-- It does not matter where the lexemes stand. -/
theorem accepted_map_iff {tokens : List Token} {stop : Token}
    (htokens : ∀ t ∈ tokens, t.lexeme ≠ .finish) (hstop : stop.lexeme = .finish) :
    Accepted (tokens.map Token.lexeme) ↔
      ∃ e, Expr.ofTokens? (tokens ++ [stop]) = some (.ok e) := by
  refine ⟨?_, fun ⟨e, he⟩ => ⟨tokens, stop, e, rfl, htokens, hstop, he⟩⟩
  rintro ⟨tokens', stop', e, hlexemes, htokens', hstop', he⟩
  obtain ⟨d, hd, -⟩ := Sum.exists_of_ofTokens? htokens' hstop' he
  obtain ⟨e', he', -⟩ := (hlexemes ▸ hd).ofTokens? htokens hstop
  exact ⟨e', he'⟩

/-- Lexemes are accepted exactly if the parser reads them and then has an answer. -/
theorem accepted_map_iff_read {tokens : List Token} (htokens : ∀ t ∈ tokens, t.lexeme ≠ .finish) :
    Accepted (tokens.map Token.lexeme) ↔
      ∃ last e, ParseState.initial.read tokens = .ok last ∧
        last.finish ⟨.finish, ⟨0, 0⟩⟩ = .ok e := by
  have hstop : (Token.mk .finish ⟨0, 0⟩).lexeme = .finish := rfl
  rw [accepted_map_iff htokens hstop]
  simp only [Expr.ofTokens?_append_finish htokens hstop, Option.some.injEq]
  constructor
  · rintro ⟨e, he⟩
    obtain ⟨last, hread, hfinish⟩ := exists_of_bind_eq_ok he
    exact ⟨last, e, hread, hfinish⟩
  · rintro ⟨last, e, hread, hfinish⟩
    exact ⟨e, by rw [hread]; exact hfinish⟩

end Lexeme

/-! ### Completions -/

namespace ParseState

variable {s s' : ParseState} {t : Token} {e : Expr} {error : ParseError}

/-- A closing parenthesis. -/
def closing : Token := ⟨.rightParen, ⟨0, 0⟩⟩

theorem slot_continuesWith_rightParen (slot : Slot) : slot.continuesWith .rightParen = false := by
  cases slot <;> rfl

/-- With an operand in hand there is an answer as soon as the groups are closed. -/
theorem exists_read_closing (h : s.slot.operand? = some e) :
    ∃ last e', s.read (List.replicate s.groups.length closing) = .ok last ∧
      ∀ stop, last.finish stop = .ok e' := by
  obtain ⟨slot, pending, groups⟩ := s
  induction groups generalizing slot pending e with
  | nil =>
    refine ⟨_, pending.completeSum e, rfl, fun stop => ?_⟩
    rw [finish, h]
    rfl
  | cons group groups ih =>
    have hholds : Holds ⟨slot, pending, group :: groups⟩ e closing.lexeme :=
      ⟨h, slot_continuesWith_rightParen slot⟩
    -- the group becomes the operand of what was open before it
    obtain ⟨atom, hstep⟩ : ∃ atom, step ⟨slot, pending, group :: groups⟩ closing =
        .ok ⟨.atom atom, group.2, groups⟩ := ⟨_, hholds.step⟩
    obtain ⟨last, e', hread, hfinish⟩ := @ih atom (.atom atom) group.2 rfl
    refine ⟨last, e', ?_, hfinish⟩
    rw [List.length_cons, List.replicate_succ, read_cons, hstep]
    exact hread

/-- **From every state there is a way to an answer.** -/
theorem exists_completion (s : ParseState) :
    ∃ (rest : List Token) (last : ParseState) (e : Expr), (∀ t ∈ rest, t.lexeme ≠ .finish) ∧
      s.read rest = .ok last ∧ ∀ stop, last.finish stop = .ok e := by
  have hclosing (k : Nat) : ∀ t ∈ List.replicate k closing, t.lexeme ≠ .finish := by
    intro t ht
    rw [List.eq_of_mem_replicate ht]
    nofun
  cases hoperand : s.slot.operand? with
  | some operand =>
    obtain ⟨last, e, hread, hfinish⟩ := exists_read_closing hoperand
    exact ⟨_, last, e, hclosing _, hread, hfinish⟩
  | none =>
    obtain ⟨slot, pending, groups⟩ := s
    cases slot with
    | vacant =>
      have hnumber : step ⟨.vacant, pending, groups⟩ ⟨.number "1" .one, ⟨0, 0⟩⟩ =
          .ok ⟨.atom (.num .one (some ⟨0, 0⟩)), pending, groups⟩ := rfl
      obtain ⟨last, e, hread, hfinish⟩ :=
        exists_read_closing (s := ⟨.atom (.num .one (some ⟨0, 0⟩)), pending, groups⟩) rfl
      refine ⟨⟨.number "1" .one, ⟨0, 0⟩⟩ :: List.replicate groups.length closing, last, e, ?_, ?_,
        hfinish⟩
      · exact List.forall_mem_cons.mpr ⟨nofun, hclosing _⟩
      · rw [read_cons, hnumber]
        exact hread
    | _ => cases hoperand

/-! ### Errors

Which token an error is about is not part of the error. It is found again by the run: it is the
first token that is not read, and the position of the error is where that token begins. -/

theorem position_refusal (s : ParseState) (t : Token) : (s.refusal t).position = t.span.start := by
  rw [refusal]
  split <;> rfl

/-- An error of a step is the error of its token. -/
theorem position_of_step_eq_error (h : s.step t = .error error) :
    error.position = t.span.start := by
  have hrefused : ∀ s' : ParseState, ∀ e, s'.afterOperand e t = .error error →
      error.position = t.span.start := by
    intro s' e hafter
    unfold afterOperand at hafter
    split at hafter <;> cases hafter
    exact position_refusal s' t
  unfold step at h
  split at h
  · cases h
  · cases h
  · cases h
  · cases h
  · split at h
    · unfold beginOperand at h
      split at h <;> cases h
      rfl
    · exact hrefused _ _ h

/-- An error at the end of the source is the error of the token that ends it. -/
theorem position_of_finish_eq_error (h : s.finish t = .error error) :
    error.position = t.span.start := by
  unfold finish at h
  split at h
  · cases h
    rfl
  · split at h <;> cases h
    exact position_refusal s t

/-- The tokens before the one at which an error is found are read, and that one is not. -/
theorem exists_of_run?_eq_error {tokens : List Token} (h : s.run? tokens = some (.error error)) :
    ∃ before culprit behind last, tokens = before ++ culprit :: behind ∧
      (∀ t ∈ before, t.lexeme ≠ .finish) ∧ s.read before = .ok last ∧
        (culprit.lexeme = .finish ∧ last.finish culprit = .error error ∨
          culprit.lexeme ≠ .finish ∧ last.step culprit = .error error) := by
  induction tokens generalizing s with
  | nil => cases h
  | cons t tokens ih =>
    rw [run?] at h
    split at h
    · next hfinish =>
      exact ⟨[], t, tokens, s, rfl, List.forall_mem_nil _, rfl, .inl ⟨hfinish, Option.some.inj h⟩⟩
    · next hfinish =>
      split at h
      · next next hstep =>
        obtain ⟨before, culprit, behind, last, rfl, hbefore, hread, herror⟩ := ih h
        refine ⟨t :: before, culprit, behind, last, rfl,
          List.forall_mem_cons.mpr ⟨hfinish, hbefore⟩, ?_, herror⟩
        rw [read_cons, hstep]
        exact hread
      · next error' hstep =>
        cases h
        exact ⟨[], t, tokens, s, rfl, List.forall_mem_nil _, rfl, .inr ⟨hfinish, hstep⟩⟩

end ParseState

/-! ### Beginnings

What is accepted is read token by token, so every beginning of it is read. This is one direction; a
completion from the state that was reached is the other. -/

namespace Lexeme

open ParseState

variable {before : List Token} {last : ParseState} {culprit : Token} {error : ParseError}

/-- **What the parser has read can be completed.** -/
theorem exists_accepted_of_read (hbefore : ∀ t ∈ before, t.lexeme ≠ .finish)
    (hread : ParseState.initial.read before = .ok last) :
    ∃ rest, Accepted (before.map Token.lexeme ++ rest) := by
  obtain ⟨rest, last', e, hrest, hread', hfinish⟩ := exists_completion last
  refine ⟨rest.map Token.lexeme, ?_⟩
  rw [← List.map_append, accepted_map_iff_read (List.forall_mem_append.mpr ⟨hbefore, hrest⟩)]
  exact ⟨last', e, by rw [read_append_of_ok hread, hread'], hfinish _⟩

/-- **Nothing that is accepted begins with a token that the parser does not read.** -/
theorem not_accepted_of_step (hread : ParseState.initial.read before = .ok last)
    (hstep : last.step culprit = .error error) (rest : List Lexeme) :
    ¬ Accepted ((before ++ [culprit]).map Token.lexeme ++ rest) := by
  intro haccepted
  obtain ⟨us, rfl⟩ : ∃ us : List Token, us.map Token.lexeme = rest :=
    ⟨rest.map fun l => ⟨l, ⟨0, 0⟩⟩, by simp [Function.comp_def]⟩
  rw [← List.map_append] at haccepted
  have hfinish : ∀ t ∈ before ++ [culprit] ++ us, t.lexeme ≠ .finish := by
    obtain ⟨tokens, -, -, hlexemes, htokens, -⟩ := haccepted
    intro t ht
    obtain ⟨u, hu, heq⟩ := List.mem_map.mp (hlexemes ▸ List.mem_map_of_mem ht)
    exact heq ▸ htokens u hu
  obtain ⟨last', e, hread', -⟩ := (accepted_map_iff_read hfinish).mp haccepted
  rw [List.append_assoc, read_append_of_ok hread, List.singleton_append, read_cons, hstep] at hread'
  cases hread'

/-- Tokens after which the end of a source is an error are not accepted. -/
theorem not_accepted_of_finish (hbefore : ∀ t ∈ before, t.lexeme ≠ .finish)
    (hread : ParseState.initial.read before = .ok last) (hculprit : culprit.lexeme = .finish)
    (hfinish : last.finish culprit = .error error) : ¬ Accepted (before.map Token.lexeme) := by
  rw [accepted_map_iff hbefore hculprit]
  rintro ⟨e, he⟩
  rw [Expr.ofTokens?_append_finish hbefore hculprit, hread] at he
  cases (Option.some.inj he).symm.trans hfinish

end Lexeme

end SchoolAlgebra
