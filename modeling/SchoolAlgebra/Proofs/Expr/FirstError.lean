import SchoolAlgebra.Proofs.Expr.Lexical
import SchoolAlgebra.Proofs.Grammar.Viable
import SchoolAlgebra.Proofs.Token.Order

/-!
# The position of an error

A source that is no expression is refused at the first token that cannot be right: what stands
before that token begins some expression, and with the token nothing does. The position of the error
is where the token starts, which is the end of the source exactly if the source ends too soon.

A multiplication that the source leaves unwritten is never that token, nor does the token start
where one stands: an operator can always follow a numeral that was read, and a name the operator.

## As early as can be

That the token cannot be right is a statement on all continuations: no list of lexemes that is
accepted begins with what was read and this token. That nothing before it is wrong is a statement on
one: some continuation of what was read is accepted. Together they say that no other token could be
meant, whatever method finds the error.

## Main definitions

* `Token.IsFirstWrong` — a token is the first of a source that cannot be right

## Main results

* `ParseState.start_ne_of_isImplicitMultiply` — no error where a multiplication is implied
* `Expr.exists_isFirstWrong_of_parse` — an error stands at the first token that cannot be right
-/

namespace SchoolAlgebra

open Token ParseState

/-- The answer for a source is the answer for its tokens. -/
theorem Expr.ofTokens?_scan (source : String) :
    Expr.ofTokens? (Token.scan source) = some (Expr.parse source) :=
  (Option.some_get (Expr.isSome_ofTokens?_scan source)).symm

namespace ParseState

variable {s s' last : ParseState} {numeral sign culprit t : Token} {error : ParseError}

/-- An operator can follow a numeral. -/
theorem exists_step_behind_number (hnumber : numeral.lexeme.isNumber = true)
    (hstep : s.step numeral = .ok s') (hsign : sign.lexeme = .operator .multiply) :
    ∃ p g, s'.step sign = .ok ⟨.vacant, p, g⟩ := by
  obtain ⟨slot, pending, groups⟩ := s
  cases hl : numeral.lexeme with
  | number text value =>
    cases slot with
    | vacant | caret base | signedCaret base =>
      simp only [step, hl, Slot.operand?, beginOperand, Except.ok.injEq] at hstep
      subst hstep
      simp [step, hsign, Slot.operand?, afterOperand]
    | atom e | power e => simp [step, hl, Slot.operand?, afterOperand] at hstep
  | _ => simp [hl, Lexeme.isNumber, Lexeme.value?] at hnumber

/-- A name can follow an operator. -/
theorem exists_step_name {p : Pending} {g : List (Nat × Pending)} {name : String}
    (ht : t.lexeme = .name name) : ∃ next, step ⟨.vacant, p, g⟩ t = .ok next := by
  rw [step_vacant, beginOperand, ht]
  exact ⟨_, rfl⟩

/-- No error is found at a token that begins where a multiplication is implied. -/
theorem start_ne_of_isImplicitMultiply {source : String} {before behind : List Token}
    (hscan : scan source = before ++ culprit :: behind)
    (hread : initial.read before = .ok last)
    (herror : culprit.lexeme = .finish ∨ last.step culprit = .error error) (ht : t ∈ scan source)
    (himplicit : t.isImplicitMultiply = true) : t.span.start ≠ culprit.span.start := by
  intro hstart
  have hsign := (isImplicitMultiply_iff.mp himplicit).1
  obtain ⟨init, numeral, hnumber, ⟨rfl, rfl⟩ | ⟨rfl, name, hname⟩⟩ :=
    exists_of_start_eq hscan ht himplicit hstart.symm
  all_goals
    obtain ⟨s, -, hrest⟩ := exists_read_of_read_append hread
    obtain ⟨s', hnumeral, hrest⟩ := exists_step_of_read_cons hrest
    obtain ⟨p, g, hstep⟩ := exists_step_behind_number hnumber hnumeral hsign
  · cases hrest
    rcases herror with hfinish | herror
    · cases hsign.symm.trans hfinish
    · cases hstep.symm.trans herror
  · obtain ⟨s'', hstep', hrest⟩ := exists_step_of_read_cons hrest
    cases hstep.symm.trans hstep'
    cases hrest
    obtain ⟨next, hstep''⟩ := exists_step_name (p := p) (g := g) hname
    rcases herror with hfinish | herror
    · cases hname.symm.trans hfinish
    · cases hstep''.symm.trans herror

end ParseState

/-- The token is the first of a source that cannot be right, and it stands at the position. -/
structure Token.IsFirstWrong (source : String) (position : Nat) (before : List Token)
    (culprit : Token) : Prop where
  /-- The token stands in the source. -/
  scan_eq : ∃ behind, scan source = before ++ culprit :: behind
  /-- The position is where the token starts. -/
  position_eq : position = culprit.span.start
  /-- That is the end of the source exactly if the token is. -/
  position_eq_length_iff : position = source.length ↔ culprit.lexeme = .finish
  /-- The tokens before it begin something that is accepted. -/
  exists_accepted : ∃ rest, Lexeme.Accepted (before.map Token.lexeme ++ rest)
  /-- Nothing that is accepted begins with the tokens before it and the token. -/
  not_accepted_append : culprit.lexeme ≠ .finish →
    ∀ rest, ¬ Lexeme.Accepted ((before ++ [culprit]).map Token.lexeme ++ rest)
  /-- If the source ends there, then what stands before is not accepted as it is. -/
  not_accepted : culprit.lexeme = .finish → ¬ Lexeme.Accepted (before.map Token.lexeme)
  /-- No multiplication is implied at the position. -/
  start_ne : ∀ t ∈ scan source, t.isImplicitMultiply = true → t.span.start ≠ position

/-- **A source is refused at the first token that cannot be right.** -/
theorem Expr.exists_isFirstWrong_of_parse (source : String) (error : ParseError)
    (hparse : Expr.parse source = .error error) :
    ∃ before culprit, IsFirstWrong source error.position before culprit := by
  have hanswer := Expr.ofTokens?_scan source
  rw [hparse] at hanswer
  obtain ⟨before, culprit, behind, last, hscan, hbefore, hread, herror⟩ :=
    exists_of_run?_eq_error hanswer
  have hposition : error.position = culprit.span.start := by
    rcases herror with ⟨-, hfinish⟩ | ⟨-, hstep⟩
    · exact position_of_finish_eq_error hfinish
    · exact position_of_step_eq_error hstep
  have hstart : ∀ t ∈ scan source, t.isImplicitMultiply = true →
      t.span.start ≠ culprit.span.start :=
    fun t => start_ne_of_isImplicitMultiply hscan hread (herror.imp And.left And.right)
  have hculprit : culprit ∈ scan source := by
    rw [hscan]
    exact List.mem_append_right _ List.mem_cons_self
  have himplicit : culprit.isImplicitMultiply = false := by
    by_contra htrue
    exact hstart culprit hculprit (Bool.not_eq_false _ ▸ htrue) rfl
  refine ⟨before, culprit, ⟨behind, hscan⟩, hposition, ?_,
    Lexeme.exists_accepted_of_read hbefore hread, fun hne => ?_, fun heq => ?_, ?_⟩
  · rw [hposition]
    exact start_eq_length_iff hculprit himplicit
  · rcases herror with ⟨heq, -⟩ | ⟨-, hstep⟩
    · exact absurd heq hne
    · exact Lexeme.not_accepted_of_step hread hstep
  · rcases herror with ⟨-, hfinish⟩ | ⟨hne, -⟩
    · exact Lexeme.not_accepted_of_finish hbefore hread heq hfinish
    · exact absurd heq hne
  · rw [hposition]
    exact hstart

/-- In `(2x^-y` the minus is taken for the sign of an exponent, and the name is the first token that
cannot be right. -/
theorem Expr.exists_isFirstWrong_of_parse_signedCaret :
    Expr.parse "(2x^-y" = .error ⟨.unclosedGroup, 5⟩ ∧
      ∃ before culprit, IsFirstWrong "(2x^-y" 5 before culprit := by
  have hparse : Expr.parse "(2x^-y" = .error ⟨.unclosedGroup, 5⟩ := by decide +kernel
  exact ⟨hparse, Expr.exists_isFirstWrong_of_parse _ _ hparse⟩

end SchoolAlgebra
