import SchoolAlgebra.Proofs.Expr.FirstError
import SchoolAlgebra.Proofs.Expr.FixedPoint
import SchoolAlgebra.Proofs.Expr.Origin
import SchoolAlgebra.Proofs.ForMathlib.Except

/-!
# Layout does not matter

Two sources may differ in blanks, in characters that are passed over, in how an operator is written
and whether a multiplication is written at all, and in the spelling of a numeral. If their tokens
agree but for that, then both are refused at the same token, or both are read as the same expression
but for its spans, and everything that is done with it has the same result but for spans.

The parser takes from a token its lexeme, without the spelling of a numeral, and its place. So a
token is stripped to a lexeme at the origin, and reading stripped tokens leads to the states of the
parser at the origin: one step first, then a run.

## What a token is worth to the parser

A numeral is compared by its value and not by its text, for a number can be written in many ways.
Offsets are left out altogether: a state of the parser holds expressions with spans, offsets of
minus signs and offsets of open parentheses, all of which are moved to the origin. What is left of a
step is then a function of the lexeme alone.

## Main definitions

* `Lexeme.unspelled` — a lexeme without the spelling of a numeral
* `ParseState.RefusesAt` — which token a run of the parser ends at with an error

## Main results

* `ParseState.step_stripped` — a step does not look at places
* `ParseState.run?_alike` — a run is refused at the same token
* `Expr.alike_of_unspelled_eq` — sources with the same tokens
-/

namespace SchoolAlgebra

/-- The lexeme without the spelling of its numeral. -/
def Lexeme.unspelled : Lexeme → Lexeme
  | .number _ value => .number "" value
  | l => l

/-- The token at the origin, without the spelling of its numeral. -/
def Token.stripped (t : Token) : Token := ⟨t.lexeme.unspelled, .origin⟩

theorem Lexeme.unspelled_eq_finish_iff {l : Lexeme} : l.unspelled = .finish ↔ l = .finish := by
  cases l <;> simp [unspelled]

theorem Token.stripped_eq_iff {t u : Token} :
    t.stripped = u.stripped ↔ t.lexeme.unspelled = u.lexeme.unspelled := by
  simp [stripped]

/-! ### States at the origin

One lemma for each part of a step says that it commutes with moving to the origin. A token either
goes on with the operand in hand, or begins an operand or follows one, and the step is put together
from these. -/

/-- The operand with its spans at the origin. -/
def Slot.atOrigin : Slot → Slot
  | .vacant => .vacant
  | .atom e => .atom e.atOrigin
  | .caret base => .caret base.atOrigin
  | .signedCaret base => .signedCaret base.atOrigin
  | .power e => .power e.atOrigin

theorem Slot.operand?_atOrigin (slot : Slot) :
    slot.atOrigin.operand? = slot.operand?.map Expr.atOrigin := by
  cases slot <;> simp [atOrigin, operand?, Expr.atOrigin]

namespace Pending

/-- What an operator leaves open on its left, with its spans at the origin. -/
def leftAtOrigin (left : Expr × Operator) : Expr × Operator := (left.1.atOrigin, left.2)

/-- What stands to the left, with its spans at the origin. -/
def atOrigin (p : Pending) : Pending :=
  ⟨p.sum.map leftAtOrigin, p.term.map leftAtOrigin, p.signs.map fun _ => 0⟩

theorem attach_atOrigin (left : Option (Expr × Operator)) (e : Expr) :
    attach (left.map leftAtOrigin) e.atOrigin = (attach left e).atOrigin := by
  cases left with
  | none => rfl
  | some left => exact (Expr.atOrigin_join ..).symm

theorem factor_atOrigin (p : Pending) (e : Expr) :
    p.atOrigin.factor e.atOrigin = (p.factor e).atOrigin := by
  obtain ⟨sum, term, signs⟩ := p
  simp only [factor, atOrigin]
  induction signs generalizing e with
  | nil => rfl
  | cons sign signs ih =>
    rw [List.map_cons, List.foldl_cons, List.foldl_cons, ← ih, Expr.stop_atOrigin]
    rfl

theorem completeTerm_atOrigin (p : Pending) (e : Expr) :
    p.atOrigin.completeTerm e.atOrigin = (p.completeTerm e).atOrigin := by
  rw [completeTerm, completeTerm, factor_atOrigin, ← attach_atOrigin]
  rfl

theorem completeSum_atOrigin (p : Pending) (e : Expr) :
    p.atOrigin.completeSum e.atOrigin = (p.completeSum e).atOrigin := by
  rw [completeSum, completeSum, completeTerm_atOrigin, ← attach_atOrigin]
  rfl

theorem afterOperator_atOrigin (p : Pending) (e : Expr) (op : Operator) :
    p.atOrigin.afterOperator e.atOrigin op = (p.afterOperator e op).atOrigin := by
  unfold afterOperator
  rw [completeSum_atOrigin, completeTerm_atOrigin]
  split <;> rfl

end Pending

namespace ParseState

/-- The state with its spans at the origin. -/
def atOrigin (s : ParseState) : ParseState :=
  ⟨s.slot.atOrigin, s.pending.atOrigin, s.groups.map fun g => (0, g.2.atOrigin)⟩

variable {s s' next : ParseState} {t u stop : Token} {ts us : List Token} {k : Nat}
  {error : ParseError}

theorem beginOperand_stripped (s : ParseState) (t : Token) :
    (s.atOrigin.beginOperand t.stripped).toOption =
      (s.beginOperand t).toOption.map atOrigin := by
  obtain ⟨l, span⟩ := t
  cases l with
  | operator op => cases op <;> rfl
  | _ => rfl

theorem afterOperand_stripped (s : ParseState) (e : Expr) (t : Token) :
    (s.atOrigin.afterOperand e.atOrigin t.stripped).toOption =
      (s.afterOperand e t).toOption.map atOrigin := by
  obtain ⟨l, span⟩ := t
  obtain ⟨slot, pending, groups⟩ := s
  cases l with
  | operator op =>
    have h := Pending.afterOperator_atOrigin pending e op
    exact congrArg (fun p => some (ParseState.mk .vacant p _)) h
  | rightParen =>
    cases groups with
    | nil => rfl
    | cons group groups =>
      have h : (pending.atOrigin.completeSum e.atOrigin).withSpan (some .origin) =
          ((pending.completeSum e).withSpan (some ⟨group.1, span.stop⟩)).atOrigin := by
        rw [Pending.completeSum_atOrigin, Expr.atOrigin_withSpan]
        rfl
      exact congrArg (fun e => some (ParseState.mk (.atom e) _ _)) h
  | _ => rfl

theorem raised_stripped (base : Expr) (exponent : Binary64) (t : Token) :
    raised base.atOrigin exponent t.stripped = (raised base exponent t).atOrigin := by
  rw [raised, Expr.start_atOrigin]
  rfl

theorem continuesWith_stripped (slot : Slot) (l : Lexeme) :
    slot.atOrigin.continuesWith l.unspelled = slot.continuesWith l := by
  cases l with
  | operator op => cases op <;> cases slot <;> rfl
  | _ => cases slot <;> rfl

/-- A token that does not go on with the operand in hand begins an operand or follows one. -/
theorem step_of_not_continuesWith (h : s.slot.continuesWith t.lexeme = false) :
    s.step t = match s.slot.operand? with
      | none => s.beginOperand t
      | some e => s.afterOperand e t := by
  cases hoperand : s.slot.operand? with
  | none =>
    obtain ⟨slot, pending, groups⟩ := s
    cases slot with
    | vacant => exact step_vacant pending groups t
    | _ => cases hoperand
  | some e => exact Holds.step ⟨hoperand, h⟩

/-- A token that goes on with the operand in hand changes only that. -/
theorem step_stripped_of_continuesWith {slot : Slot} {l : Lexeme}
    (h : slot.continuesWith l = true) (p : Pending) (g : List (Nat × Pending)) (a : Span) :
    ((atOrigin ⟨slot, p, g⟩).step (Token.stripped ⟨l, a⟩)).toOption =
      (step ⟨slot, p, g⟩ ⟨l, a⟩).toOption.map atOrigin := by
  have hpower {base e : Expr} (heq : base = e) :
      some (ParseState.mk (.power base) (atOrigin ⟨slot, p, g⟩).pending
        (atOrigin ⟨slot, p, g⟩).groups) =
        some (ParseState.mk (.power e) (atOrigin ⟨slot, p, g⟩).pending
          (atOrigin ⟨slot, p, g⟩).groups) := by
    rw [heq]
  unfold Slot.continuesWith at h
  split at h
  · rfl
  · rfl
  · exact hpower (raised_stripped _ _ ⟨.number _ _, a⟩)
  · exact hpower (raised_stripped _ _ ⟨.number _ _, a⟩)
  · cases h

/-- **A step of the parser does not look at places.** -/
theorem step_stripped (s : ParseState) (t : Token) :
    (s.atOrigin.step t.stripped).toOption = (s.step t).toOption.map atOrigin := by
  have hcontinues := continuesWith_stripped s.slot t.lexeme
  cases h : s.slot.continuesWith t.lexeme with
  | true => exact step_stripped_of_continuesWith h s.pending s.groups t.span
  | false =>
    have hoperand : s.atOrigin.slot.operand? = s.slot.operand?.map Expr.atOrigin :=
      Slot.operand?_atOrigin s.slot
    rw [step_of_not_continuesWith h, step_of_not_continuesWith (hcontinues.trans h), hoperand]
    cases s.slot.operand? with
    | none => exact beginOperand_stripped s t
    | some e => exact afterOperand_stripped s e t

/-- Nor does the answer at the end. -/
theorem finish_stripped (s : ParseState) (stop : Token) :
    (s.atOrigin.finish stop.stripped).toOption = (s.finish stop).toOption.map Expr.atOrigin := by
  have hoperand : s.atOrigin.slot.operand? = s.slot.operand?.map Expr.atOrigin :=
    Slot.operand?_atOrigin s.slot
  rw [finish, finish, hoperand]
  cases s.slot.operand? with
  | none => rfl
  | some e =>
    have hgroups : s.atOrigin.groups.isEmpty = s.groups.isEmpty := List.isEmpty_map
    have hsum : s.atOrigin.pending.completeSum e.atOrigin = (s.pending.completeSum e).atOrigin :=
      Pending.completeSum_atOrigin s.pending e
    dsimp only [Option.map_some]
    rw [hgroups, hsum]
    split <;> rfl

/-! ### Runs

The induction is over the two lists of tokens side by side. Either both runs take the next step and
their states are again the same at the origin, or both are refused there, with errors that stand at
that token. -/

/-- A run of the parser reads the tokens before the one with this index, and ends at that one with
this error. -/
inductive RefusesAt : ParseState → List Token → Nat → ParseError → Prop where
  /-- The source ends too soon. -/
  | finish {s : ParseState} {stop : Token} {rest : List Token} {error : ParseError}
      (hstop : stop.lexeme = .finish) (h : s.finish stop = .error error) :
      RefusesAt s (stop :: rest) 0 error
  /-- The token cannot be read. -/
  | step {s : ParseState} {t : Token} {rest : List Token} {error : ParseError}
      (ht : t.lexeme ≠ .finish) (h : s.step t = .error error) : RefusesAt s (t :: rest) 0 error
  /-- The token is read, and the error comes later. -/
  | read {s next : ParseState} {t : Token} {rest : List Token} {k : Nat} {error : ParseError}
      (ht : t.lexeme ≠ .finish) (h : s.step t = .ok next) (hrest : next.RefusesAt rest k error) :
      RefusesAt s (t :: rest) (k + 1) error

/-- The error stands at the token with the index. -/
theorem RefusesAt.exists_token (h : s.RefusesAt ts k error) :
    ∃ t, ts[k]? = some t ∧ error.position = t.span.start := by
  induction h with
  | finish _ h => exact ⟨_, rfl, position_of_finish_eq_error h⟩
  | step _ h => exact ⟨_, rfl, position_of_step_eq_error h⟩
  | read _ _ _ ih => exact ih

/-- **Runs that look the same without places end alike.** -/
theorem run?_alike (hs : s.atOrigin = s'.atOrigin)
    (hts : ts.map Token.stripped = us.map Token.stripped) :
    (s.run? ts = none ∧ s'.run? us = none) ∨
      (∃ e e', s.run? ts = some (.ok e) ∧ s'.run? us = some (.ok e') ∧
        e.atOrigin = e'.atOrigin) ∨
      ∃ k error error', s.run? ts = some (.error error) ∧ s'.run? us = some (.error error') ∧
        s.RefusesAt ts k error ∧ s'.RefusesAt us k error' := by
  induction ts generalizing s s' us with
  | nil =>
    obtain rfl := List.map_eq_nil_iff.mp hts.symm
    exact .inl ⟨rfl, rfl⟩
  | cons t ts ih =>
    obtain ⟨u, us, rfl, htu, hrest⟩ := List.map_eq_cons_iff.mp hts.symm
    have hlexeme := Token.stripped_eq_iff.mp htu
    by_cases ht : t.lexeme = .finish
    · have hu : u.lexeme = .finish := by
        rwa [← Lexeme.unspelled_eq_finish_iff, hlexeme, Lexeme.unspelled_eq_finish_iff]
      have hfinish := finish_stripped s t
      rw [hs, ← htu, finish_stripped] at hfinish
      rw [run?, run?, if_pos ht, if_pos hu]
      obtain ⟨e', e, he', he, heq⟩ | ⟨error', error, herror', herror⟩ :=
        cases_of_toOption_map_eq hfinish
      · exact .inr (.inl ⟨e, e', congrArg some he, congrArg some he', heq.symm⟩)
      · exact .inr (.inr ⟨0, error, error', congrArg some herror, congrArg some herror',
          .finish ht herror, .finish hu herror'⟩)
    · have hu : u.lexeme ≠ .finish := by
        rwa [ne_eq, ← Lexeme.unspelled_eq_finish_iff, hlexeme, Lexeme.unspelled_eq_finish_iff]
      have hstep := step_stripped s t
      rw [hs, ← htu, step_stripped] at hstep
      rw [run?, run?, if_neg ht, if_neg hu]
      obtain ⟨next', next, hnext', hnext, heq⟩ | ⟨error', error, herror', herror⟩ :=
        cases_of_toOption_map_eq hstep
      · rw [hnext, hnext']
        obtain hnone | hok | ⟨k, error, error', herror, herror', hk, hk'⟩ := ih heq.symm hrest.symm
        · exact .inl hnone
        · exact .inr (.inl hok)
        · exact .inr (.inr ⟨k + 1, error, error', herror, herror', .read ht hnext hk,
            .read hu hnext' hk'⟩)
      · rw [herror, herror']
        exact .inr (.inr ⟨0, error, error', rfl, rfl, .step ht herror, .step hu herror'⟩)

end ParseState

/-! ### Sources

A refusal is carried over to sources by the index of the token, since the offsets differ. What was
read is carried over by moving it to the origin, which values, simplification and hints do not
notice. -/

/-- The source is refused at the token with this index, where the error stands. -/
def Expr.RefusedAt (source : String) (k : Nat) : Prop :=
  ∃ error t, Expr.parse source = .error error ∧
    ParseState.initial.RefusesAt (Token.scan source) k error ∧
      (Token.scan source)[k]? = some t ∧ error.position = t.span.start

/-- **Sources with the same tokens are refused or read alike.** Let the tokens of two sources agree
but for their places and for the spelling of numerals. Then both sources are refused, at the token
with the same index. Or both are read, as expressions that are the same but for their spans. These
have the same value or none, they simplify to expressions that are the same but for their spans and
are printed the same, and they have the same hints in the same order, with as many spans each. -/
theorem Expr.alike_of_unspelled_eq (source other : String)
    (h : (Token.scan source).map (·.lexeme.unspelled) =
      (Token.scan other).map (·.lexeme.unspelled)) :
    (∃ k, RefusedAt source k ∧ RefusedAt other k) ∨
      ∃ e e', Expr.parse source = .ok e ∧ Expr.parse other = .ok e' ∧ e.bare = e'.bare ∧
        e.value? = e'.value? ∧ e.simplify.bare = e'.simplify.bare ∧
          e.simplify.render = e'.simplify.render ∧
            (Hint.ofExpr e).map Hint.atOrigin = (Hint.ofExpr e').map Hint.atOrigin := by
  have hstripped :
      (Token.scan source).map Token.stripped = (Token.scan other).map Token.stripped := by
    have h := congrArg (List.map (Token.mk · .origin)) h
    rwa [List.map_map, List.map_map] at h
  have hanswer (source : String) := ofTokens?_scan source
  obtain ⟨hnone, -⟩ | ⟨e, e', he, he', heq⟩ | ⟨k, error, error', herror, herror', hk, hk'⟩ :=
    ParseState.run?_alike (s := .initial) rfl hstripped
  · cases hnone.symm.trans (hanswer source)
  · have hsimplify : e.simplify.atOrigin = e'.simplify.atOrigin := by
      rw [← simplify_atOrigin, heq, simplify_atOrigin]
    have hbare {a b : Expr} (hab : a.atOrigin = b.atOrigin) : a.bare = b.bare := by
      rw [← bare_atOrigin, hab, bare_atOrigin]
    refine .inr ⟨e, e', parse_eq_ok_iff.mpr he, parse_eq_ok_iff.mpr he', hbare heq, ?_,
      hbare hsimplify, ?_, ?_⟩
    · rw [← value?_atOrigin, heq, value?_atOrigin]
    · rw [← render_bare, hbare hsimplify, render_bare]
    · rw [← Hint.ofExpr_atOrigin, heq, Hint.ofExpr_atOrigin]
  · have hrefused {source : String} {error : ParseError}
        (herror : ParseState.initial.run? (Token.scan source) = some (.error error))
        (hk : ParseState.initial.RefusesAt (Token.scan source) k error) : RefusedAt source k := by
      obtain ⟨t, ht, hposition⟩ := hk.exists_token
      exact ⟨error, t, Option.some.inj ((hanswer source).symm.trans herror), hk, ht, hposition⟩
    exact .inl ⟨k, hrefused herror hk, hrefused herror' hk'⟩

/-- The sources `3x + .50` and `3 × x ? + 0.5` have the same tokens but for places and spelling, and
so they have the same simplified form. -/
theorem Expr.alike_of_unspelled_eq_looseSum :
    (Token.scan "3x + .50").map (·.lexeme.unspelled) =
        (Token.scan "3 × x ? + 0.5").map (·.lexeme.unspelled) ∧
      ∃ e e', Expr.parse "3x + .50" = .ok e ∧ Expr.parse "3 × x ? + 0.5" = .ok e' ∧ e ≠ e' ∧
        e.simplify.render = e'.simplify.render := by
  have hscan : (Token.scan "3x + .50").map (·.lexeme.unspelled) =
      (Token.scan "3 × x ? + 0.5").map (·.lexeme.unspelled) := by decide +kernel
  refine ⟨hscan, ?_⟩
  obtain ⟨k, ⟨error, -, herror, -⟩, -⟩ | ⟨e, e', he, he', -, -, -, hrender, -⟩ :=
    Expr.alike_of_unspelled_eq "3x + .50" "3 × x ? + 0.5" hscan
  · have hok : (Expr.parse "3x + .50").isOk = true := by decide +kernel
    rw [herror] at hok
    cases hok
  · refine ⟨e, e', he, he', ?_, hrender⟩
    rintro rfl
    have hne : Expr.parse "3x + .50" ≠ Expr.parse "3 × x ? + 0.5" := by decide +kernel
    exact hne (he.trans he'.symm)

end SchoolAlgebra
