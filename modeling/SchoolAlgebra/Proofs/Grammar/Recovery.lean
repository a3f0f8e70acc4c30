import SchoolAlgebra.Proofs.Grammar.Reading

/-!
# What the parser accepts has a derivation

A state of the parser is a derivation that is not finished: each of its parts is the expression of a
phrase, and the phrases, put side by side with the operators and parentheses between them, are what
has been read so far. `ParseState.Covers` says so, one step keeps it, and so does every run. At the
end the parts join to one sum.

## From the state to a phrase

What is to the left of the operand in hand is, from the inside to the outside, some signs, a term
that awaits a factor, a sum that awaits a term, and the same again for each open group. Each of
these is described by the lexemes that it comes from, and these lists, one behind the other, are
what has been read. Completing an operand takes away the signs, then the term, then the sum, and
makes a phrase of the next level each time.

## Main definitions

* `ParseState.Covers` — the state comes from phrases whose lexemes are those read so far

## Main results

* `ParseState.Covers.step` — one step
* `ParseState.Covers.read` — any number of steps
* `Phrase.Sum.exists_of_finish` — an answer at the end of the source is the expression of a sum
-/

namespace SchoolAlgebra

open Phrase

/-! ### The lexemes behind a state -/

/-- What has been read of an operand comes from these lexemes. -/
inductive Slot.Covers : Slot → List Lexeme → Prop where
  | vacant : Covers .vacant []
  | atom {e : Expr} (a : Atom) (hmax : a.Maximal) (htree : a.tree = e.bare) :
      Covers (.atom e) a.lexemes
  | caret {base : Expr} (a : Atom) (hmax : a.Maximal) (htree : a.tree = base.bare) :
      Covers (.caret base) (a.lexemes ++ [.caret])
  | signedCaret {base : Expr} (a : Atom) (hmax : a.Maximal) (htree : a.tree = base.bare) :
      Covers (.signedCaret base) (a.lexemes ++ [.caret, .operator .subtract])
  | power {e : Expr} (a : Atom) (x : Exponent) (hmax : a.Maximal) (hx : x.numeral?.isSome = true)
      (htree : .power a.tree x.value none = e.bare) :
      Covers (.power e) (a.lexemes ++ .caret :: x.lexemes)

/-- A sum and the operator after it come from these lexemes. -/
inductive Pending.CoversSum : Option (Expr × Operator) → List Lexeme → Prop where
  | none : CoversSum .none []
  | some {e : Expr} {op : Operator} (s : Sum) (hop : op.isAdditive = true)
      (hmax : s.Maximal (.operator op)) (htree : s.tree = e.bare) :
      CoversSum (some (e, op)) (s.lexemes ++ [.operator op])

/-- A term and the operator after it come from these lexemes. -/
inductive Pending.CoversTerm : Option (Expr × Operator) → List Lexeme → Prop where
  | none : CoversTerm .none []
  | some {e : Expr} {op : Operator} (t : Phrase.Term) (hop : op.isMultiplicative = true)
      (hmax : t.Maximal (.operator op)) (htree : t.tree = e.bare) :
      CoversTerm (some (e, op)) (t.lexemes ++ [.operator op])

/-- What stands to the left of an operand comes from these lexemes: a sum, a term and signs. -/
inductive Pending.Covers (p : Pending) (ls : List Lexeme) : Prop where
  | mk {as bs : List Lexeme} (hsum : CoversSum p.sum as) (hterm : CoversTerm p.term bs)
      (hls : ls = as ++ bs ++ List.replicate p.signs.length (.operator .subtract))

/-- The open groups come from these lexemes. -/
inductive ParseState.CoversGroups : List (Nat × Pending) → List Lexeme → Prop where
  | nil : CoversGroups [] []
  | cons {start : Nat} {p : Pending} {groups : List (Nat × Pending)} {as bs ls : List Lexeme}
      (hgroups : CoversGroups groups as) (hp : p.Covers bs) (hls : ls = as ++ bs ++ [.leftParen]) :
      CoversGroups ((start, p) :: groups) ls

/-- A state comes from phrases, and from the operators and parentheses between them, of which these
are the lexemes: open groups, what stands to the left in the innermost one, and an operand. -/
inductive ParseState.Covers (s : ParseState) (ls : List Lexeme) : Prop where
  | mk {as bs cs : List Lexeme} (hgroups : CoversGroups s.groups as)
      (hpending : s.pending.Covers bs) (hslot : s.slot.Covers cs) (hls : ls = as ++ bs ++ cs)

theorem Pending.covers_none : Pending.none.Covers [] := .mk .none .none rfl

theorem ParseState.covers_initial : ParseState.initial.Covers [] :=
  .mk .nil Pending.covers_none .vacant rfl

/-! ### From an operand to a sum

A phrase is completed level by level, as the parser completes an expression. It is followed by the
lexeme that completed it, and this is where the exponents in it have to be the longest. -/

/-- An operand in hand that ends before `next` is the expression of a power. -/
theorem Slot.Covers.exists_power {slot : Slot} {ls : List Lexeme} {e : Expr} {next : Lexeme}
    (h : slot.Covers ls) (he : slot.operand? = some e)
    (hends : slot.continuesWith next = false) :
    ∃ q : Power, q.lexemes = ls ∧ q.Maximal next ∧ q.tree = e.bare := by
  cases h with
  | vacant => cases he
  | atom a hmax htree =>
    cases he
    exact ⟨.plain a, rfl, hmax, htree⟩
  | caret a hmax htree =>
    cases he
    refine ⟨.raised a ⟨false, none⟩, rfl, ⟨hmax, ?_⟩, by rw [Power.tree, htree]; rfl⟩
    refine Exponent.maximal_of_not_isNumber ?_ ?_
    · cases next <;> first | rfl | cases hends
    · rintro - rfl
      cases hends
  | signedCaret a hmax htree =>
    cases he
    refine ⟨.raised a ⟨true, none⟩, rfl, ⟨hmax, ?_⟩, by rw [Power.tree, htree]; rfl⟩
    refine Exponent.maximal_of_not_isNumber ?_ nofun
    cases next <;> first | rfl | cases hends
  | power a x hmax hx htree =>
    cases he
    exact ⟨.raised a x, rfl, ⟨hmax, Exponent.maximal_of_isSome hx next⟩, htree⟩

/-- Signs before a factor make a factor. -/
theorem Phrase.Factor.exists_of_signs {next : Lexeme} (signs : List Nat) {f : Factor} {e : Expr}
    (hmax : f.Maximal next) (htree : f.tree = e.bare) :
    ∃ f' : Factor, f'.lexemes =
        List.replicate signs.length (.operator .subtract) ++ f.lexemes ∧ f'.Maximal next ∧
      f'.tree = (signs.foldl (fun e sign => .neg e (some ⟨sign, e.stop⟩)) e).bare := by
  induction signs generalizing f e with
  | nil => exact ⟨f, rfl, hmax, htree⟩
  | cons sign signs ih =>
    obtain ⟨f', hlexemes, hmax', htree'⟩ :=
      ih (f := .minus f) (e := .neg e (some ⟨sign, e.stop⟩)) hmax (by rw [Factor.tree, htree]; rfl)
    refine ⟨f', ?_, hmax', htree'⟩
    rw [hlexemes, List.length_cons, List.replicate_succ', List.append_assoc]
    rfl

variable {p : Pending} {e : Expr} {next : Lexeme} {q : Power} {ls : List Lexeme}

/-- A power and what stands to its left, from the last additive operator on, make a term. -/
theorem Pending.exists_term (hterm : CoversTerm p.term ls)
    (hmax : q.Maximal next) (htree : q.tree = e.bare) :
    ∃ t : Phrase.Term, t.lexemes =
        ls ++ List.replicate p.signs.length (.operator .subtract) ++ q.lexemes ∧
      t.Maximal next ∧ t.tree = (p.completeTerm e).bare := by
  obtain ⟨f, hlexemes, hfactor, hftree⟩ :=
    Factor.exists_of_signs p.signs (f := .power q) (e := e) hmax htree
  change f.lexemes = _ ++ q.lexemes at hlexemes
  cases hp : p.term with
  | none =>
    rw [hp] at hterm
    cases hterm
    refine ⟨.mk f .done, ?_, ⟨hfactor, trivial⟩, ?_⟩
    · rw [Phrase.Term.lexemes, hlexemes, TermRest.lexemes, List.append_nil]
      rfl
    · rw [completeTerm_of_none hp]
      exact hftree
  | some found =>
    rw [hp] at hterm
    cases hterm with
    | some t hop ht httree =>
    refine ⟨t.snoc _ hop f, ?_, ht.snoc hfactor, ?_⟩
    · rw [Phrase.Term.lexemes_snoc, hlexemes]
      simp
    · rw [Phrase.Term.tree_snoc, completeTerm_of_some hp, Expr.bare_join, httree, hftree]
      rfl

/-- A power and all that stands to its left make a sum. -/
theorem Pending.Covers.exists_sum (hp : p.Covers ls) (hmax : q.Maximal next)
    (htree : q.tree = e.bare) :
    ∃ s : Sum, s.lexemes = ls ++ q.lexemes ∧ s.Maximal next ∧ s.tree = (p.completeSum e).bare := by
  obtain ⟨hsum, hterm, rfl⟩ := hp
  obtain ⟨t, hlexemes, ht, httree⟩ := exists_term hterm hmax htree
  cases hp : p.sum with
  | none =>
    rw [hp] at hsum
    cases hsum
    refine ⟨.mk t .done, ?_, ⟨ht, trivial⟩, ?_⟩
    · rw [Sum.lexemes, hlexemes, SumRest.lexemes, List.append_nil]
      rfl
    · rw [completeSum_of_none hp]
      exact httree
  | some found =>
    rw [hp] at hsum
    cases hsum with
    | some s hop hs hstree =>
    refine ⟨s.snoc _ hop t, ?_, hs.snoc ht, ?_⟩
    · rw [Sum.lexemes_snoc, hlexemes]
      simp
    · rw [Sum.tree_snoc, completeSum_of_some hp, Expr.bare_join, hstree, httree]

/-- After an operator, what was to the left and the operand before it are to the left. -/
theorem Pending.Covers.afterOperator {op : Operator} (hp : p.Covers ls)
    (hmax : q.Maximal (.operator op)) (htree : q.tree = e.bare) :
    (p.afterOperator e op).Covers (ls ++ q.lexemes ++ [.operator op]) := by
  cases hop : op.isAdditive with
  | true =>
    obtain ⟨s, hlexemes, hs, hstree⟩ := hp.exists_sum hmax htree
    rw [afterOperator_of_isAdditive hop, ← hlexemes]
    exact .mk (.some s hop hs hstree) .none (by simp)
  | false =>
    have hmul : op.isMultiplicative = true := by simp [Operator.isMultiplicative, hop]
    obtain ⟨hsum, hterm, rfl⟩ := hp
    obtain ⟨t, hlexemes, ht, httree⟩ := exists_term hterm hmax htree
    rw [afterOperator_of_isMultiplicative hmul]
    exact .mk hsum (.some t hmul ht httree) (by simp [hlexemes])

/-! ### Steps keep what a state comes from

A token that goes on with the operand in hand is added to the lexemes of the operand. Any other
token begins a new operand or completes one, and then the lexemes are divided anew among the parts
of the state. -/

namespace ParseState

variable {s s' : ParseState} {t : Token}

/-- A token that goes on with the operand in hand. -/
theorem Covers.step_continues (h : s.Covers ls)
    (hcontinues : s.slot.continuesWith t.lexeme = true) (hstep : s.step t = .ok s') :
    s'.Covers (ls ++ [t.lexeme]) := by
  obtain ⟨slot, pending, groups⟩ := s
  obtain ⟨hgroups, hpending, hslot, rfl⟩ := h
  cases hslot with
  | vacant => cases hcontinues
  | power => cases hcontinues
  | atom a hmax htree =>
    cases ht : t.lexeme with
    | caret =>
      simp only [step, ht] at hstep
      cases hstep
      exact .mk hgroups hpending (.caret a hmax htree) (by simp)
    | _ => simp [Slot.continuesWith, ht] at hcontinues
  | caret a hmax htree =>
    cases ht : t.lexeme with
    | number text value =>
      simp only [step, ht] at hstep
      cases hstep
      exact .mk hgroups hpending (.power a ⟨false, some (text, value)⟩ hmax rfl
        (by rw [htree]; rfl)) (by simp [Exponent.lexemes])
    | operator op =>
      cases op with
      | subtract =>
        simp only [step, ht] at hstep
        cases hstep
        exact .mk hgroups hpending (.signedCaret a hmax htree) (by simp)
      | _ => simp [Slot.continuesWith, ht] at hcontinues
    | _ => simp [Slot.continuesWith, ht] at hcontinues
  | signedCaret a hmax htree =>
    cases ht : t.lexeme with
    | number text value =>
      simp only [step, ht] at hstep
      cases hstep
      exact .mk hgroups hpending (.power a ⟨true, some (text, value)⟩ hmax rfl
        (by rw [htree]; rfl)) (by simp [Exponent.lexemes])
    | _ => simp [Slot.continuesWith, ht] at hcontinues

/-- A token where an operand must come. -/
theorem Covers.beginOperand {g : List (Nat × Pending)} (h : Covers ⟨.vacant, p, g⟩ ls)
    (hstep : ParseState.beginOperand ⟨.vacant, p, g⟩ t = .ok s') :
    s'.Covers (ls ++ [t.lexeme]) := by
  obtain ⟨hgroups, hpending, hslot, rfl⟩ := h
  cases hslot
  cases ht : t.lexeme with
  | number text value =>
    simp only [ParseState.beginOperand, ht] at hstep
    cases hstep
    exact .mk hgroups hpending (.atom (.number text value) trivial rfl) (by simp [Atom.lexemes])
  | name text =>
    simp only [ParseState.beginOperand, ht] at hstep
    cases hstep
    exact .mk hgroups hpending (.atom (.name text) trivial rfl) (by simp [Atom.lexemes])
  | leftParen =>
    simp only [ParseState.beginOperand, ht] at hstep
    cases hstep
    exact .mk (.cons hgroups hpending rfl) Pending.covers_none .vacant (by simp)
  | operator op =>
    cases op with
    | subtract =>
      simp only [ParseState.beginOperand, ht] at hstep
      cases hstep
      obtain ⟨hsum, hterm, rfl⟩ := hpending
      refine .mk hgroups (.mk hsum hterm rfl) .vacant ?_
      simp [Pending.afterSign, List.replicate_succ']
    | _ => simp [ParseState.beginOperand, ht] at hstep
  | _ => simp [ParseState.beginOperand, ht] at hstep

/-- A token after a complete operand. -/
theorem Covers.afterOperand (h : s.Covers ls) (hholds : s.Holds e t.lexeme)
    (hstep : s.afterOperand e t = .ok s') : s'.Covers (ls ++ [t.lexeme]) := by
  obtain ⟨slot, pending, groups⟩ := s
  obtain ⟨hgroups, hpending, hslot, rfl⟩ := h
  obtain ⟨q, rfl, hmax, htree⟩ := hslot.exists_power hholds.operand? hholds.ends
  cases ht : t.lexeme with
  | operator op =>
    simp only [ParseState.afterOperand, ht] at hstep
    cases hstep
    refine .mk hgroups (hpending.afterOperator (ht ▸ hmax) htree) .vacant ?_
    simp
  | rightParen =>
    cases hgroups with
    | nil => simp [ParseState.afterOperand, ht] at hstep
    | cons houter hpendingOuter hls =>
    simp only [ParseState.afterOperand, ht] at hstep
    cases hstep
    obtain ⟨sum, hlexemes, hsum, hstree⟩ := hpending.exists_sum (ht ▸ hmax) htree
    refine .mk houter hpendingOuter (.atom (.group sum) hsum ?_) ?_
    · rw [Expr.bare_withSpan]
      exact hstree
    · simp [hls, Atom.lexemes, hlexemes]
  | _ => simp [ParseState.afterOperand, ht] at hstep

/-- **One step keeps what the state comes from.** -/
theorem Covers.step (h : s.Covers ls) (hstep : s.step t = .ok s') :
    s'.Covers (ls ++ [t.lexeme]) := by
  cases hcontinues : s.slot.continuesWith t.lexeme with
  | true => exact h.step_continues hcontinues hstep
  | false =>
    cases hoperand : s.slot.operand? with
    | some e =>
      have hholds : s.Holds e t.lexeme := ⟨hoperand, hcontinues⟩
      exact h.afterOperand hholds (hholds.step ▸ hstep)
    | none =>
      obtain ⟨slot, pending, groups⟩ := s
      cases slot with
      | vacant => exact h.beginOperand (step_vacant pending groups t ▸ hstep)
      | _ => cases hoperand

theorem Covers.read {ts : List Token} (h : s.Covers ls) (hread : s.read ts = .ok s') :
    s'.Covers (ls ++ ts.map Token.lexeme) := by
  induction ts generalizing s ls with
  | nil =>
    cases hread
    simpa using h
  | cons t ts ih =>
    obtain ⟨next, hstep, hrest⟩ := exists_step_of_read_cons hread
    simpa using ih (h.step hstep) hrest

end ParseState

/-- **What is answered at the end of the source has a derivation.** -/
theorem Phrase.Sum.exists_of_finish {s : ParseState} {stop : Token} (h : s.Covers ls)
    (hfinish : s.finish stop = .ok e) : ∃ d : Sum, d.Spells ls ∧ d.tree = e.bare := by
  obtain ⟨slot, pending, groups⟩ := s
  obtain ⟨hgroups, hpending, hslot, rfl⟩ := h
  unfold ParseState.finish at hfinish
  split at hfinish
  · cases hfinish
  · next operand hoperand =>
    split at hfinish
    · next hempty =>
      cases hfinish
      obtain ⟨q, rfl, hmax, htree⟩ := hslot.exists_power hoperand slot.continuesWith_finish
      obtain ⟨d, hlexemes, hd, hdtree⟩ := hpending.exists_sum hmax htree
      obtain rfl := List.isEmpty_iff.mp hempty
      cases hgroups
      exact ⟨d, ⟨by simpa using hlexemes, hd⟩, hdtree⟩
    · cases hfinish

end SchoolAlgebra
