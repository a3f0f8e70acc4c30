import SchoolAlgebra.Proofs.Grammar.Descent
import SchoolAlgebra.Proofs.Grammar.Reading

/-!
# The answer of the descent

The descent and the parser give the same answer. The parser takes one token after another and never
calls anything; what the descent has on its stack of calls is in the state of the parser. So each
procedure corresponds to a piece of the run of the parser: from a state that awaits an operand to
one that holds what the procedure has read, with everything to the left of it as it was. Where the
procedure refuses a token, the parser refuses it as well, and with the same error.

## Where the two differ in time

When a call comes back, its expression is complete. The parser completes an expression only at the
token behind it: when a call for a factor comes back, the parser has an operand in hand, and the
signs and factors before it are joined to it no sooner than at the next step. `Descent.HasTerm` and
`Descent.HasSum` say of a state that an expression is complete in it, whether or not it is joined
yet.

## Main definitions

* `Descent.Item.ofToken` — a token as the descent sees it
* `Descent.Tracks` — a procedure goes on as the parser does from some state
* `Descent.Follows` — the states between which the parser goes on as a call does

## Main results

* `Descent.follows_descend` — every procedure goes on as the parser does
* `Descent.tracks_parse` — the descent has the parser's answer
* `Descent.parse_settles` — the descent comes to an end, in the list and with the parser's answer
-/

namespace SchoolAlgebra

namespace Descent

open ParseState

/-! ### Tokens as items -/

/-- The kind of a lexeme. -/
def kindOf : Lexeme → Kind
  | .number .. => .number
  | .name _ => .name
  | .operator op => .operator op
  | .caret => .caret
  | .leftParen => .leftParen
  | .rightParen => .rightParen
  | .finish => .finish

/-- A token as an item, the parts of which fit together. -/
def Item.ofToken (t : Token) : Item := ⟨kindOf t.lexeme, t.lexeme.text, t.lexeme.value?, t.span⟩

section

variable {l : Lexeme}

theorem kindOf_eq_finish_iff : kindOf l = .finish ↔ l = .finish := by
  cases l <;> simp [kindOf]

theorem kindOf_eq_leftParen_iff : kindOf l = .leftParen ↔ l = .leftParen := by
  cases l <;> simp [kindOf]

theorem kindOf_eq_rightParen_iff : kindOf l = .rightParen ↔ l = .rightParen := by
  cases l <;> simp [kindOf]

theorem kindOf_eq_caret_iff : kindOf l = .caret ↔ l = .caret := by
  cases l <;> simp [kindOf]

theorem kindOf_eq_operator_iff {op : Operator} : kindOf l = .operator op ↔ l = .operator op := by
  cases l <;> simp [kindOf]

theorem exists_of_kindOf_eq_number (h : kindOf l = .number) :
    ∃ text value, l = .number text value := by
  cases l with
  | number text value => exact ⟨text, value, rfl⟩
  | _ => cases h

theorem exists_of_kindOf_eq_name (h : kindOf l = .name) : ∃ text, l = .name text := by
  cases l with
  | name text => exact ⟨text, rfl⟩
  | _ => cases h

/-- A lexeme that is not accepted is of another kind. -/
theorem kindOf_ne {k : Kind} (h : l = .finish ∨ Kind.exactly k (kindOf l) = none)
    (hk : k ≠ .finish) : kindOf l ≠ k := by
  rintro rfl
  rcases h with rfl | h
  · exact hk rfl
  · rw [Kind.exactly, if_pos rfl] at h
    cases h

theorem eq_of_operator?_eq_some {isOf : Operator → Bool} {op : Operator}
    (h : Kind.operator? isOf (kindOf l) = some op) : l = .operator op ∧ isOf op = true := by
  cases l with
  | operator op' =>
    rw [kindOf, Kind.operator?] at h
    split at h
    · next hop =>
      obtain rfl := Option.some.inj h
      exact ⟨rfl, hop⟩
    · cases h
  | _ => cases h

end

/-! ### Procedures and the parser

`Tracks` is a relation between what a procedure does from a cursor and the run of the parser over
the tokens from there on. It is kept when procedures are run one after another, and each acceptance
of a token is one step on both sides. -/

section

variable {α β : Type} {tokens : List Token} {s s' : ParseState} {t : Token} {i j : Nat}

theorem run?_drop_of_step (ht : tokens[i]? = some t) (hfinish : t.lexeme ≠ .finish)
    (hstep : s.step t = .ok s') : s.run? (tokens.drop i) = s'.run? (tokens.drop (i + 1)) := by
  rw [List.drop_eq_getElem?_toList_append, ht]
  simp [run?, hfinish, hstep]

theorem run?_drop_of_step_eq_error {error : ParseError} (ht : tokens[i]? = some t)
    (hfinish : t.lexeme ≠ .finish) (hstep : s.step t = .error error) :
    s.run? (tokens.drop i) = some (.error error) := by
  rw [List.drop_eq_getElem?_toList_append, ht]
  simp [run?, hfinish, hstep]

theorem run?_drop_of_finish (ht : tokens[i]? = some t) (hfinish : t.lexeme = .finish) :
    s.run? (tokens.drop i) = some (s.finish t) := by
  rw [List.drop_eq_getElem?_toList_append, ht]
  simp [run?, hfinish]

/-- A procedure goes on from a cursor as the parser does from a state: where it answers, the parser
has come to a state as described, and where it refuses, the parser does so too. Nothing is said of
the other faults. -/
inductive Tracks (tokens : List Token) (s : ParseState) (i : Nat) (x : Procedure α)
    (post : α → ParseState → Nat → Prop) : Prop
  | answer {a : α} {s' : ParseState} {j : Nat} (hrun : x.runFrom i = (.ok a, j))
      (hparser : s.run? (tokens.drop i) = s'.run? (tokens.drop j)) (hpost : post a s' j)
  | refusal {error : ParseError} {j : Nat} (hrun : x.runFrom i = (.error (.refused error), j))
      (hparser : s.run? (tokens.drop i) = some (.error error))
  | fault {fault : Fault} {j : Nat} (hrun : x.runFrom i = (.error fault, j))
      (hfault : ∀ error, fault ≠ .refused error)

namespace Tracks

variable {x : Procedure α} {f : α → Procedure β} {post : α → ParseState → Nat → Prop}
  {post' : β → ParseState → Nat → Prop}

theorem pure {a : α} (hpost : post a s i) : Tracks tokens s i (pure a) post :=
  .answer rfl rfl hpost

/-- One procedure after another. -/
theorem bind (hx : Tracks tokens s i x post)
    (hf : ∀ a s' j, post a s' j → Tracks tokens s' j (f a) post') :
    Tracks tokens s i (x >>= f) post' := by
  cases hx with
  | refusal hrun hparser => exact .refusal (Procedure.runFrom_bind_of_error hrun) hparser
  | fault hrun hfault => exact .fault (Procedure.runFrom_bind_of_error hrun) hfault
  | answer hrun hparser hpost =>
    have hthen : (x >>= f).runFrom i = _ := Procedure.runFrom_bind_of_ok hrun
    cases hf _ _ _ hpost with
    | answer hrun' hparser' hpost' =>
      exact .answer (hthen.trans hrun') (hparser.trans hparser') hpost'
    | refusal hrun' hparser' => exact .refusal (hthen.trans hrun') (hparser.trans hparser')
    | fault hrun' hfault => exact .fault (hthen.trans hrun') hfault

theorem mono {post' : α → ParseState → Nat → Prop} (hx : Tracks tokens s i x post)
    (h : ∀ a s' j, post a s' j → post' a s' j) : Tracks tokens s i x post' := by
  cases hx with
  | answer hrun hparser hpost => exact .answer hrun hparser (h _ _ _ hpost)
  | refusal hrun hparser => exact .refusal hrun hparser
  | fault hrun hfault => exact .fault hrun hfault

/-- The parser steps over a token first. -/
theorem of_step (ht : tokens[i]? = some t) (hfinish : t.lexeme ≠ .finish)
    (hstep : s.step t = .ok s') {a : α} (hrun : x.runFrom i = (.ok a, i + 1))
    (hpost : post a s' (i + 1)) : Tracks tokens s i x post :=
  .answer hrun (run?_drop_of_step ht hfinish hstep) hpost

end Tracks

theorem getElem?_map_ofToken (ht : tokens[i]? = some t) :
    (tokens.map Item.ofToken)[i]? = some (.ofToken t) := by
  rw [List.getElem?_map, ht]
  rfl

/-- Without a token at the cursor nothing is accepted or refused. -/
theorem tracks_of_getElem?_eq_none {f : Item → Procedure α} {post : α → ParseState → Nat → Prop}
    (h : tokens[i]? = none) : Tracks tokens s i (peek (tokens.map Item.ofToken) >>= f) post := by
  refine .fault (Procedure.runFrom_bind_of_error (runFrom_peek_of_none ?_)) nofun
  rw [List.getElem?_map, h]
  rfl

/-- Where the parser is when a token has been accepted, or has not. -/
inductive Accepted (tokens : List Token) (accepts : Kind → Option β) (s : ParseState) (i : Nat)
    (post : β → Token → ParseState → Prop) : Option (β × Item) → ParseState → Nat → Prop
  | stays (hnone : ∀ t, tokens[i]? = some t →
      t.lexeme = .finish ∨ accepts (kindOf t.lexeme) = none) :
    Accepted tokens accepts s i post none s i
  | moves {b : β} {t : Token} {s' : ParseState} {j : Nat} (hpost : post b t s') :
    Accepted tokens accepts s i post (some (b, .ofToken t)) s' j

/-- A token that is accepted takes the parser one step further. -/
theorem tracks_accept {accepts : Kind → Option β} (post : β → Token → ParseState → Prop)
    (hstep : ∀ t b, t.lexeme ≠ .finish → accepts (kindOf t.lexeme) = some b →
      tokens[i]? = some t → ∃ s', s.step t = .ok s' ∧ post b t s') :
    Tracks tokens s i (accept (tokens.map Item.ofToken) accepts)
      (Accepted tokens accepts s i post) := by
  cases ht : tokens[i]? with
  | none => exact tracks_of_getElem?_eq_none ht
  | some t =>
    have hnone (h : t.lexeme = .finish ∨ accepts (kindOf t.lexeme) = none) :
        Tracks tokens s i (accept (tokens.map Item.ofToken) accepts)
          (Accepted tokens accepts s i post) := by
      refine .answer (runFrom_accept_of_none (getElem?_map_ofToken ht)
        (h.imp_left kindOf_eq_finish_iff.mpr)) rfl (.stays fun u hu => ?_)
      rwa [← Option.some.inj (ht.symm.trans hu)]
    by_cases hfinish : t.lexeme = .finish
    · exact hnone (.inl hfinish)
    · cases haccepts : accepts (kindOf t.lexeme) with
      | none => exact hnone (.inr haccepts)
      | some b =>
        obtain ⟨s', hs', hpost⟩ := hstep t b hfinish haccepts ht
        exact .of_step ht hfinish hs' (runFrom_accept_of_some (getElem?_map_ofToken ht)
          (fun h => hfinish (kindOf_eq_finish_iff.mp h)) haccepts) (.moves hpost)

theorem tracks_refuse {cause : Item → ParseError.Cause} {post : α → ParseState → Nat → Prop}
    (h : ∀ t, tokens[i]? = some t →
      s.run? (tokens.drop i) = some (.error ⟨cause (.ofToken t), t.span.start⟩)) :
    Tracks tokens s i (refuse (tokens.map Item.ofToken) cause) post := by
  cases ht : tokens[i]? with
  | none => exact tracks_of_getElem?_eq_none ht
  | some t => exact .refusal (runFrom_refuse cause (getElem?_map_ofToken ht)) (h t ht)

/-- A numeral has its value, whatever becomes of it. -/
theorem tracks_valueOf {f : Binary64 → Procedure α} {post : α → ParseState → Nat → Prop}
    {text : String} {value : Binary64} (ht : t.lexeme = .number text value)
    (h : Tracks tokens s i (f value) post) :
    Tracks tokens s i (valueOf (.ofToken t) >>= f) post := by
  have hvalue : valueOf (.ofToken t) = Pure.pure value := by
    rw [valueOf, Item.ofToken, ht]
    rfl
  rwa [hvalue, pure_bind]

end

/-! ### The procedures and the state of the parser -/

section

variable {tokens : List Token} {fuel i : Nat}

/-- An operand is in hand at a cursor, and the token there does not go on with it. -/
def HoldsAt (tokens : List Token) (s : ParseState) (e : Expr) (i : Nat) : Prop :=
  ∀ t, tokens[i]? = some t → s.Holds e t.lexeme

/-- There is no operator of some kind at the cursor. -/
def NoOperatorAt (tokens : List Token) (isOf : Operator → Bool) (i : Nat) : Prop :=
  ∀ t, tokens[i]? = some t → ∀ op, isOf op = true → t.lexeme ≠ .operator op

theorem noOperatorAt_of_operator? {isOf : Operator → Bool} (h : ∀ t, tokens[i]? = some t →
    t.lexeme = .finish ∨ Kind.operator? isOf (kindOf t.lexeme) = none) :
    NoOperatorAt tokens isOf i := by
  intro t ht op hop heq
  rcases h t ht with h | h
  · cases heq.symm.trans h
  · rw [heq, kindOf, Kind.operator?, if_pos hop] at h
    cases h

/-- A term is complete at a cursor, with an operand that ends it and what stands to its left. -/
def HasTerm (tokens : List Token) (left : Option (Expr × Operator)) (g : List (Nat × Pending))
    (e : Expr) (s : ParseState) (i : Nat) : Prop :=
  ∃ slot p operand, s = ⟨slot, p, g⟩ ∧ HoldsAt tokens s operand i ∧ p.sum = left ∧
    p.completeTerm operand = e

/-- A sum is complete at a cursor, with an operand that ends it. -/
def HasSum (tokens : List Token) (g : List (Nat × Pending)) (e : Expr) (s : ParseState) (i : Nat) :
    Prop :=
  ∃ slot p operand, s = ⟨slot, p, g⟩ ∧ HoldsAt tokens s operand i ∧ p.completeSum operand = e ∧
    NoOperatorAt tokens Operator.isMultiplicative i

/-- How a call goes on as the parser does: `p` is what stands to the left when it begins, `p'` what
does when it ends, and `g` are the open groups all the while. -/
def Follows (tokens : List Token) (fuel : Nat) : Call → Prop
  | .atom => ∀ p g i, (∀ t, tokens[i]? = some t → t.lexeme ≠ .operator .subtract) →
      Tracks tokens ⟨.vacant, p, g⟩ i (descend (tokens.map Item.ofToken) fuel .atom)
        fun e s _ => s = ⟨.atom e, p, g⟩
  | .power => ∀ p g i, (∀ t, tokens[i]? = some t → t.lexeme ≠ .operator .subtract) →
      Tracks tokens ⟨.vacant, p, g⟩ i (descend (tokens.map Item.ofToken) fuel .power)
        fun e s j => ∃ slot, s = ⟨slot, p, g⟩ ∧ HoldsAt tokens s e j
  | .factor => ∀ p g i,
      Tracks tokens ⟨.vacant, p, g⟩ i (descend (tokens.map Item.ofToken) fuel .factor)
        fun e s j => ∃ slot p' operand, s = ⟨slot, p', g⟩ ∧ HoldsAt tokens s operand j ∧
          p'.sum = p.sum ∧ p'.term = p.term ∧ p'.factor operand = p.factor e
  | .term => ∀ left g i,
      Tracks tokens ⟨.vacant, ⟨left, .none, []⟩, g⟩ i (descend (tokens.map Item.ofToken) fuel .term)
        fun e s j => HasTerm tokens left g e s j ∧ NoOperatorAt tokens Operator.isMultiplicative j
  | .termRest e => ∀ left g s i, HasTerm tokens left g e s i →
      Tracks tokens s i (descend (tokens.map Item.ofToken) fuel (.termRest e))
        fun e s j => HasTerm tokens left g e s j ∧ NoOperatorAt tokens Operator.isMultiplicative j
  | .sum => ∀ g i,
      Tracks tokens ⟨.vacant, .none, g⟩ i (descend (tokens.map Item.ofToken) fuel .sum)
        fun e s j => HasSum tokens g e s j ∧ NoOperatorAt tokens Operator.isAdditive j
  | .sumRest e => ∀ g s i, HasSum tokens g e s i →
      Tracks tokens s i (descend (tokens.map Item.ofToken) fuel (.sumRest e))
        fun e s j => HasSum tokens g e s j ∧ NoOperatorAt tokens Operator.isAdditive j

/-! #### Errors -/

/-- Behind a sum, a token is refused that neither closes a group nor ends the source outside of
all groups. -/
theorem run?_eq_refusal {s : ParseState} {g : List (Nat × Pending)} {e : Expr} {t : Token}
    (hsum : HasSum tokens g e s i) (hadditive : NoOperatorAt tokens Operator.isAdditive i)
    (ht : tokens[i]? = some t) (hclosing : t.lexeme = .rightParen → g = [])
    (hfinish : t.lexeme = .finish → g ≠ []) :
    s.run? (tokens.drop i) = some (.error (refusal s t)) := by
  obtain ⟨slot, p, operand, rfl, hholds, -, hmultiplicative⟩ := hsum
  by_cases hend : t.lexeme = .finish
  · rw [run?_drop_of_finish ht hend, ParseState.finish, (hholds t ht).operand?]
    have hgroups : g.isEmpty = false := List.isEmpty_eq_false_iff.mpr (hfinish hend)
    simp only [hgroups, Bool.false_eq_true, if_false]
  · refine run?_drop_of_step_eq_error ht hend ?_
    rw [(hholds t ht).step, afterOperand]
    split
    · next op hop =>
      cases hkind : op.isAdditive with
      | true => exact absurd hop (hadditive t ht op hkind)
      | false =>
        have hkind' : op.isMultiplicative = true := by rw [Operator.isMultiplicative, hkind]; rfl
        exact absurd hop (hmultiplicative t ht op hkind')
    · next hparen hgroups =>
      rw [hclosing hparen] at hgroups
      cases hgroups
    · rfl

/-- A token that cannot begin an operand is refused where one must come. -/
theorem run?_vacant_eq_error {p : Pending} {g : List (Nat × Pending)} {t : Token}
    (ht : tokens[i]? = some t) (hminus : t.lexeme ≠ .operator .subtract)
    (hnumber : t.lexeme = .finish ∨ Kind.exactly .number (kindOf t.lexeme) = none)
    (hname : t.lexeme = .finish ∨ Kind.exactly .name (kindOf t.lexeme) = none)
    (hopening : t.lexeme = .finish ∨ Kind.exactly .leftParen (kindOf t.lexeme) = none) :
    ParseState.run? ⟨.vacant, p, g⟩ (tokens.drop i) = some (.error
      ⟨if (Item.ofToken t).text = "" then .unexpectedEnd else .unexpected (Item.ofToken t).text,
        t.span.start⟩) := by
  obtain ⟨lexeme, a⟩ := t
  cases lexeme with
  | number | name | leftParen => simp_all [Kind.exactly, kindOf]
  | finish => rw [run?_drop_of_finish ht rfl]; rfl
  | caret | rightParen =>
    rw [run?_drop_of_step_eq_error ht (by simp) (step_vacant p g _)]
    rfl
  | operator op =>
    cases op with
    | subtract => exact absurd rfl hminus
    | add | multiply | divide =>
      rw [run?_drop_of_step_eq_error ht (by simp) (step_vacant p g _)]
      rfl

theorem follows_atom (ih : Follows tokens fuel .sum) : Follows tokens (fuel + 1) .atom := by
  intro p g i hminus
  rw [descend]
  refine (tracks_accept (fun _ t s => ∃ text value, t.lexeme = .number text value ∧
    s = ⟨.atom (.num value (some t.span)), p, g⟩) fun t _ _ hkind _ => ?_).bind
    fun numeral? s j hnumeral => ?_
  · obtain ⟨text, value, ht⟩ := exists_of_kindOf_eq_number (exactly_eq_some hkind)
    exact ⟨_, by rw [step_vacant, beginOperand, ht], text, value, ht, rfl⟩
  cases hnumeral with
  | moves hpost =>
    obtain ⟨text, value, ht, rfl⟩ := hpost
    exact tracks_valueOf ht (.pure rfl)
  | stays hnumber =>
    refine (tracks_accept (fun _ t s => s = ⟨.atom (.var t.lexeme.text .one (some t.span)), p, g⟩)
      fun t _ _ hkind _ => ?_).bind fun name? s k hname => ?_
    · obtain ⟨text, ht⟩ := exists_of_kindOf_eq_name (exactly_eq_some hkind)
      exact ⟨_, by rw [step_vacant, beginOperand, ht], by rw [ht]; rfl⟩
    cases hname with
    | moves hpost =>
      subst hpost
      exact .pure rfl
    | stays hname =>
      refine (tracks_accept (fun _ t s => s = ⟨.vacant, .none, (t.span.start, p) :: g⟩)
        fun t _ _ hkind _ => ?_).bind fun opening? s k hopening => ?_
      · have ht : t.lexeme = .leftParen := kindOf_eq_leftParen_iff.mp (exactly_eq_some hkind)
        exact ⟨_, by rw [step_vacant, beginOperand, ht], rfl⟩
      cases hopening with
      | @moves _ t _ _ hpost =>
        subst hpost
        refine (ih ((t.span.start, p) :: g) k).bind fun e s m hsum => ?_
        obtain ⟨hsum, hadditive⟩ := hsum
        refine (tracks_accept (fun _ u s =>
          s = ⟨.atom (e.withSpan (some ⟨t.span.start, u.span.stop⟩)), p, g⟩)
          fun u _ _ hkind hu => ?_).bind fun closing? s m hclosing => ?_
        · have hparen : u.lexeme = .rightParen :=
            kindOf_eq_rightParen_iff.mp (exactly_eq_some hkind)
          obtain ⟨slot, p', operand, rfl, hholds, rfl, -⟩ := hsum
          exact ⟨_, by rw [(hholds u hu).step, afterOperand, hparen], rfl⟩
        cases hclosing with
        | moves hpost =>
          subst hpost
          exact .pure rfl
        | stays hclosing =>
          refine tracks_refuse fun u hu => ?_
          have hparen : u.lexeme ≠ .rightParen := fun heq =>
            kindOf_ne (hclosing u hu) (by decide) (kindOf_eq_rightParen_iff.mpr heq)
          rw [run?_eq_refusal hsum hadditive hu (fun heq => absurd heq hparen)
            fun _ => List.cons_ne_nil _ _]
          obtain ⟨slot, p', operand, rfl, -⟩ := hsum
          rfl
      | stays hopening =>
        exact tracks_refuse fun t ht =>
          run?_vacant_eq_error ht (hminus t ht) (hnumber t ht) (hname t ht) (hopening t ht)

/-- Whether a caret or a signed caret is in hand, a numeral completes the power, and without one it
is a square. -/
theorem tracks_exponent (negative : Bool) (base : Expr) (p : Pending) (g : List (Nat × Pending))
    (hminus : negative = false → ∀ t, tokens[i]? = some t → t.lexeme ≠ .operator .subtract) :
    Tracks tokens ⟨if negative then .signedCaret base else .caret base, p, g⟩ i
      (do
        match ← accept (tokens.map Item.ofToken) (Kind.exactly .number) with
        | none => return .power base .two base.span
        | some (_, numeral) =>
          let value ← valueOf numeral
          return .power base (if negative then value.neg else value)
            (some ⟨base.start, numeral.span.stop⟩))
      fun e s j => ∃ slot, s = ⟨slot, p, g⟩ ∧ HoldsAt tokens s e j := by
  refine (tracks_accept (fun _ t s => ∃ text value, t.lexeme = .number text value ∧
    s = ⟨.power (raised base (if negative then value.neg else value) t), p, g⟩)
    fun t _ _ hkind _ => ?_).bind fun numeral? s j hnumeral => ?_
  · obtain ⟨text, value, ht⟩ := exists_of_kindOf_eq_number (exactly_eq_some hkind)
    refine ⟨_, ?_, text, value, ht, rfl⟩
    cases negative <;> simp [step, ht]
  cases hnumeral with
  | stays hnumber =>
    refine .pure ⟨_, rfl, fun t ht => ⟨by cases negative <;> rfl, ?_⟩⟩
    have hne (text : String) (value : Binary64) : t.lexeme ≠ .number text value := fun heq =>
      kindOf_ne (hnumber t ht) (by decide) (by rw [heq]; rfl)
    cases negative with
    | true =>
      simp only [if_true, Slot.continuesWith]
      split <;> simp_all
    | false =>
      have hsign := hminus rfl t ht
      simp only [Bool.false_eq_true, if_false, Slot.continuesWith]
      split <;> simp_all
  | moves hpost =>
    obtain ⟨text, value, ht, rfl⟩ := hpost
    exact tracks_valueOf ht (.pure ⟨_, rfl, fun u _ => ⟨rfl, rfl⟩⟩)

theorem follows_power (ih : Follows tokens fuel .atom) : Follows tokens (fuel + 1) .power := by
  intro p g i hminus
  rw [descend]
  refine (ih p g i hminus).bind fun base s j hs => ?_
  obtain rfl := hs
  refine (tracks_accept (fun _ _ s => s = ⟨.caret base, p, g⟩) fun t _ _ hkind _ => ?_).bind
    fun caret? s k hcaret => ?_
  · exact ⟨_, by rw [step, kindOf_eq_caret_iff.mp (exactly_eq_some hkind)], rfl⟩
  cases hcaret with
  | stays hcaret =>
    exact .pure ⟨_, rfl, fun t ht => ⟨rfl, Slot.continuesWith_atom fun heq =>
      kindOf_ne (hcaret t ht) (by decide) (kindOf_eq_caret_iff.mpr heq)⟩⟩
  | moves hpost =>
    subst hpost
    refine (tracks_accept (fun _ _ s => s = ⟨.signedCaret base, p, g⟩)
      fun t _ _ hkind _ => ?_).bind fun minus? s m hsign => ?_
    · exact ⟨_, by rw [step, kindOf_eq_operator_iff.mp (exactly_eq_some hkind)], rfl⟩
    cases hsign with
    | stays hsign =>
      exact tracks_exponent false base p g fun _ t ht heq =>
        kindOf_ne (hsign t ht) (by decide) (kindOf_eq_operator_iff.mpr heq)
    | moves hpost =>
      subst hpost
      exact tracks_exponent true base p g fun h => absurd h (by decide)

theorem follows_factor (ihFactor : Follows tokens fuel .factor)
    (ihPower : Follows tokens fuel .power) : Follows tokens (fuel + 1) .factor := by
  intro p g i
  rw [descend]
  refine (tracks_accept (fun _ t s => s = ⟨.vacant, p.afterSign t.span.start, g⟩)
    fun t _ _ hkind _ => ?_).bind fun minus? s j hminus => ?_
  · exact ⟨_, by rw [step_vacant, beginOperand, kindOf_eq_operator_iff.mp (exactly_eq_some hkind)],
      rfl⟩
  cases hminus with
  | stays hminus =>
    refine (ihPower p g i fun t ht heq =>
      kindOf_ne (hminus t ht) (by decide) (kindOf_eq_operator_iff.mpr heq)).mono fun e s k hs => ?_
    obtain ⟨slot, rfl, hholds⟩ := hs
    exact ⟨slot, p, e, rfl, hholds, rfl, rfl, rfl⟩
  | @moves _ t _ _ hpost =>
    subst hpost
    refine (ihFactor (p.afterSign t.span.start) g j).bind fun e s k hs => ?_
    obtain ⟨slot, p', operand, rfl, hholds, hsum, hterm, hfactor⟩ := hs
    exact .pure ⟨slot, p', operand, rfl, hholds, hsum, hterm,
      hfactor.trans (Pending.factor_afterSign p t.span.start e)⟩

theorem follows_term (ihFactor : Follows tokens fuel .factor)
    (ihRest : ∀ e, Follows tokens fuel (.termRest e)) : Follows tokens (fuel + 1) .term := by
  intro left g i
  rw [descend]
  refine (ihFactor ⟨left, .none, []⟩ g i).bind fun e s j hs => ?_
  obtain ⟨slot, p, operand, rfl, hholds, hsum, hterm, hfactor⟩ := hs
  refine ihRest e left g _ j ⟨slot, p, operand, rfl, hholds, hsum, ?_⟩
  rw [Pending.completeTerm_of_none hterm, hfactor]
  rfl

theorem follows_termRest (ihFactor : Follows tokens fuel .factor)
    (ihRest : ∀ e, Follows tokens fuel (.termRest e)) (e : Expr) :
    Follows tokens (fuel + 1) (.termRest e) := by
  intro left g s i hs
  obtain ⟨slot, p, operand, rfl, hholds, hsum, htree⟩ := hs
  rw [descend]
  refine (tracks_accept (fun op _ s => op.isMultiplicative = true ∧
    s = ⟨.vacant, ⟨left, some (e, op), []⟩, g⟩) fun t op _ hkind ht => ?_).bind
    fun found? s j hfound => ?_
  · obtain ⟨hoperator, hop⟩ := eq_of_operator?_eq_some hkind
    refine ⟨_, Holds.step_operator (hoperator ▸ hholds t ht) hoperator, hop, ?_⟩
    rw [Pending.afterOperator_of_isMultiplicative hop, hsum, htree]
  cases hfound with
  | stays hnone =>
    exact .pure ⟨⟨slot, p, operand, rfl, hholds, hsum, htree⟩, noOperatorAt_of_operator? hnone⟩
  | @moves op _ _ _ hpost =>
    obtain ⟨hop, rfl⟩ := hpost
    refine (ihFactor ⟨left, some (e, op), []⟩ g j).bind fun right s k hs => ?_
    obtain ⟨slot, p, operand, rfl, hholds, hsum, hterm, hfactor⟩ := hs
    refine ihRest (.join op e right) left g _ k ⟨slot, p, operand, rfl, hholds, hsum, ?_⟩
    rw [Pending.completeTerm_of_some hterm, hfactor]
    rfl

theorem follows_sum (ihTerm : Follows tokens fuel .term)
    (ihRest : ∀ e, Follows tokens fuel (.sumRest e)) : Follows tokens (fuel + 1) .sum := by
  intro g i
  rw [descend]
  refine (ihTerm .none g i).bind fun e s j hs => ?_
  obtain ⟨⟨slot, p, operand, rfl, hholds, hsum, hterm⟩, hmultiplicative⟩ := hs
  refine ihRest e g _ j ⟨slot, p, operand, rfl, hholds, ?_, hmultiplicative⟩
  rw [Pending.completeSum_of_none hsum, hterm]

theorem follows_sumRest (ihTerm : Follows tokens fuel .term)
    (ihRest : ∀ e, Follows tokens fuel (.sumRest e)) (e : Expr) :
    Follows tokens (fuel + 1) (.sumRest e) := by
  intro g s i hs
  obtain ⟨slot, p, operand, rfl, hholds, htree, hmultiplicative⟩ := hs
  rw [descend]
  refine (tracks_accept (fun op _ s => op.isAdditive = true ∧
    s = ⟨.vacant, ⟨some (e, op), .none, []⟩, g⟩) fun t op _ hkind ht => ?_).bind
    fun found? s j hfound => ?_
  · obtain ⟨hoperator, hop⟩ := eq_of_operator?_eq_some hkind
    refine ⟨_, Holds.step_operator (hoperator ▸ hholds t ht) hoperator, hop, ?_⟩
    rw [Pending.afterOperator_of_isAdditive hop, htree]
  cases hfound with
  | stays hnone =>
    exact .pure ⟨⟨slot, p, operand, rfl, hholds, htree, hmultiplicative⟩,
      noOperatorAt_of_operator? hnone⟩
  | @moves op _ _ _ hpost =>
    obtain ⟨hop, rfl⟩ := hpost
    refine (ihTerm (some (e, op)) g j).bind fun right s k hs => ?_
    obtain ⟨⟨slot, p, operand, rfl, hholds, hsum, hterm⟩, hmultiplicative⟩ := hs
    refine ihRest (.join op e right) g _ k ⟨slot, p, operand, rfl, hholds, ?_, hmultiplicative⟩
    rw [Pending.completeSum_of_some hsum, hterm]

/-- **Every procedure goes on as the parser does.** -/
theorem follows_descend (tokens : List Token) (fuel : Nat) (call : Call) :
    Follows tokens fuel call := by
  induction fuel generalizing call with
  | zero =>
    cases call <;>
    · rw [Follows]
      intros
      exact .fault rfl nofun
  | succ fuel ih =>
    cases call with
    | sum => exact follows_sum (ih _) fun e => ih _
    | sumRest e => exact follows_sumRest (ih _) (fun e => ih _) e
    | term => exact follows_term (ih _) fun e => ih _
    | termRest e => exact follows_termRest (ih _) (fun e => ih _) e
    | factor => exact follows_factor (ih _) (ih _)
    | power => exact follows_power (ih _)
    | atom => exact follows_atom (ih _)

/-- The descent has the parser's answer, unless it fails in one of the other ways. -/
theorem tracks_parse (tokens : List Token) (fuel : Nat) :
    Tracks tokens .initial 0 (parse (tokens.map Item.ofToken) fuel) fun e s j =>
      s.run? (tokens.drop j) = some (.ok e) := by
  refine (follows_descend tokens fuel .sum [] 0).bind fun e s j hs => ?_
  obtain ⟨hsum, hadditive⟩ := hs
  cases ht : tokens[j]? with
  | none => exact tracks_of_getElem?_eq_none ht
  | some t =>
    have hpeek : Tracks tokens s j (peek (tokens.map Item.ofToken)) fun item s' k =>
        item = .ofToken t ∧ s' = s ∧ k = j :=
      .answer (runFrom_peek (getElem?_map_ofToken ht)) rfl ⟨rfl, rfl, rfl⟩
    refine hpeek.bind fun item s' k hitem => ?_
    obtain ⟨rfl, rfl, rfl⟩ := hitem
    split
    · next hfinish =>
      refine .pure ?_
      obtain ⟨slot, p, operand, rfl, hholds, rfl, -⟩ := hsum
      rw [run?_drop_of_finish ht (kindOf_eq_finish_iff.mp hfinish), ParseState.finish,
        (hholds t ht).operand?]
      rfl
    · next hfinish =>
      have hfinish' : t.lexeme ≠ .finish := fun h => hfinish (kindOf_eq_finish_iff.mpr h)
      refine tracks_refuse fun u hu => ?_
      obtain rfl : t = u := Option.some.inj (ht.symm.trans hu)
      rw [run?_eq_refusal hsum hadditive hu (fun _ => rfl) fun h => absurd h hfinish']
      obtain ⟨slot, p, operand, rfl, -⟩ := hsum
      simp [refusal, ParseError.ofToken, hfinish', Item.ofToken]

end

/-! ### Answers

Two results are put together. The descent has an answer or refuses a token, because it settles, and
whichever of them it is, the parser has the same one. -/

/-- The items of a source are complete. -/
theorem complete_scan (source : String) : Complete ((Token.scan source).map Item.ofToken) := by
  obtain ⟨tokens, heq, htokens⟩ := Token.scan_eq_append_finish source
  refine ⟨⟨tokens.map Item.ofToken, _, by rw [heq, List.map_append]; rfl, rfl,
    fun item hitem => ?_⟩, fun item hitem hkind => ?_⟩
  · obtain ⟨t, ht, rfl⟩ := List.mem_map.mp hitem
    exact fun h => htokens t ht (kindOf_eq_finish_iff.mp h)
  · obtain ⟨t, -, rfl⟩ := List.mem_map.mp hitem
    obtain ⟨text, value, ht⟩ := exists_of_kindOf_eq_number hkind
    rw [Item.ofToken, ht]
    rfl

/-- **The descent comes to an end**, and it only fails by refusing what is not an expression. Let a
list of items end where the source does and nowhere else, and let its numerals have values, as is
the case for all sources. Then every call from a cursor in the list comes back with a cursor in the
list, and with an expression or an error. The whole list is read up to its end, or up to the item at
which the error shows. Where the items are tokens, the parser has the same answer. -/
theorem parse_settles :
    (∀ source, Complete ((Token.scan source).map Item.ofToken)) ∧
    ∀ items : List Item, Complete items →
      (∀ call fuel i, i < items.length → 5 * items.length ≤ fuel → ∃ j, i ≤ j ∧ j < items.length ∧
        ((∃ e, (descend items fuel call).runFrom i = (.ok e, j)) ∨
          ∃ error, (descend items fuel call).runFrom i = (.error (.refused error), j))) ∧
      ∃ j item, items[j]? = some item ∧
        ((∃ e, item.kind = .finish ∧
            (∀ fuel, 5 * items.length ≤ fuel → (parse items fuel).runFrom 0 = (.ok e, j)) ∧
            ∀ tokens, tokens.map Item.ofToken = items → Expr.ofTokens? tokens = some (.ok e)) ∨
          ∃ error, error.position = item.span.start ∧
            (∀ fuel, 5 * items.length ≤ fuel →
              (parse items fuel).runFrom 0 = (.error (.refused error), j)) ∧
            ∀ tokens, tokens.map Item.ofToken = items →
              Expr.ofTokens? tokens = some (.error error)) := by
  refine ⟨complete_scan, fun items h => ⟨fun call fuel i hi hfuel => ?_, ?_⟩⟩
  · have hneeded : 5 * (items.length - (i + 1)) + call.level ≤ fuel := by
      have hlevel := call.level_le
      omega
    cases settles_descend h fuel call i hi hneeded with
    | answer hrun hle hlt => exact ⟨_, hle, hlt, .inl ⟨_, hrun⟩⟩
    | refusal hrun hle hitem =>
      exact ⟨_, hle, (List.getElem?_eq_some_iff.mp hitem).1, .inr ⟨_, hrun⟩⟩
  · have hmore {answer : Except Fault Expr × Nat} (hne : answer.1 ≠ .error .outOfFuel)
        (hrun : (parse items (5 * items.length)).runFrom 0 = answer) :
        ∀ fuel, 5 * items.length ≤ fuel → (parse items fuel).runFrom 0 = answer := fun fuel hfuel =>
      ((extends_parse_of_le items hfuel 0).resolve_left (hrun ▸ hne)).trans hrun
    cases settles_parse h (le_refl (5 * items.length)) with
    | @answer e j hrun _ hlt hend =>
      have hitem : items[j]? = some items[j] := List.getElem?_eq_getElem hlt
      refine ⟨j, items[j], hitem, .inl ⟨e, hend _ hitem, hmore nofun hrun, ?_⟩⟩
      rintro tokens rfl
      cases tracks_parse tokens (5 * (tokens.map Item.ofToken).length) with
      | answer hrun' hparser hpost =>
        obtain ⟨he, rfl⟩ := Prod.mk.inj (hrun.symm.trans hrun')
        rw [Except.ok.inj he]
        exact hparser.trans hpost
      | refusal hrun' => cases hrun.symm.trans hrun'
      | fault hrun' => cases hrun.symm.trans hrun'
    | @refusal error j item hrun _ hitem hposition =>
      refine ⟨j, item, hitem, .inr ⟨error, hposition, hmore nofun hrun, ?_⟩⟩
      rintro tokens rfl
      cases tracks_parse tokens (5 * (tokens.map Item.ofToken).length) with
      | answer hrun' => cases hrun.symm.trans hrun'
      | refusal hrun' hparser =>
        cases hrun.symm.trans hrun'
        exact hparser
      | fault hrun' hfault =>
        cases hrun.symm.trans hrun'
        exact absurd rfl (hfault error)

/-- The descent into `(2x^-y` ends at the name, where the parenthesis is missed. -/
theorem parse_settles_signedCaret :
    Complete ((Token.scan "(2x^-y").map Item.ofToken) ∧
      ∃ j item, ((Token.scan "(2x^-y").map Item.ofToken)[j]? = some item ∧ item.span.start = 5 ∧
        (parse ((Token.scan "(2x^-y").map Item.ofToken) 40).runFrom 0 =
          (.error (.refused ⟨.unclosedGroup, 5⟩), j) := by
  have hcomplete := parse_settles.1 "(2x^-y"
  have hparser : Expr.ofTokens? (Token.scan "(2x^-y") = some (.error ⟨.unclosedGroup, 5⟩) := by
    decide +kernel
  have hfuel : 5 * ((Token.scan "(2x^-y").map Item.ofToken).length ≤ 40 := by decide +kernel
  obtain ⟨-, j, item, hitem, ⟨e, -, -, hanswer⟩ | ⟨error, hposition, hrun, hanswer⟩⟩ :=
    parse_settles.2 _ hcomplete
  · cases (hanswer _ rfl).symm.trans hparser
  · cases (hanswer _ rfl).symm.trans hparser
    exact ⟨hcomplete, j, item, hitem, hposition.symm, hrun 40 hfuel⟩

/-- A numeral without a value, or a list without an end, makes the descent fail in another way. -/
example :
    (parse [⟨.number, "2", none, ⟨0, 1⟩⟩, ⟨.finish, "", none, ⟨1, 1⟩⟩] 10).runFrom 0 =
        (.error .noValue, 1) ∧
      (parse [⟨.name, "x", none, ⟨0, 1⟩⟩] 10).runFrom 0 = (.error .pastEnd, 1) :=
  ⟨rfl, rfl⟩

end Descent

end SchoolAlgebra
