import SchoolAlgebra.Expr.Parse
import SchoolAlgebra.Proofs.ForMathlib.Except
import SchoolAlgebra.Proofs.Grammar.Unambiguous

/-!
# The steps of the parser

What a token does to the state of a parse depends on whether the operand in hand goes on with it. An
operand may be complete and still go on: `x ^` is the square of `x`, unless a minus sign or a
numeral follows. `ParseState.Holds` says of a state that its operand is complete and that a given
lexeme does not go on with it, which is where the longest exponent comes in.

## Main definitions

* `ParseState.read` — the state after some tokens
* `ParseState.Holds` — a complete operand is in hand, and the next lexeme does not go on with it

## Main results

* `ParseState.run?_append_finish` — a run is the steps through its tokens, and an answer at the end
* `ParseState.Holds.step` — the step at a token that follows an operand
-/

namespace SchoolAlgebra

/-! ### Steps in a row

The end of a source is answered and never stepped over. Separating it from the steps before gives a
fold over the tokens, which can be cut anywhere. -/

namespace ParseState

/-- The state after some tokens, none of which is the end of the source. -/
def read (s : ParseState) : List Token → Except ParseError ParseState
  | [] => .ok s
  | t :: ts => s.step t >>= fun next => next.read ts

@[simp] theorem read_nil (s : ParseState) : s.read [] = .ok s := rfl

theorem read_cons (s : ParseState) (t : Token) (ts : List Token) :
    s.read (t :: ts) = s.step t >>= fun next => next.read ts := rfl

theorem read_append (s : ParseState) (ts us : List Token) :
    s.read (ts ++ us) = s.read ts >>= fun next => next.read us := by
  induction ts generalizing s with
  | nil => rfl
  | cons t ts ih =>
    rw [List.cons_append, read_cons, read_cons]
    cases s.step t with
    | error e => rfl
    | ok next => exact ih next

theorem read_append_of_ok {s s' : ParseState} {ts : List Token} (h : s.read ts = .ok s')
    (us : List Token) : s.read (ts ++ us) = s'.read us := by
  rw [read_append, h]
  rfl

theorem exists_step_of_read_cons {s s' : ParseState} {t : Token} {ts : List Token}
    (h : s.read (t :: ts) = .ok s') : ∃ next, s.step t = .ok next ∧ next.read ts = .ok s' :=
  exists_of_bind_eq_ok h

/-- What is read at once is read in two parts. -/
theorem exists_read_of_read_append {s s' : ParseState} {ts us : List Token}
    (h : s.read (ts ++ us) = .ok s') :
    ∃ next, s.read ts = .ok next ∧ next.read us = .ok s' :=
  exists_of_bind_eq_ok (read_append s ts us ▸ h)

/-- A run takes the steps through its tokens and answers at the end of the source. -/
theorem run?_append_finish (s : ParseState) {ts : List Token}
    (hts : ∀ t ∈ ts, t.lexeme ≠ .finish) {stop : Token} (hstop : stop.lexeme = .finish) :
    s.run? (ts ++ [stop]) = some (s.read ts >>= fun last => last.finish stop) := by
  induction ts generalizing s with
  | nil => simp [run?, hstop, bind, Except.bind]
  | cons t ts ih =>
    have ht := hts t (List.mem_cons_self ..)
    rw [List.cons_append, run?, if_neg ht, read_cons]
    cases s.step t with
    | error e => rfl
    | ok next => exact ih next fun u hu => hts u (List.mem_cons_of_mem _ hu)

end ParseState

/-! ### Complete operands

Whether a token goes on with the operand in hand depends only on the slot and the lexeme. If it
does, nothing else of the state changes. If it does not, the operand is complete, and which
operations are completed with it depends on the lexeme alone. -/

/-- Whether a lexeme goes on with what has been read of an operand. -/
def Slot.continuesWith : Slot → Lexeme → Bool
  | .atom _, .caret => true
  | .caret _, .operator .subtract => true
  | .caret _, .number .. => true
  | .signedCaret _, .number .. => true
  | _, _ => false

@[simp] theorem Slot.continuesWith_finish (slot : Slot) : slot.continuesWith .finish = false := by
  cases slot <;> rfl

theorem Slot.continuesWith_atom {e : Expr} {next : Lexeme} (h : Phrase.EndsFactor next) :
    (Slot.atom e).continuesWith next = false := by
  cases next with
  | caret => exact absurd rfl h
  | _ => rfl

namespace ParseState

/-- The operand in hand is complete, and `next` does not go on with it. -/
structure Holds (s : ParseState) (e : Expr) (next : Lexeme) : Prop where
  /-- The operand. -/
  operand? : s.slot.operand? = some e
  /-- It ends before `next`. -/
  ends : s.slot.continuesWith next = false

/-- A token that does not go on with the operand in hand follows it. -/
theorem Holds.step {s : ParseState} {e : Expr} {t : Token} (h : s.Holds e t.lexeme) :
    s.step t = s.afterOperand e t := by
  obtain ⟨hoperand, hends⟩ := h
  obtain ⟨slot, pending, groups⟩ := s
  unfold ParseState.step
  split <;> simp_all [Slot.continuesWith]

/-- Where nothing is in hand, a token begins an operand. -/
theorem step_vacant (p : Pending) (g : List (Nat × Pending)) (t : Token) :
    step ⟨.vacant, p, g⟩ t = beginOperand ⟨.vacant, p, g⟩ t := by
  unfold step
  split <;> simp_all [Slot.operand?]

theorem Holds.step_operator {s : ParseState} {e : Expr} {t : Token} {op : Operator}
    (h : s.Holds e (.operator op)) (ht : t.lexeme = .operator op) :
    s.step t = .ok ⟨.vacant, s.pending.afterOperator e op, s.groups⟩ := by
  rw [Holds.step (ht ▸ h), afterOperand, ht]

end ParseState

/-! ### What stands to the left

The fields of `Pending` after each kind of token, and how it completes a larger operand. -/

namespace Pending

variable {p : Pending} {e left : Expr} {op : Operator}

theorem afterOperator_of_isAdditive (h : op.isAdditive = true) :
    p.afterOperator e op = ⟨some (p.completeSum e, op), .none, []⟩ := if_pos h

theorem afterOperator_of_isMultiplicative (h : op.isMultiplicative = true) :
    p.afterOperator e op = ⟨p.sum, some (p.completeTerm e, op), []⟩ :=
  if_neg (by simpa [Operator.isMultiplicative] using h)

theorem factor_afterSign (p : Pending) (sign : Nat) (e : Expr) :
    (p.afterSign sign).factor e = p.factor (.neg e (some ⟨sign, e.stop⟩)) := rfl

theorem completeTerm_of_none (h : p.term = .none) : p.completeTerm e = p.factor e := by
  rw [completeTerm, h]
  rfl

theorem completeTerm_of_some (h : p.term = some (left, op)) :
    p.completeTerm e = Expr.join op left (p.factor e) := by
  rw [completeTerm, h]
  rfl

theorem completeSum_of_none (h : p.sum = .none) : p.completeSum e = p.completeTerm e := by
  rw [completeSum, h]
  rfl

theorem completeSum_of_some (h : p.sum = some (left, op)) :
    p.completeSum e = Expr.join op left (p.completeTerm e) := by
  rw [completeSum, h]
  rfl

end Pending

end SchoolAlgebra
