import SchoolAlgebra.Expr.Basic
import SchoolAlgebra.Text.Location
import SchoolAlgebra.Token.Scan

/-!
# Parsing expressions

`Expr.parse` reads an expression from a source. The grammar is

* a sum is terms joined by plus and minus,
* a term is factors joined by multiplication and division,
* a factor is a minus sign and a factor, or a power,
* a power is an atom, which a caret and an exponent may follow,
* an atom is a numeral, a name, or a sum in parentheses.

An exponent is an optional minus sign and an optional numeral, as many of the two as follow the
caret; without a numeral it is two. Chains group to the left.

## Implementation notes

The parser takes one token at a time. `Pending` holds what stands to the left of the operand that
comes next: at most a sum, a term and some signs, because the operators have two precedences. An
open parenthesis puts it on a stack. The state is complete in the sense that no token is looked at
twice and none in advance, so an error is found at the first token that cannot be right.

A list of tokens without `Lexeme.finish` has no parse, right or wrong. `Token.scan` returns no such
list, which is what `Expr.isSome_ofTokens?_scan` says.

## Main results

* `ParseState.isSome_run?_append_finish` — there is an answer as soon as the source has an end
* `Expr.isSome_ofTokens?_scan` — there is an answer for every source
-/

namespace SchoolAlgebra

/-! ### Errors -/

/-- Why a source is not an expression. -/
inductive ParseError.Cause where
  /-- A token that cannot stand where it does. -/
  | unexpected (text : String)
  /-- The source ends where an operand must come. -/
  | unexpectedEnd
  /-- A group is complete and its closing parenthesis does not follow. -/
  | unclosedGroup
  deriving DecidableEq

/-- The first error of a source, and the offset of the token at which it shows. -/
structure ParseError where
  /-- What is wrong. -/
  cause : ParseError.Cause
  /-- Where it shows. -/
  position : Nat
  deriving DecidableEq

namespace ParseError

/-- The wording of an error. -/
def message (e : ParseError) : String :=
  match e.cause with
  | .unexpected text => "Unexpected token: " ++ text
  | .unexpectedEnd => "Unexpected token: end of input"
  | .unclosedGroup => "Expected ')' after expression"

/-- The error of a token that cannot stand where it does. -/
def ofToken (t : Token) : ParseError :=
  ⟨if t.lexeme = .finish then .unexpectedEnd else .unexpected t.lexeme.text, t.span.start⟩

/-- The error as it is shown to the author of a source. -/
def report (e : ParseError) (source fileName : String) : String :=
  Text.report e.message e.position source fileName

end ParseError

/-! ### The state of a parse -/

/-- What stands to the left of an operand, inside the innermost group. -/
structure Pending where
  /-- A sum and the additive operator after it. -/
  sum : Option (Expr × Operator)
  /-- A term and the multiplicative operator after it. -/
  term : Option (Expr × Operator)
  /-- The offsets of the minus signs before the operand, the nearest one first. -/
  signs : List Nat

namespace Pending

/-- Nothing stands to the left. -/
def none : Pending := ⟨.none, .none, []⟩

/-- An operand joined to what an operator leaves open on its left. -/
def attach : Option (Expr × Operator) → Expr → Expr
  | .none, e => e
  | some (left, op), e => Expr.join op left e

/-- A power with the signs before it. -/
def factor (p : Pending) (e : Expr) : Expr :=
  p.signs.foldl (fun e sign => .neg e (some ⟨sign, e.stop⟩)) e

/-- The term that a power completes. -/
def completeTerm (p : Pending) (e : Expr) : Expr := attach p.term (p.factor e)

/-- The sum that a power completes. -/
def completeSum (p : Pending) (e : Expr) : Expr := attach p.sum (p.completeTerm e)

/-- What stands to the left after a power and an operator. -/
def afterOperator (p : Pending) (e : Expr) (op : Operator) : Pending :=
  if op.isAdditive then ⟨some (p.completeSum e, op), .none, []⟩
  else ⟨p.sum, some (p.completeTerm e, op), []⟩

/-- What stands to the left after one more minus sign. -/
def afterSign (p : Pending) (sign : Nat) : Pending := { p with signs := sign :: p.signs }

end Pending

/-- What has been read of the operand in hand. -/
inductive Slot where
  /-- Nothing: an operand must come. -/
  | vacant
  /-- An atom, which a caret may follow. -/
  | atom (e : Expr)
  /-- A base and a caret. -/
  | caret (base : Expr)
  /-- A base, a caret and a minus sign. -/
  | signedCaret (base : Expr)
  /-- A power with its exponent. -/
  | power (e : Expr)

/-- The operand in hand, if it is complete without a further token. A caret without a numeral
means a square. -/
def Slot.operand? : Slot → Option Expr
  | .vacant => none
  | .atom e | .power e => some e
  | .caret base | .signedCaret base => some (.power base .two base.span)

/-- The state of a parse between two tokens. -/
structure ParseState where
  /-- The operand in hand. -/
  slot : Slot
  /-- What stands to its left. -/
  pending : Pending
  /-- The open groups, the innermost first: the offset of the parenthesis and what stands to its
  left. -/
  groups : List (Nat × Pending)

namespace ParseState

/-- Nothing has been read. -/
def initial : ParseState := ⟨.vacant, .none, []⟩

/-- The error of a token after a complete operand. -/
def refusal (s : ParseState) (t : Token) : ParseError :=
  if s.groups.isEmpty then .ofToken t else ⟨.unclosedGroup, t.span.start⟩

/-- The state after a token where an operand must come. -/
def beginOperand (s : ParseState) (t : Token) : Except ParseError ParseState :=
  match t.lexeme with
  | .number _ value => .ok { s with slot := .atom (.num value (some t.span)) }
  | .name text => .ok { s with slot := .atom (.var text .one (some t.span)) }
  | .operator .subtract => .ok { s with pending := s.pending.afterSign t.span.start }
  | .leftParen => .ok ⟨.vacant, .none, (t.span.start, s.pending) :: s.groups⟩
  | _ => .error (.ofToken t)

/-- The state after a token that follows the complete operand `e`. -/
def afterOperand (s : ParseState) (e : Expr) (t : Token) : Except ParseError ParseState :=
  match t.lexeme, s.groups with
  | .operator op, _ => .ok ⟨.vacant, s.pending.afterOperator e op, s.groups⟩
  | .rightParen, (start, outer) :: groups =>
    .ok ⟨.atom ((s.pending.completeSum e).withSpan (some ⟨start, t.span.stop⟩)), outer, groups⟩
  | _, _ => .error (s.refusal t)

/-- A base raised to the numeral of a token. -/
def raised (base : Expr) (exponent : Binary64) (t : Token) : Expr :=
  .power base exponent (some ⟨base.start, t.span.stop⟩)

/-- The state after a token other than the end of the source. -/
def step (s : ParseState) (t : Token) : Except ParseError ParseState :=
  match s.slot, t.lexeme with
  | .atom base, .caret => .ok { s with slot := .caret base }
  | .caret base, .operator .subtract => .ok { s with slot := .signedCaret base }
  | .caret base, .number _ value => .ok { s with slot := .power (raised base value t) }
  | .signedCaret base, .number _ value => .ok { s with slot := .power (raised base value.neg t) }
  | slot, _ =>
    match slot.operand? with
    | none => s.beginOperand t
    | some e => s.afterOperand e t

/-- The answer at the token that ends the source. -/
def finish (s : ParseState) (t : Token) : Except ParseError Expr :=
  match s.slot.operand? with
  | none => .error (.ofToken t)
  | some e => if s.groups.isEmpty then .ok (s.pending.completeSum e) else .error (s.refusal t)

/-- The answer for the tokens still to be read; none if they do not end with the end of the
source. -/
def run? (s : ParseState) : List Token → Option (Except ParseError Expr)
  | [] => none
  | t :: rest =>
    if t.lexeme = .finish then some (s.finish t)
    else
      match s.step t with
      | .ok next => next.run? rest
      | .error e => some (.error e)

end ParseState

/-- There is an answer for every list of tokens that ends with the end of the source: the first such
token is the last one that is looked at. -/
theorem ParseState.isSome_run?_append_finish (s : ParseState) (tokens : List Token) {t : Token}
    (h : t.lexeme = .finish) (rest : List Token) :
    (s.run? (tokens ++ t :: rest)).isSome = true := by
  induction tokens generalizing s with
  | nil => simp [run?, h]
  | cons u tokens ih =>
    simp only [List.cons_append, run?]
    split
    · rfl
    · split
      · exact ih _
      · rfl

namespace Expr

/-- The expression that a list of tokens spells, or the first error; none if the list does not end
with the end of a source. -/
def ofTokens? (tokens : List Token) : Option (Except ParseError Expr) :=
  ParseState.initial.run? tokens

theorem isSome_ofTokens?_scan (source : String) :
    (ofTokens? (Token.scan source)).isSome = true := by
  obtain ⟨tokens, heq, -⟩ := Token.scan_eq_append_finish source
  rw [ofTokens?, heq]
  exact ParseState.isSome_run?_append_finish _ tokens rfl []

/-- The expression of a source, or its first error. -/
def parse (source : String) : Except ParseError Expr :=
  (ofTokens? (Token.scan source)).get (isSome_ofTokens?_scan source)

/-- The expression of a source, if it is one. -/
def parse? (source : String) : Option Expr := (parse source).toOption

end Expr

end SchoolAlgebra
