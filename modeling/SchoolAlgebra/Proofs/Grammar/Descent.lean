import Mathlib
import SchoolAlgebra.Expr.Parse

/-!
# Recursive descent

The grammar can be read off a list of tokens by procedures that call each other, one for each of its
levels, with a cursor into the list. The procedures can go wrong in more ways than the grammar
allows for: a cursor may leave the list, a numeral may have no value, and the calls may never come
to an end. Here all of these are answers, so that it can be said when they do not occur.

The calls come to an end because an atom only calls for a sum again behind a parenthesis, and a
chain only goes on behind an operator. Between two steps of the cursor there are at most five calls
inside each other, one for each level. The cursor stays in the list because it is only moved away
from a token that does not end the source.

## Fuel

A call that calls itself again at the same cursor would not come to an end with any fuel, so the
amount that suffices is part of what is proved. Each kind of call has a level, from an atom to a
sum, and a call makes only calls of a lower level before the cursor moves. So five calls for each
item that is left, and the level of the call on top of them, are enough. `Settles` is proved by
induction on the fuel with this bound.

## Main definitions

* `Descent.Item` — a token whose parts need not fit together
* `Descent.Procedure` — what moves a cursor and answers or fails
* `Descent.descend` — the procedures of the grammar
* `Descent.parse` — a whole list of tokens is read as a sum
* `Descent.Complete` — lists with one end, in which numerals have values
* `Descent.Settles` — the cursor stays in the list, and only errors of the source are found

## Main results

* `Descent.extends_parse_of_le` — more fuel does not change an answer
* `Descent.settles_descend` — every procedure settles, given fuel for five calls an item
* `Descent.settles_parse` — so does the whole descent
-/

namespace SchoolAlgebra

namespace Descent

/-! ### Items and procedures

An item may be a numeral without a value, or an end in the middle of a list. The procedures do not
rely on its parts to fit together: they look at the kind, and ask for the value or the text where
they need it. -/

/-- What a token is, apart from its text and its value. -/
inductive Kind where
  | number
  | name
  | operator (op : Operator)
  | caret
  | leftParen
  | rightParen
  | finish
  deriving DecidableEq

/-- A token whose parts need not fit together. -/
structure Item where
  /-- What the item is. -/
  kind : Kind
  /-- The text that it stands for. -/
  text : String
  /-- Its value, if it has one. -/
  value? : Option Binary64
  /-- Where it was read. -/
  span : Span
  deriving DecidableEq

/-- Why a procedure has no answer. -/
inductive Fault where
  /-- The source is not an expression. -/
  | refused (error : ParseError)
  /-- The cursor has left the list. -/
  | pastEnd
  /-- A numeral has no value. -/
  | noValue
  /-- There are too many calls inside each other. -/
  | outOfFuel
  deriving DecidableEq

/-- What moves a cursor, and has an answer or fails. -/
abbrev Procedure (α : Type) : Type := ExceptT Fault (StateM Nat) α

/-- The answer of a procedure that begins with a cursor, and the cursor in the end. -/
def Procedure.runFrom {α : Type} (x : Procedure α) (i : Nat) : Except Fault α × Nat :=
  Id.run (StateT.run (ExceptT.run x) i)

namespace Kind

/-- Accepts one kind only. -/
def exactly (k : Kind) : Kind → Option Unit := fun other => if other = k then some () else none

/-- Accepts the operators of some sort. -/
def operator? (isOf : Operator → Bool) : Kind → Option Operator
  | .operator op => if isOf op then some op else none
  | _ => none

end Kind

section

variable (items : List Item)

/-- The item at the cursor. -/
def peek : Procedure Item := do
  match items[← get]? with
  | some item => return item
  | none => throw .pastEnd

/-- The item at the cursor, which then moves on, if the item is accepted. The end never is. -/
def accept {β : Type} (accepts : Kind → Option β) : Procedure (Option (β × Item)) := do
  let item ← peek items
  match if item.kind = .finish then none else accepts item.kind with
  | some b =>
    modify (· + 1)
    return some (b, item)
  | none => return none

/-- An error at the cursor. -/
def refuse {α : Type} (cause : Item → ParseError.Cause) : Procedure α := do
  let item ← peek items
  throw (.refused ⟨cause item, item.span.start⟩)

/-- The value of a numeral. -/
def valueOf (item : Item) : Procedure Binary64 :=
  match item.value? with
  | some value => return value
  | none => throw .noValue

/-- A call of one of the procedures. -/
inductive Call where
  | sum
  /-- What may follow the first terms of a sum. -/
  | sumRest (left : Expr)
  | term
  /-- What may follow the first factors of a term. -/
  | termRest (left : Expr)
  | factor
  | power
  | atom

/-- What a call does. Calls inside each other use up the fuel. -/
def descend : Nat → Call → Procedure Expr
  | 0, _ => throw .outOfFuel
  | fuel + 1, .sum => do
    let left ← descend fuel .term
    descend fuel (.sumRest left)
  | fuel + 1, .sumRest left => do
    match ← accept items (Kind.operator? Operator.isAdditive) with
    | none => return left
    | some (op, _) =>
      let right ← descend fuel .term
      descend fuel (.sumRest (.join op left right))
  | fuel + 1, .term => do
    let left ← descend fuel .factor
    descend fuel (.termRest left)
  | fuel + 1, .termRest left => do
    match ← accept items (Kind.operator? Operator.isMultiplicative) with
    | none => return left
    | some (op, _) =>
      let right ← descend fuel .factor
      descend fuel (.termRest (.join op left right))
  | fuel + 1, .factor => do
    match ← accept items (Kind.exactly (.operator .subtract)) with
    | none => descend fuel .power
    | some (_, sign) =>
      let operand ← descend fuel .factor
      return .neg operand (some ⟨sign.span.start, operand.stop⟩)
  | fuel + 1, .power => do
    let base ← descend fuel .atom
    match ← accept items (Kind.exactly .caret) with
    | none => return base
    | some _ =>
      let minus? ← accept items (Kind.exactly (.operator .subtract))
      match ← accept items (Kind.exactly .number) with
      | none => return .power base .two base.span
      | some (_, numeral) =>
        let value ← valueOf numeral
        return .power base (if minus?.isSome then value.neg else value)
          (some ⟨base.start, numeral.span.stop⟩)
  | fuel + 1, .atom => do
    match ← accept items (Kind.exactly .number) with
    | some (_, numeral) =>
      let value ← valueOf numeral
      return .num value (some numeral.span)
    | none =>
      match ← accept items (Kind.exactly .name) with
      | some (_, name) => return .var name.text .one (some name.span)
      | none =>
        match ← accept items (Kind.exactly .leftParen) with
        | some (_, opening) =>
          let e ← descend fuel .sum
          match ← accept items (Kind.exactly .rightParen) with
          | some (_, closing) => return e.withSpan (some ⟨opening.span.start, closing.span.stop⟩)
          | none => refuse items fun _ => .unclosedGroup
        | none =>
          refuse items fun item =>
            if item.text = "" then .unexpectedEnd else .unexpected item.text

/-- A list of items is read as a sum, with nothing left over. -/
def parse (fuel : Nat) : Procedure Expr := do
  let e ← descend items fuel .sum
  let item ← peek items
  if item.kind = .finish then return e else refuse items fun item => .unexpected item.text

end

/-! ### Runs of procedures

A procedure is run from a cursor and leaves a result and a cursor. Running two procedures one after
another runs the second from where the first has left the cursor, unless the first one failed. -/

namespace Procedure

variable {α β : Type} {x : Procedure α} {f : α → Procedure β} {i j : Nat}

@[simp] theorem runFrom_pure (a : α) (i : Nat) : runFrom (pure a) i = (.ok a, i) := rfl

@[simp] theorem runFrom_throw (fault : Fault) (i : Nat) :
    runFrom (throw fault : Procedure α) i = (.error fault, i) := rfl

theorem runFrom_bind (x : Procedure α) (f : α → Procedure β) (i : Nat) :
    (x >>= f).runFrom i =
      match x.runFrom i with
      | (.ok a, j) => (f a).runFrom j
      | (.error fault, j) => (.error fault, j) := by
  unfold runFrom ExceptT.run StateT.run Id.run
  simp only [bind, ExceptT.bind, ExceptT.mk, StateT.bind, ExceptT.bindCont]
  cases x i with
  | mk result j => cases result <;> rfl

theorem runFrom_bind_of_ok {a : α} (h : x.runFrom i = (.ok a, j)) :
    (x >>= f).runFrom i = (f a).runFrom j := by
  rw [runFrom_bind, h]

theorem runFrom_bind_of_error {fault : Fault} (h : x.runFrom i = (.error fault, j)) :
    (x >>= f).runFrom i = (.error fault, j) := by
  rw [runFrom_bind, h]

end Procedure

section

open Procedure

variable {items : List Item} {item : Item} {i : Nat}

theorem runFrom_peek (h : items[i]? = some item) : (peek items).runFrom i = (.ok item, i) := by
  have hpeek : peek items = get >>= fun i =>
      match items[i]? with
      | some item => return item
      | none => throw .pastEnd := rfl
  have hget : (get : Procedure Nat).runFrom i = (.ok i, i) := rfl
  rw [hpeek, runFrom_bind_of_ok hget, h]
  rfl

theorem runFrom_peek_of_none (h : items[i]? = none) :
    (peek items).runFrom i = (.error .pastEnd, i) := by
  have hpeek : peek items = get >>= fun i =>
      match items[i]? with
      | some item => return item
      | none => throw .pastEnd := rfl
  have hget : (get : Procedure Nat).runFrom i = (.ok i, i) := rfl
  rw [hpeek, runFrom_bind_of_ok hget, h]
  rfl

/-- An item is accepted, and the cursor moves on. -/
theorem runFrom_accept_of_some {β : Type} {accepts : Kind → Option β} {b : β}
    (hitem : items[i]? = some item) (hfinish : item.kind ≠ .finish)
    (h : accepts item.kind = some b) :
    (accept items accepts).runFrom i = (.ok (some (b, item)), i + 1) := by
  rw [accept, runFrom_bind_of_ok (runFrom_peek hitem), if_neg hfinish, h]
  rfl

/-- An item is not accepted, and the cursor stays. -/
theorem runFrom_accept_of_none {β : Type} {accepts : Kind → Option β}
    (hitem : items[i]? = some item) (h : item.kind = .finish ∨ accepts item.kind = none) :
    (accept items accepts).runFrom i = (.ok none, i) := by
  rw [accept, runFrom_bind_of_ok (runFrom_peek hitem)]
  rcases h with h | h
  · rw [if_pos h]
    rfl
  · rw [h, ite_self]
    rfl

theorem runFrom_refuse {α : Type} (cause : Item → ParseError.Cause)
    (hitem : items[i]? = some item) :
    (refuse items cause : Procedure α).runFrom i =
      (.error (.refused ⟨cause item, item.span.start⟩), i) := by
  rw [refuse, runFrom_bind_of_ok (runFrom_peek hitem)]
  rfl

end

/-! ### More fuel

If the fuel is not used up, a procedure with more of it makes the same calls. The only difference
that more fuel can make is that a procedure which has run out of it has an answer. -/

/-- With more fuel a procedure does the same, unless it has run out of fuel. -/
def Extends {α : Type} (x y : Procedure α) : Prop :=
  ∀ i, (x.runFrom i).1 = .error .outOfFuel ∨ y.runFrom i = x.runFrom i

namespace Extends

variable {α β : Type} {x y z : Procedure α}

theorem refl (x : Procedure α) : Extends x x := fun _ => .inr rfl

theorem trans (hxy : Extends x y) (hyz : Extends y z) : Extends x z := by
  intro i
  rcases hxy i with hx | hy
  · exact .inl hx
  · rcases hyz i with hfuel | hz
    · exact .inl (by rw [← hy, hfuel])
    · exact .inr (hz.trans hy)

theorem bind {f g : α → Procedure β} (hx : Extends x y) (hf : ∀ a, Extends (f a) (g a)) :
    Extends (x >>= f) (y >>= g) := by
  intro i
  rcases hx i with hfuel | hy
  · obtain ⟨j, hj⟩ : ∃ j, x.runFrom i = (.error .outOfFuel, j) := ⟨_, Prod.ext hfuel rfl⟩
    exact .inl (by rw [Procedure.runFrom_bind_of_error hj])
  · rw [Procedure.runFrom_bind, Procedure.runFrom_bind, hy]
    cases x.runFrom i with
    | mk result j =>
      cases result with
      | error fault => exact .inr rfl
      | ok a => exact hf a j

end Extends

theorem extends_descend_succ (items : List Item) (fuel : Nat) (call : Call) :
    Extends (descend items fuel call) (descend items (fuel + 1) call) := by
  induction fuel generalizing call with
  | zero => exact fun i => .inl rfl
  | succ fuel ih =>
    cases call with
    | sum | term =>
      rw [descend, descend]
      exact (ih _).bind fun left => ih _
    | sumRest left | termRest left =>
      rw [descend, descend]
      refine (Extends.refl _).bind fun found? => ?_
      cases found? with
      | none => exact .refl _
      | some found => exact (ih _).bind fun right => ih _
    | factor =>
      rw [descend, descend]
      refine (Extends.refl _).bind fun minus? => ?_
      cases minus? with
      | none => exact ih _
      | some minus => exact (ih _).bind fun operand => .refl _
    | power =>
      rw [descend, descend]
      exact (ih _).bind fun base => .refl _
    | atom =>
      rw [descend, descend]
      refine (Extends.refl _).bind fun numeral? => ?_
      cases numeral? with
      | some numeral => exact .refl _
      | none =>
        refine (Extends.refl _).bind fun name? => ?_
        cases name? with
        | some name => exact .refl _
        | none =>
          refine (Extends.refl _).bind fun opening? => ?_
          cases opening? with
          | none => exact .refl _
          | some opening => exact (ih _).bind fun e => .refl _

/-- More fuel does not change an answer. -/
theorem extends_parse_of_le (items : List Item) {fuel fuel' : Nat} (h : fuel ≤ fuel') :
    Extends (parse items fuel) (parse items fuel') := by
  have hdescend : Extends (descend items fuel .sum) (descend items fuel' .sum) := by
    induction h with
    | refl => exact .refl _
    | step _ ih => exact ih.trans (extends_descend_succ items _ .sum)
  exact hdescend.bind fun e => .refl _

/-! ### The cursor stays in the list

A call settles if its answer or its refusal is found at a cursor in the list. The cursor only moves
when an item is accepted; that item is not the last one, because the end is never accepted. Where a
call has an answer the cursor has moved by as many items as such an expression has at least, and
this is what pays for the next calls. -/

/-- A list of items that ends where the source does, and has a value for every numeral. -/
structure Complete (items : List Item) : Prop where
  /-- Only the last item is the end of the source. -/
  exists_end : ∃ front stop, items = front ++ [stop] ∧ stop.kind = .finish ∧
    ∀ item ∈ front, item.kind ≠ .finish
  /-- Numerals have values. -/
  isSome_value? : ∀ item ∈ items, item.kind = .number → item.value?.isSome = true

namespace Complete

variable {items : List Item} {item : Item} {i : Nat}

theorem length_pos (h : Complete items) : 0 < items.length := by
  obtain ⟨front, stop, rfl, -⟩ := h.exists_end
  simp

theorem succ_lt_length (h : Complete items) (hitem : items[i]? = some item)
    (hkind : item.kind ≠ .finish) : i + 1 < items.length := by
  obtain ⟨front, stop, rfl, hstop, -⟩ := h.exists_end
  obtain ⟨hlt, -⟩ := List.getElem?_eq_some_iff.mp hitem
  rw [List.length_append, List.length_singleton] at hlt ⊢
  refine Nat.succ_lt_succ (lt_of_le_of_ne (Nat.le_of_lt_succ hlt) fun hlast => hkind ?_)
  rw [hlast, List.getElem?_concat_length] at hitem
  rw [← Option.some.inj hitem, hstop]

end Complete

/-- From a cursor in the list a procedure comes to an end at a cursor in the list, and what it
refuses it refuses at that cursor. -/
inductive Settles {α : Type} (items : List Item) (x : Procedure α) (i : Nat)
    (post : α → Nat → Prop) : Prop
  | answer {a : α} {j : Nat} (hrun : x.runFrom i = (.ok a, j)) (hle : i ≤ j)
      (hlt : j < items.length) (hpost : post a j)
  | refusal {error : ParseError} {j : Nat} {item : Item}
      (hrun : x.runFrom i = (.error (.refused error), j)) (hle : i ≤ j)
      (hitem : items[j]? = some item) (hposition : error.position = item.span.start)

namespace Settles

variable {α β : Type} {items : List Item} {x : Procedure α} {f : α → Procedure β} {i : Nat}
  {post : α → Nat → Prop} {post' : β → Nat → Prop}

theorem pure {a : α} (hlt : i < items.length) (hpost : post a i) :
    Settles items (pure a) i post :=
  .answer rfl le_rfl hlt hpost

/-- One procedure after another. -/
theorem bind (hx : Settles items x i post)
    (hf : ∀ a j, i ≤ j → j < items.length → post a j → Settles items (f a) j post') :
    Settles items (x >>= f) i post' := by
  cases hx with
  | refusal hrun hle hitem hposition =>
    exact .refusal (Procedure.runFrom_bind_of_error hrun) hle hitem hposition
  | answer hrun hle hlt hpost =>
    cases hf _ _ hle hlt hpost with
    | answer hrun' hle' hlt' hpost' =>
      exact .answer ((Procedure.runFrom_bind_of_ok hrun).trans hrun') (hle.trans hle') hlt' hpost'
    | refusal hrun' hle' hitem hposition =>
      exact .refusal ((Procedure.runFrom_bind_of_ok hrun).trans hrun') (hle.trans hle') hitem
        hposition

theorem mono {post' : α → Nat → Prop} (hx : Settles items x i post)
    (h : ∀ a j, i ≤ j → post a j → post' a j) : Settles items x i post' := by
  cases hx with
  | answer hrun hle hlt hpost => exact .answer hrun hle hlt (h _ _ hle hpost)
  | refusal hrun hle hitem hposition => exact .refusal hrun hle hitem hposition

end Settles

section

variable {items : List Item} {i : Nat}

theorem settles_refuse {α : Type} {post : α → Nat → Prop} (cause : Item → ParseError.Cause)
    (hi : i < items.length) : Settles items (refuse items cause : Procedure α) i post :=
  .refusal (runFrom_refuse cause (List.getElem?_eq_getElem hi)) le_rfl
    (List.getElem?_eq_getElem hi) rfl

/-- Where a cursor is after an item was accepted or not. -/
inductive AfterAccept {β : Type} (items : List Item) (accepts : Kind → Option β) (i : Nat) :
    Option (β × Item) → Nat → Prop
  | stays : AfterAccept items accepts i none i
  | moves {b : β} {item : Item} (hmem : item ∈ items) (haccepts : accepts item.kind = some b) :
    AfterAccept items accepts i (some (b, item)) (i + 1)

theorem settles_accept {β : Type} (h : Complete items) (accepts : Kind → Option β)
    (hi : i < items.length) :
    Settles items (accept items accepts) i (AfterAccept items accepts i) := by
  have hitem : items[i]? = some items[i] := List.getElem?_eq_getElem hi
  by_cases hfinish : items[i].kind = .finish
  · exact .answer (runFrom_accept_of_none hitem (.inl hfinish)) le_rfl hi .stays
  · cases haccepts : accepts items[i].kind with
    | none => exact .answer (runFrom_accept_of_none hitem (.inr haccepts)) le_rfl hi .stays
    | some b =>
      exact .answer (runFrom_accept_of_some hitem hfinish haccepts) (Nat.le_succ i)
        (h.succ_lt_length hitem hfinish) (.moves (List.getElem_mem hi) haccepts)

theorem exactly_eq_some {k other : Kind} {u : Unit} (h : Kind.exactly k other = some u) :
    other = k := by
  rw [Kind.exactly] at h
  split at h
  · assumption
  · cases h

theorem settles_valueOf (h : Complete items) {item : Item} (hmem : item ∈ items)
    (hkind : item.kind = .number) (hi : i < items.length) :
    Settles items (valueOf item) i fun _ j => j = i := by
  obtain ⟨value, hvalue⟩ := Option.isSome_iff_exists.mp (h.isSome_value? item hmem hkind)
  rw [valueOf, hvalue]
  exact .pure hi rfl

namespace Call

/-- The fuel that a call needs at the end of the list. -/
def level : Call → Nat
  | .sumRest _ | .termRest _ | .atom => 1
  | .power => 2
  | .factor => 3
  | .term => 4
  | .sum => 5

theorem level_le (call : Call) : call.level ≤ 5 := by cases call <;> simp [level]

/-- How many items a call takes at least. -/
def least : Call → Nat
  | .sumRest _ | .termRest _ => 0
  | .sum | .term | .factor | .power | .atom => 1

end Call

/-- A call settles from all cursors for which there is fuel. -/
def SettlesWith (items : List Item) (fuel : Nat) (call : Call) : Prop :=
  ∀ i, i < items.length → 5 * (items.length - (i + 1)) + call.level ≤ fuel →
    Settles items (descend items fuel call) i fun _ j => i + call.least ≤ j

variable {fuel : Nat}

/-- An operand, and what may follow it. -/
theorem settles_chain (ih : ∀ call, SettlesWith items fuel call) (call : Call)
    (rest : Expr → Call) (hcall : call.least = 1) (hrest : ∀ left, (rest left).level = 1)
    (hi : i < items.length) (hfuel : 5 * (items.length - (i + 1)) + call.level ≤ fuel) :
    Settles items
      (do
        let left ← descend items fuel call
        descend items fuel (rest left))
      i fun _ j => i + 1 ≤ j := by
  have hlevel : 1 ≤ call.level := by cases call <;> simp [Call.level]
  refine (ih call i hi hfuel).bind fun left j hle hj hleast => ?_
  rw [hcall] at hleast
  refine (ih (rest left) j hj (by rw [hrest]; omega)).mono fun e k hle' _ => ?_
  exact hleast.trans hle'

/-- An operator, an operand and what may follow it, or nothing at all. -/
theorem settles_chainRest (h : Complete items) (ih : ∀ call, SettlesWith items fuel call)
    (accepts : Kind → Option Operator) (left : Expr) (call : Call) (rest : Expr → Call)
    (hcall : call.level ≤ 4) (hrest : ∀ left, (rest left).level = 1)
    (hi : i < items.length) (hfuel : 5 * (items.length - (i + 1)) ≤ fuel) :
    Settles items
      (do
        match ← accept items accepts with
        | none => return left
        | some (op, _) =>
          let right ← descend items fuel call
          descend items fuel (rest (.join op left right)))
      i fun _ j => i ≤ j := by
  refine (settles_accept h accepts hi).bind fun found? j hle hj hfound => ?_
  cases hfound with
  | stays => exact .pure hj hle
  | moves =>
    refine (ih call _ hj (by omega)).bind fun right k hle' hk _ => ?_
    refine (ih (rest _) k hk (by rw [hrest]; omega)).mono fun e m hle'' _ => ?_
    omega

theorem settlesWith_sum (ih : ∀ call, SettlesWith items fuel call) :
    SettlesWith items (fuel + 1) .sum := fun _ hi hfuel =>
  settles_chain ih .term .sumRest rfl (fun _ => rfl) hi (Nat.le_of_succ_le_succ hfuel)

theorem settlesWith_term (ih : ∀ call, SettlesWith items fuel call) :
    SettlesWith items (fuel + 1) .term := fun _ hi hfuel =>
  settles_chain ih .factor .termRest rfl (fun _ => rfl) hi (Nat.le_of_succ_le_succ hfuel)

theorem settlesWith_sumRest (h : Complete items) (ih : ∀ call, SettlesWith items fuel call)
    (left : Expr) : SettlesWith items (fuel + 1) (.sumRest left) := fun _ hi hfuel =>
  settles_chainRest h ih _ left .term .sumRest (le_refl 4) (fun _ => rfl) hi
    (Nat.le_of_succ_le_succ hfuel)

theorem settlesWith_termRest (h : Complete items) (ih : ∀ call, SettlesWith items fuel call)
    (left : Expr) : SettlesWith items (fuel + 1) (.termRest left) := fun _ hi hfuel =>
  settles_chainRest h ih _ left .factor .termRest (by decide) (fun _ => rfl) hi
    (Nat.le_of_succ_le_succ hfuel)

theorem settlesWith_factor (h : Complete items) (ih : ∀ call, SettlesWith items fuel call) :
    SettlesWith items (fuel + 1) .factor := by
  intro i hi hfuel
  simp only [Call.level] at hfuel
  rw [descend]
  refine (settles_accept h _ hi).bind fun found? j hle hj hfound => ?_
  cases hfound with
  | stays => exact ih .power i hj (by simp only [Call.level]; omega)
  | moves =>
    refine (ih .factor _ hj (by simp only [Call.level]; omega)).bind fun operand k hle' hk _ => ?_
    exact .pure hk (by simp only [Call.least]; omega)

theorem settlesWith_power (h : Complete items) (ih : ∀ call, SettlesWith items fuel call) :
    SettlesWith items (fuel + 1) .power := by
  intro i hi hfuel
  simp only [Call.level] at hfuel
  rw [descend]
  refine (ih .atom i hi (by simp only [Call.level]; omega)).bind fun base j hle hj hleast => ?_
  simp only [Call.least] at hleast ⊢
  refine (settles_accept h _ hj).bind fun caret? k hk hlt hcaret => ?_
  cases hcaret with
  | stays => exact .pure hlt (hleast.trans hk)
  | moves =>
    refine (settles_accept h _ hlt).bind fun minus? m hm hlt _ => ?_
    refine (settles_accept h _ hlt).bind fun numeral? o ho hlt hnumeral => ?_
    cases hnumeral with
    | stays => exact .pure hlt (by omega)
    | moves hmem hkind =>
      refine (settles_valueOf h hmem (exactly_eq_some hkind) hlt).bind fun value q hq hlt _ => ?_
      exact .pure hlt (by omega)

theorem settlesWith_atom (h : Complete items) (ih : ∀ call, SettlesWith items fuel call) :
    SettlesWith items (fuel + 1) .atom := by
  intro i hi hfuel
  simp only [Call.level] at hfuel
  rw [descend]
  simp only [Call.least]
  refine (settles_accept h _ hi).bind fun numeral? j hle hj hnumeral => ?_
  cases hnumeral with
  | moves hmem hkind =>
    refine (settles_valueOf h hmem (exactly_eq_some hkind) hj).bind fun value k hk hlt _ => ?_
    exact .pure hlt hk
  | stays =>
    refine (settles_accept h _ hi).bind fun name? k hk hlt hname => ?_
    cases hname with
    | moves => exact .pure hlt le_rfl
    | stays =>
      refine (settles_accept h _ hi).bind fun opening? k hk hlt hopening => ?_
      cases hopening with
      | stays => exact settles_refuse _ hlt
      | moves =>
        -- only here the fuel of an item pays for the five calls up to the next sum
        refine (ih .sum _ hlt (by simp only [Call.level]; omega)).bind fun e m hm hlt _ => ?_
        refine (settles_accept h _ hlt).bind fun closing? o ho hlt _ => ?_
        cases closing? with
        | none => exact settles_refuse _ hlt
        | some closing => exact .pure hlt (by omega)

/-- **Every procedure settles**, given fuel for five calls an item. -/
theorem settles_descend (h : Complete items) (fuel : Nat) (call : Call) :
    SettlesWith items fuel call := by
  induction fuel generalizing call with
  | zero =>
    intro i hi hfuel
    cases call <;> simp only [Call.level] at hfuel <;> omega
  | succ fuel ih =>
    cases call with
    | sum => exact settlesWith_sum ih
    | sumRest left => exact settlesWith_sumRest h ih left
    | term => exact settlesWith_term ih
    | termRest left => exact settlesWith_termRest h ih left
    | factor => exact settlesWith_factor h ih
    | power => exact settlesWith_power h ih
    | atom => exact settlesWith_atom h ih

/-- The cursor stays in the list, and a list that is read is read to its end. -/
theorem settles_parse (h : Complete items) (hfuel : 5 * items.length ≤ fuel) :
    Settles items (parse items fuel) 0 fun _ j =>
      ∀ item, items[j]? = some item → item.kind = .finish := by
  have hpos := h.length_pos
  refine (settles_descend h fuel .sum 0 hpos (by simp only [Call.level]; omega)).bind
    fun e j _ hj _ => ?_
  have hitem : items[j]? = some items[j] := List.getElem?_eq_getElem hj
  have hpeek : Settles items (peek items) j fun item k => k = j ∧ items[j]? = some item :=
    .answer (runFrom_peek hitem) le_rfl hj ⟨rfl, hitem⟩
  refine hpeek.bind fun item k _ hk hpost => ?_
  obtain ⟨rfl, hitem⟩ := hpost
  split
  · next hfinish =>
    refine .pure hk fun other hother => ?_
    rwa [← Option.some.inj (hitem.symm.trans hother)]
  · exact settles_refuse _ hk

end

end Descent

end SchoolAlgebra
