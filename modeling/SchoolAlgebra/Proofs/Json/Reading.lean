import SchoolAlgebra.Proofs.ForMathlib.List
import SchoolAlgebra.Proofs.Json.Printing

/-!
# Reading what JSON denotes

A datum is read by its kind: a string by its units, an array item by item, an object by the names of
its members. A name is only read where it stands once, so it does not matter which of several
members of one name a reader would take. What a text or named members denote is read back as that
text and those members.

## Why a name is read only once

Readers of JSON differ in what they make of two members of one name. A reader that takes neither is
right whatever others do, and what it reads back is there for every reader. That it reads back what
was printed then says more than it would for a reader that takes the first.

## Main definitions

* `Json.Datum.text?`, `Json.Datum.items?`, `Json.Datum.member?` — readers
* `Json.Datum.ofText`, `Json.Datum.ofMembers` — what a text and named members denote

## Main results

* `Json.Datum.text?_ofText`, `Json.Datum.member?_ofMembers` — reading back
* `Json.itemData?_map`, `Json.datum?_object` — what arrays and objects denote
-/

namespace SchoolAlgebra

namespace Json

/-! ### Readers

A reader fails where the datum is of another kind, so what is read is known to have been there. In
particular a member whose name stands twice is not read at all. -/

namespace Datum

/-- The text of a string. -/
def text? : Datum → Option String
  | .string units => (Text.ofUtf16? units).map String.ofList
  | _ => none

/-- An integer. -/
def integer? : Datum → Option Int
  | .integer n => some n
  | _ => none

/-- A number with a fraction or an exponent. -/
def number? : Datum → Option Binary64
  | .number x => some x
  | _ => none

/-- The item of a list, if it is alone. -/
def only? {α : Type} : List α → Option α
  | [x] => some x
  | _ => none

theorem only?_map {α β : Type} (f : α → β) (xs : List α) :
    only? (xs.map f) = (only? xs).map f := by
  match xs with
  | [] | [_] | _ :: _ :: _ => rfl

/-- The items of an array, each read in the same way. -/
def items? {α : Type} (read : Datum → Option α) : Datum → Option (List α)
  | .array items => items.mapM read
  | _ => none

/-- The member of an object with a name, if there is only one. -/
def member? (name : String) : Datum → Option Datum
  | .object members =>
    (only? (members.filter fun member => member.1 = Text.utf16 name.toList)).map Prod.snd
  | _ => none

/-- What a text denotes when it is printed. -/
def ofText (text : String) : Datum := .string (Text.utf16 text.toList)

/-- The members of an object under their names. -/
def ofMembers (members : List (String × Datum)) : Datum :=
  .object (members.map fun member => (Text.utf16 member.1.toList, member.2))

@[simp] theorem text?_ofText (text : String) : (ofText text).text? = some text := by
  simp [ofText, text?, Text.ofUtf16?_utf16]

@[simp] theorem member?_ofMembers (name : String) (members : List (String × Datum)) :
    (ofMembers members).member? name =
      (only? (members.filter fun member => member.1 = name)).map Prod.snd := by
  simp only [ofMembers, member?, List.filter_map, only?_map, Option.map_map, Function.comp_def,
    Text.utf16_toList_inj]

end Datum

/-! ### What printed values denote -/

open Datum (ofMembers)

/-- The data of items that all have one. -/
theorem itemData?_map {α : Type} {json : α → Json} {datum : α → Datum} {xs : List α}
    (h : ∀ x ∈ xs, (json x).datum? = some (datum x)) :
    itemData? (xs.map json) = some (xs.map datum) := by
  induction xs with
  | nil => rfl
  | cons x xs ih =>
    obtain ⟨hx, hxs⟩ := List.forall_mem_cons.mp h
    exact itemData?_cons hx (ih hxs)

/-- The datum of an object whose fields all have one. -/
theorem datum?_object {fields : List (String × Json)} {members : List (String × Datum)}
    (h : List.Forall₂ (fun f m => f.1 = m.1 ∧ f.2.datum? = some m.2) fields members) :
    (object fields).datum? = some (ofMembers members) := by
  have hdata : fieldData? fields =
      some (members.map fun member => (Text.utf16 member.1.toList, member.2)) := by
    induction h with
    | nil => rfl
    | @cons f m fields members hfm _ ih =>
      obtain ⟨name, value⟩ := f
      obtain ⟨rfl, hvalue⟩ := hfm
      exact fieldData?_cons _ hvalue ih
  rw [datum?, hdata]
  rfl

/-- An item without a datum leaves the array without one. -/
theorem itemData?_eq_none {items : List Json} {item : Json} (hmem : item ∈ items)
    (h : item.datum? = none) : itemData? items = none := by
  induction items with
  | nil => cases hmem
  | cons other items ih =>
    rw [itemData?]
    rcases List.mem_cons.mp hmem with rfl | hmem
    · rw [h]
      rfl
    · rw [ih hmem]
      cases other.datum? <;> rfl

end Json

end SchoolAlgebra
