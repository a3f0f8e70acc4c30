import SchoolAlgebra.Editor.Diagnostic

/-!
# Open documents

What an editor does with documents, and the diagnostics that are published in answer. Documents are
known by name and do not affect each other; opening or changing one gives its full new text.

## Main results

* `Workspace.textOf_after_write`, `textOf_after_write_of_ne` — what a document holds after a write
-/

namespace SchoolAlgebra

namespace Editor

/-- The open documents. -/
structure Workspace where
  /-- Their texts by name, the latest first. -/
  documents : List (String × String)

/-- Something an editor does. -/
inductive Event where
  /-- A document is opened or changed: its full text. -/
  | write (document text : String)
  /-- A document is to be looked at again as it is. -/
  | validate (document : String)

/-- The document that an event is about. -/
def Event.document : Event → String
  | .write document _ | .validate document => document

/-- Diagnostics that replace those of a document before. -/
structure Publication where
  /-- The name of the document. -/
  document : String
  /-- All its diagnostics. -/
  diagnostics : List Diagnostic
  deriving DecidableEq

namespace Workspace

/-- No document is open. -/
def empty : Workspace := ⟨[]⟩

/-- The text of a document; a document that is not open is empty. -/
def textOf (w : Workspace) (document : String) : String := (w.documents.lookup document).getD ""

/-- The diagnostics of a document as it is. -/
def publish (w : Workspace) (document : String) : Publication :=
  ⟨document, Diagnostic.ofDocument (w.textOf document)⟩

/-- The open documents after an event. -/
def after (w : Workspace) : Event → Workspace
  | .write document text => ⟨(document, text) :: w.documents⟩
  | .validate _ => w

/-- A document has the text that was last written to it. -/
@[simp] theorem textOf_after_write (w : Workspace) (document text : String) :
    (w.after (.write document text)).textOf document = text := by
  simp [after, textOf]

/-- Writing to a document leaves the others as they are. -/
theorem textOf_after_write_of_ne (w : Workspace) {document other : String} (text : String)
    (h : other ≠ document) : (w.after (.write document text)).textOf other = w.textOf other := by
  have hne : (other == document) = false := beq_false_of_ne h
  simp [after, textOf, List.lookup_cons, hne]

/-- The open documents after an event, and what is published in answer to it. -/
def step (w : Workspace) (event : Event) : Workspace × Publication :=
  (w.after event, (w.after event).publish event.document)

/-- What is published in answer to each of some events. -/
def run (w : Workspace) : List Event → List Publication
  | [] => []
  | event :: rest =>
    let (w, publication) := w.step event
    publication :: run w rest

end Workspace

end Editor

end SchoolAlgebra
