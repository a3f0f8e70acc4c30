import Mathlib.Data.List.Basic
import SchoolAlgebra.Editor.Workspace

/-!
# What is published over a session

An editor sends event after event, and each of them is answered with the diagnostics of the document
that it is about. What a document holds at that moment is the text that was last written to it, for
a write gives the whole text. So an answer depends on the events before it through one text only,
and not at all on what was done with other documents.

## One step, then a session

`Workspace.textOf_after` says of one event what it leaves in each document: what it writes there, if
it writes there, and what was there before otherwise. A session is a run of such steps. By
induction over the events a document holds the text last written to it, or what it held at the
beginning if nothing was, and every answer is about the document as the events up to it have left
it.

A later publication replaces an earlier one of the same document. What an editor shows of a document
in the end is therefore the last of its publications, and `Workspace.getLast?_filter_run` says that
it is about the text that the document holds then: no diagnostics of an earlier text are left.

## Main definitions

* `Editor.Event.written?` — what an event writes to a document
* `Editor.lastWritten?` — the text last written to a document

## Main results

* `Editor.Workspace.textOf_foldl_after` — what a document holds after some events
* `Editor.Workspace.getElem?_run` — the answer to each of some events
* `Editor.Workspace.filter_run` — the answers about one document depend on its own events only
* `Editor.Workspace.getLast?_filter_run` — the last answer about a document is about its text
-/

namespace SchoolAlgebra

namespace Editor

/-! ### The text of a document

A write replaces the text as a whole and a look leaves it, so of all events before a moment only the
last write matters. -/

/-- The text that an event writes to a document, if it does. -/
def Event.written? (document : String) : Event → Option String
  | .write other text => if other = document then some text else none
  | .validate _ => none

/-- The text last written to a document by some events. -/
def lastWritten? (document : String) (events : List Event) : Option String :=
  (events.filterMap (Event.written? document)).getLast?

variable {w w' : Workspace} {document : String} {event : Event} {events : List Event}

theorem Event.written?_eq_none (h : event.document ≠ document) :
    event.written? document = none := by
  cases event with
  | write other text => exact if_neg h
  | validate other => rfl

@[simp] theorem lastWritten?_nil : lastWritten? document [] = none := rfl

theorem lastWritten?_cons (event : Event) (events : List Event) (rest : String) :
    (lastWritten? document (event :: events)).getD rest =
      (lastWritten? document events).getD ((event.written? document).getD rest) := by
  unfold lastWritten?
  cases h : event.written? document with
  | none =>
    rw [List.filterMap_cons_none h]
    rfl
  | some text =>
    rw [List.filterMap_cons_some h, List.getLast?_cons]
    rfl

/-- What is written to a document is written by its own events. -/
theorem lastWritten?_filter (document : String) (events : List Event) :
    lastWritten? document (events.filter (·.document = document)) =
      lastWritten? document events := by
  rw [lastWritten?, List.filterMap_filter, lastWritten?]
  refine congrArg List.getLast? (List.filterMap_congr fun event _ => ?_)
  by_cases h : event.document = document
  · rw [if_pos (decide_eq_true h)]
  · rw [if_neg (by simpa using h), Event.written?_eq_none h]

namespace Workspace

/-- **One event.** It leaves in a document what it writes there, and else what was there. -/
theorem textOf_after (w : Workspace) (event : Event) (document : String) :
    (w.after event).textOf document = (event.written? document).getD (w.textOf document) := by
  cases event with
  | validate other => rfl
  | write other text =>
    by_cases h : other = document
    · subst h
      rw [textOf_after_write, Event.written?, if_pos rfl]
      rfl
    · rw [textOf_after_write_of_ne w text (Ne.symm h), Event.written?, if_neg h]
      rfl

/-- **Some events.** They leave in a document the text last written to it. -/
theorem textOf_foldl_after (w : Workspace) (events : List Event) (document : String) :
    (events.foldl after w).textOf document =
      (lastWritten? document events).getD (w.textOf document) := by
  induction events generalizing w with
  | nil => rfl
  | cons event events ih => rw [List.foldl_cons, ih, textOf_after, lastWritten?_cons]

/-! ### The answers -/

theorem run_cons (w : Workspace) (event : Event) (events : List Event) :
    w.run (event :: events) =
      (w.after event).publish event.document :: (w.after event).run events := rfl

/-- A session goes on with the documents as it has left them. -/
theorem run_append (w : Workspace) (events more : List Event) :
    w.run (events ++ more) = w.run events ++ (events.foldl after w).run more := by
  induction events generalizing w with
  | nil => rfl
  | cons event events ih => rw [List.cons_append, run_cons, ih, run_cons]; rfl

/-- **Each event has one answer**, about its document with the text that was last written to it up
to the event. -/
theorem getElem?_run (w : Workspace) (events : List Event) (i : Nat) :
    (w.run events)[i]? = events[i]?.map fun event =>
      ⟨event.document, Diagnostic.ofDocument
        ((lastWritten? event.document (events.take (i + 1))).getD (w.textOf event.document))⟩ := by
  induction events generalizing w i with
  | nil => rfl
  | cons event events ih =>
    cases i with
    | zero =>
      have htext := textOf_after w event event.document
      rw [run_cons, List.getElem?_cons_zero, List.getElem?_cons_zero, Option.map_some, publish,
        htext, List.take_succ_cons, List.take_zero, lastWritten?_cons]
      rfl
    | succ i =>
      rw [run_cons, List.getElem?_cons_succ, List.getElem?_cons_succ, ih]
      refine Option.map_congr fun other hother => ?_
      rw [List.take_succ_cons, lastWritten?_cons, ← textOf_after]

/-! ### One document among others

Events about other documents can be left out, as far as one document is concerned. The induction is
over the events, for any two sets of documents that hold the same text in that one place. -/

/-- **Documents do not affect each other.** The answers about a document are those to its own events
in a session that begins with the same text of it. -/
theorem filter_run (h : w.textOf document = w'.textOf document) (events : List Event) :
    (w.run events).filter (·.document = document) =
      w'.run (events.filter (·.document = document)) := by
  induction events generalizing w w' with
  | nil => rfl
  | cons event events ih =>
    rw [run_cons]
    by_cases hevent : event.document = document
    · have htext : (w.after event).textOf document = (w'.after event).textOf document := by
        rw [textOf_after, textOf_after, h]
      have hpublish : (w.after event).publish event.document =
          (w'.after event).publish event.document := by
        rw [publish, publish, hevent, htext]
      have hkept : decide (event.document = document) = true := decide_eq_true hevent
      rw [List.filter_cons, List.filter_cons, if_pos hkept,
        if_pos (show decide (((w.after event).publish event.document).document = document) = true
          from hkept), run_cons, hpublish, ih htext]
    · have htext : (w.after event).textOf document = w'.textOf document := by
        rw [textOf_after, Event.written?_eq_none hevent, ← h]
        rfl
      have hother : ¬ decide (event.document = document) = true := by simpa using hevent
      rw [List.filter_cons, List.filter_cons, if_neg hother,
        if_neg (show ¬ decide (((w.after event).publish event.document).document = document) = true
          from hother), ih htext]

/-- **What is shown of a document in the end.** The last answer about a document that was written or
looked at has the diagnostics of the text that it holds. -/
theorem getLast?_filter_run (w : Workspace) (h : ∃ event ∈ events, event.document = document) :
    ((w.run events).filter (·.document = document)).getLast? =
      some ⟨document, Diagnostic.ofDocument ((events.foldl after w).textOf document)⟩ := by
  obtain ⟨asked, hasked, hdocument⟩ := h
  have hmem : asked ∈ events.filter (·.document = document) :=
    List.mem_filter.mpr ⟨hasked, decide_eq_true hdocument⟩
  obtain hnil | ⟨init, last, hown⟩ :=
    List.eq_nil_or_concat (events.filter (·.document = document))
  · rw [hnil] at hmem
    cases hmem
  have hlast : last.document = document := by
    have hkept : last ∈ events.filter (·.document = document) := by
      rw [hown, List.concat_eq_append]
      exact List.mem_append_right _ List.mem_cons_self
    exact of_decide_eq_true (List.mem_filter.mp hkept).2
  have htext : ((init.foldl after w).after last).textOf document =
      (events.foldl after w).textOf document := by
    calc ((init.foldl after w).after last).textOf document
        = ((init ++ [last]).foldl after w).textOf document := by rw [List.foldl_append]; rfl
      _ = (events.foldl after w).textOf document := by
        rw [← List.concat_eq_append, ← hown, textOf_foldl_after, lastWritten?_filter,
          textOf_foldl_after]
  rw [filter_run rfl, hown, List.concat_eq_append, run_append, run_cons, run, List.getLast?_concat,
    publish, hlast, htext]

end Workspace

end Editor

end SchoolAlgebra
