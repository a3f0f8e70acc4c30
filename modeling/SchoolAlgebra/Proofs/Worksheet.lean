import Mathlib.Data.List.Basic
import SchoolAlgebra.Proofs.Expr.Derivation
import SchoolAlgebra.Proofs.Expr.FixedPoint
import SchoolAlgebra.Worksheet

/-!
# Working on an expression

A worksheet is used step by step, and what a step answers depends on the steps before. This module
says on how much of them it does.

Steps are of three kinds. A question leaves the expression. A building step puts the expression into
a larger one: it joins an operand, raises to a number or changes the sign. The third kind replaces
the expression with another one that is meant to be equal: its simplified form, or what its text is
read as.

## Simplifying in between

Whether one simplifies now, later or both should not matter for the simplified form in the end. It
does not, because a building step sees of its operand only the simplified form: two expressions with
the same simplified form are taken to two such expressions. That is the invariant of a run, and a
question or a simplification can then be dropped anywhere. Spans are left out of it. A simplified
operand may have taken the place of a sum that had no span of its own, and building steps hand on
the span that they find.

Reading the text again is left out as well, since not every text is read as the expression that it
was printed from. Where it is, the text stays the same.

## Main definitions

* `Worksheet.after` — the expression after some steps
* `Worksheet.Step.isQuestion`, `Worksheet.Step.builds` — steps that leave the expression, and steps
  that build on it

## Main results

* `Worksheet.fst_step_of_failure` — a step that cannot read a text leaves the expression
* `Worksheet.getElem?_run` — the answer to each step, whatever was asked before
* `Worksheet.simplify_after`, `Worksheet.snd_step_simplify_after` — questions and simplifications in
  between leave the simplified form and its text
* `Worksheet.exists_step_reparse` — reading the text again leaves the text
-/

namespace SchoolAlgebra

namespace Worksheet

/-- The expression after some steps. -/
def after (e : Expr) (steps : List Step) : Expr := steps.foldl (fun e s => (step e s).1) e

/-- Whether a step only asks something. -/
def Step.isQuestion : Step → Bool
  | .render | .outline | .evaluate | .predicates | .analyze | .over _ => true
  | .simplify | .reparse | .binary .. | .power _ | .neg => false

/-- Whether a step puts the expression into a larger one. -/
def Step.builds : Step → Bool
  | .binary .. | .power _ | .neg => true
  | .simplify | .reparse => false
  | .render | .outline | .evaluate | .predicates | .analyze | .over _ => false

variable {e e' : Expr} {s : Step} {steps : List Step} {text : String} {error : ParseError}

theorem after_cons (e : Expr) (s : Step) (steps : List Step) :
    after e (s :: steps) = after (step e s).1 steps := rfl

/-! ### Steps that leave the expression -/

/-- A question leaves the expression. -/
theorem fst_step_of_isQuestion (h : s.isQuestion = true) (e : Expr) : (step e s).1 = e := by
  match s, h with
  | .render, _ | .outline, _ | .evaluate, _ | .predicates, _ | .analyze, _ => rfl
  | .over denominator, _ =>
    simp only [step, reading]
    split <;> rfl

/-- A step that cannot read a text leaves the expression. -/
theorem fst_step_of_failure (h : (step e s).2 = .failure text error) : (step e s).1 = e := by
  have hreading {text' : String} {use : Expr → Expr × Answer}
      (huse : ∀ other, (use other).2 ≠ .failure text error)
      (h : (reading e text' use).2 = .failure text error) : (reading e text' use).1 = e := by
    rw [reading] at h ⊢
    split at h
    · exact absurd h (huse _)
    · rfl
  match s, h with
  | .render, _ | .outline, _ | .evaluate, _ | .predicates, _ | .analyze, _ => rfl
  | .reparse, h | .over _, h | .binary .., h => exact hreading (fun _ => nofun) h

/-! ### The answers -/

/-- What is asked leaves no trace in the expression. -/
theorem after_filter_isQuestion (e : Expr) (steps : List Step) :
    after e (steps.filter fun s => !s.isQuestion) = after e steps := by
  induction steps generalizing e with
  | nil => rfl
  | cons s steps ih =>
    by_cases h : s.isQuestion = true
    · rw [List.filter_cons_of_neg (by simp [h]), after_cons, fst_step_of_isQuestion h, ih]
    · rw [List.filter_cons_of_pos (by simpa using h), after_cons, after_cons, ih]

/-- **Each step has one answer**, about the expression as the steps before have left it, without the
questions among them. -/
theorem getElem?_run (e : Expr) (steps : List Step) (i : Nat) :
    (run e steps)[i]? = steps[i]?.map fun s =>
      (step (after e ((steps.take i).filter fun s => !s.isQuestion)) s).2 := by
  rw [after_filter_isQuestion]
  induction steps generalizing e i with
  | nil => rfl
  | cons s steps ih =>
    cases i with
    | zero => rfl
    | succ i => exact ih (step e s).1 i

/-! ### Simplifying in between

The simplified forms of two expressions are compared without their spans. -/

/-- **One step.** Expressions with the same simplified form are taken to such expressions. -/
theorem simplify_fst_step (h : e.simplify.bare = e'.simplify.bare) (hs : s ≠ .reparse) :
    (step e s).1.simplify.bare = (step e' s).1.simplify.bare := by
  have h : e.bare.simplify = e'.bare.simplify := by rw [Expr.simplify_bare, h, Expr.simplify_bare]
  simp only [← Expr.simplify_bare]
  match s with
  | .render | .outline | .evaluate | .predicates | .analyze => exact h
  | .over denominator =>
    rw [fst_step_of_isQuestion rfl, fst_step_of_isQuestion rfl]
    exact h
  | .reparse => exact absurd rfl hs
  | .simplify =>
    show e.simplify.bare.simplify = e'.simplify.bare.simplify
    rw [← Expr.simplify_bare, h, Expr.simplify_bare]
  | .neg =>
    show (Expr.neg e.bare none).simplify = (Expr.neg e'.bare none).simplify
    rw [Expr.simplify_neg, h, Expr.simplify_neg]
  | .power exponent =>
    show (Expr.power e.bare exponent none).simplify = (Expr.power e'.bare exponent none).simplify
    rw [Expr.simplify_power, h, Expr.simplify_power]
  | .binary op right =>
    simp only [step, reading]
    split
    · next other hother =>
      show (Expr.binary op e.bare other.bare none).simplify =
        (Expr.binary op e'.bare other.bare none).simplify
      rw [Expr.simplify_binary, h, Expr.simplify_binary]
    · exact h

/-- Simplifying leaves the simplified form. -/
theorem simplify_fst_step_of_not_builds (hs : s.builds = false) (hread : s ≠ .reparse) (e : Expr) :
    (step e s).1.simplify = e.simplify := by
  match s, hs with
  | .simplify, _ => exact e.simplify_simplify
  | .reparse, _ => exact absurd rfl hread
  | .render, _ | .outline, _ | .evaluate, _ | .predicates, _ | .analyze, _ => rfl
  | .over denominator, _ => rw [fst_step_of_isQuestion rfl]

/-- **Some steps.** The simplified form in the end depends on the building steps alone. -/
theorem simplify_after (h : e.simplify.bare = e'.simplify.bare) (hread : .reparse ∉ steps) :
    (after e steps).simplify.bare = (after e' (steps.filter Step.builds)).simplify.bare := by
  induction steps generalizing e e' with
  | nil => exact h
  | cons s steps ih =>
    obtain ⟨hs, hsteps⟩ := List.ne_and_not_mem_of_not_mem_cons hread
    by_cases hbuilds : s.builds = true
    · rw [List.filter_cons_of_pos hbuilds, after_cons, after_cons]
      exact ih (simplify_fst_step h (Ne.symm hs)) hsteps
    · have hfst := simplify_fst_step_of_not_builds (Bool.eq_false_iff.mpr hbuilds) (Ne.symm hs) e
      rw [List.filter_cons_of_neg hbuilds, after_cons]
      exact ih (by rw [hfst, h]) hsteps

/-- **The simplified text in the end** is the same without what was asked and simplified in
between. -/
theorem snd_step_simplify_after (e : Expr) (hread : .reparse ∉ steps) :
    (step (after e steps) .simplify).2 =
      (step (after e (steps.filter Step.builds)) .simplify).2 := by
  have hbare := simplify_after (rfl : e.simplify.bare = e.simplify.bare) hread
  show Answer.text _ = Answer.text _
  rw [← Expr.render_bare, hbare, Expr.render_bare]

/-! ### Reading the text again

What is printed can be read if the names in it are names of the language. Names come in by reading
alone, and so every expression that is worked on has such names, if the first one was read. -/

/-- **One step** keeps names readable. -/
theorem lexical_fst_step (h : e.Lexical) (s : Step) : (step e s).1.Lexical := by
  have hreading {text : String} {use : Expr → Expr × Answer}
      (huse : ∀ other, other.Lexical → (use other).1.Lexical) :
      (reading e text use).1.Lexical := by
    rw [reading]
    split
    · next other hother => exact huse other (Expr.lexical_of_parse hother)
    · exact h
  match s with
  | .render | .outline | .evaluate | .predicates | .analyze | .neg | .power _ => exact h
  | .simplify => exact h.simplify
  | .reparse => exact hreading fun other hother => hother
  | .over denominator => exact hreading fun other hother => h
  | .binary op right => exact hreading fun other hother => ⟨h, hother⟩

/-- **Some steps** keep names readable. -/
theorem lexical_after (h : e.Lexical) (steps : List Step) : (after e steps).Lexical := by
  induction steps generalizing e with
  | nil => exact h
  | cons s steps ih => exact ih (lexical_fst_step h s)

/-- **Reading the text again leaves the text**, at any point of the work on what was read from a
source, provided that the expression reads back. -/
theorem exists_step_reparse {source : String} (hparse : Expr.parse source = .ok e)
    (hback : (after e steps).ReadsBack) :
    ∃ other, step (after e steps) .reparse = (other, .text (after e steps).render) ∧
      other.render = (after e steps).render := by
  have hlexical := lexical_after (Expr.lexical_of_parse hparse) steps
  obtain ⟨other, hother, htree⟩ := Expr.exists_parse_render hlexical hback
  refine ⟨other, ?_, ?_⟩
  · simp only [step, reading, hother]
  · rw [← Expr.render_bare, htree, Expr.render_reread]

end Worksheet

end SchoolAlgebra
