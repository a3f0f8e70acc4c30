import SchoolAlgebra.Proofs.Editor.Finding
import SchoolAlgebra.Proofs.Hint.Highlights
import SchoolAlgebra.Proofs.Text.Utf16

/-!
# What the diagnostics of a line select

An editor knows a line as UTF-16 units, and takes from it what stands between two offsets. What it
takes for a diagnostic are the units of the text that a hint is about, whatever characters stand
before it. An error is one unit wide also where there is nothing left to select.

## What a hint is shown by

`Editor.Diagnostic.Shows` says for each kind of hint by which diagnostics it is shown: like terms by
one for each term, a fraction by a single one from the beginning of its numerator to the end of its
denominator. No diagnostic shows a common factor, for it is about two expressions and a line is one.
That none is found in a line is part of what is proved.

Two fractions may overlap, and a fraction may be one of two like terms. Only the terms are kept
apart, and so the report on a line is stated for two lists, of which the first one shows the like
terms.

## Main definitions

* `Editor.Diagnostic.Selects` — a diagnostic selects the text of a span
* `Editor.Diagnostic.Shows` — some diagnostics show a hint
* `Editor.IsErrorReport`, `Editor.IsHintReport` — the diagnostics of a line that is not an
  expression, and of one that is

## Main results

* `Editor.shows_ofHint` — a hint is shown by its diagnostics
* `Editor.isLineReport_ofLine` — the diagnostics of a line
-/

namespace SchoolAlgebra

namespace Editor

/-! ### What is reported of a line -/

/-- A diagnostic selects the text of a span in a line, with a message for information. -/
structure Diagnostic.Selects (line : Nat) (text : String) (a : Span) (message : String)
    (d : Diagnostic) : Prop where
  /-- It begins in the line. -/
  line_start : d.start.line = line
  /-- It ends in the line. -/
  line_stop : d.stop.line = line
  /-- Between its ends stand the units of the text of the span. -/
  units : ((Text.utf16 text.toList).take d.stop.character).drop d.start.character =
    Text.utf16 (a.excerpt text).toList
  /-- It has the message. -/
  message : d.message = message
  /-- It is information. -/
  severity : d.severity = .information

/-- Some diagnostics show a hint: one for each of the like terms, in their order, or one for a
fraction as a whole. -/
inductive Diagnostic.Shows (line : Nat) (text : String) : Hint → List Diagnostic → Prop
  /-- Like terms are shown one by one. -/
  | likeTerms {name? : Option String} {exponent : Binary64} {terms : List Span}
      {diagnostics : List Diagnostic}
      (h : List.Forall₂ (fun a d =>
        Selects line text a (Hint.likeTerms name? exponent terms).describe d) terms diagnostics) :
      Shows line text (.likeTerms name? exponent terms) diagnostics
  /-- A fraction is shown from the beginning of its numerator to the end of its denominator. -/
  | fraction {divisor : Int} {above below : Span} {d : Diagnostic}
      (h : Selects line text ⟨above.start, below.stop⟩
        (Hint.reducibleFraction divisor above below).describe d) :
      Shows line text (.reducibleFraction divisor above below) [d]

/-- What is reported of a line that is not an expression: the error alone, behind the units before
it and one unit wide. -/
def IsErrorReport (line : Nat) (text : String) (error : ParseError)
    (diagnostics : List Diagnostic) : Prop :=
  ∃ before behind, text.toList = before ++ behind ∧ before.length = error.position ∧
    diagnostics = [⟨⟨line, (Text.utf16 before).length⟩, ⟨line, (Text.utf16 before).length + 1⟩,
      error.message, .error⟩]

/-- What is reported of a line that is an expression: the diagnostics that show its like terms, and
those that show the others of its hints. -/
structure IsHintReport (line : Nat) (text : String) (e : Expr)
    (ofTerms others : List (List Diagnostic)) : Prop where
  /-- Every hint is shown, in their order. -/
  entries : List.Forall₂ (Diagnostic.Shows line text) (Hint.ofExpr e) (ofTerms ++ others)
  /-- The like terms are shown by the first ones. -/
  terms : List.Forall₂ (Diagnostic.Shows line text) (Hint.likeTermGroups e) ofTerms
  /-- No two of these have a unit in common. -/
  apart : ofTerms.flatten.Pairwise fun d d' =>
    d.stop.character ≤ d'.start.character ∨ d'.stop.character ≤ d.start.character

/-- What is reported of a line, whatever it holds. -/
def IsLineReport (line : Nat) (text : String) (diagnostics : List Diagnostic) : Prop :=
  match Expr.parse text with
  | .error error => IsErrorReport line text error diagnostics
  | .ok e => ∃ ofTerms others, IsHintReport line text e ofTerms others ∧
      diagnostics = (ofTerms ++ others).flatten

variable {text : String} {e : Expr} {h : Hint} {a b : Span} {message : String}

/-! ### The diagnostics of a hint

A hint is shown by the spans it hands out for a line, each turned into a pair of offsets in units.
That what stands between these is the text of the span holds for any span and any text. -/

/-- A diagnostic selects the span that it was made for. -/
theorem selects_atSpan (hstart : a.start ≤ text.length) (hstop : a.stop ≤ text.length)
    (line : Nat) (message : String) :
    Diagnostic.Selects line text a message
      (Diagnostic.atSpan line text a message .information) where
  line_start := rfl
  line_stop := rfl
  units := Text.utf16_excerpt hstart hstop
  message := rfl
  severity := rfl

/-- **A hint is shown by its diagnostics.** -/
theorem shows_ofHint (hparse : Expr.parse text = .ok e) (hh : h ∈ Hint.ofExpr e) (line : Nat) :
    Diagnostic.Shows line text h (Diagnostic.ofHint line text h) := by
  cases h with
  | commonFactor factor above below =>
    exact (Hint.commonFactor_notMem_ofExpr factor above below hh).elim
  | likeTerms name? exponent terms =>
    refine .likeTerms (List.forall₂_map_right_iff.mpr (List.forall₂_same.mpr fun a ha => ?_))
    obtain ⟨hstart, hstop⟩ := Hint.le_of_mem_lineSpans hparse hh ha
    exact selects_atSpan hstart hstop line _
  | reducibleFraction divisor above below =>
    obtain ⟨hstart, hstop⟩ := Hint.le_of_mem_lineSpans hparse hh (List.mem_singleton_self _)
    exact .fraction (selects_atSpan hstart hstop line _)

theorem forall₂_shows_ofHint {hints : List Hint} (hparse : Expr.parse text = .ok e)
    (hhints : hints ⊆ Hint.ofExpr e) (line : Nat) :
    List.Forall₂ (Diagnostic.Shows line text) hints
      (hints.map (Diagnostic.ofHint line text)) :=
  List.forall₂_map_right_iff.mpr
    (List.forall₂_same.mpr fun _ hh => shows_ofHint hparse (hhints hh) line)

/-- The diagnostics of hints whose spans stand apart have no unit in common. -/
theorem pairwise_flatMap_ofHint {hints : List Hint}
    (hapart : (hints.flatMap Hint.lineSpans).Pairwise fun a b =>
      a.stop ≤ b.start ∨ b.stop ≤ a.start) (line : Nat) (text : String) :
    (hints.flatMap (Diagnostic.ofHint line text)).Pairwise fun d d' =>
      d.stop.character ≤ d'.start.character ∨ d'.stop.character ≤ d.start.character := by
  have hunits {a b : Span} (h : a.stop ≤ b.start ∨ b.stop ≤ a.start) :
      Text.unitOffset text a.stop ≤ Text.unitOffset text b.start ∨
        Text.unitOffset text b.stop ≤ Text.unitOffset text a.start := by
    have hmono := (Text.unitOffset_strictMono text).monotone
    exact h.imp (fun hle => hmono hle) fun hle => hmono hle
  obtain ⟨hone, htwo⟩ := List.pairwise_flatMap.mp hapart
  refine List.pairwise_flatMap.mpr ⟨fun h hh => ?_, htwo.imp fun hspans d hd d' hd' => ?_⟩
  · exact List.pairwise_map.mpr ((hone h hh).imp hunits)
  · obtain ⟨a, ha, rfl⟩ := List.mem_map.mp hd
    obtain ⟨b, hb, rfl⟩ := List.mem_map.mp hd'
    exact hunits (hspans a ha b hb)

/-! ### The diagnostics of a line -/

theorem isErrorReport_ofError {error : ParseError} (hparse : Expr.parse text = .error error)
    (line : Nat) : IsErrorReport line text error [Diagnostic.ofError line text error] := by
  have hle := Expr.position_le_of_parse_eq_error hparse
  have hstart : Text.unitOffset text error.position =
      (Text.utf16 (text.toList.take error.position)).length :=
    (Text.unitOffset_eq_units hle).trans (Text.length_utf16 _).symm
  have hstop := unitOffset_succ (Expr.charUnits_of_parse_eq_error hparse)
  refine ⟨text.toList.take error.position, text.toList.drop error.position,
    (List.take_append_drop ..).symm, ?_, ?_⟩
  · rw [List.length_take, String.length_toList, Nat.min_eq_left hle]
  · rw [Diagnostic.ofError, Diagnostic.atSpan, hstop, hstart]

theorem isHintReport_ofHint (hparse : Expr.parse text = .ok e) (line : Nat) :
    IsHintReport line text e ((Hint.likeTermGroups e).map (Diagnostic.ofHint line text))
      ((Hint.reducibleFractions e).map (Diagnostic.ofHint line text)) where
  entries := by
    rw [← List.map_append]
    exact forall₂_shows_ofHint hparse (List.Subset.refl _) line
  terms := forall₂_shows_ofHint hparse (List.subset_append_left _ _) line
  apart := by
    have hplaced := Expr.placed_of_mem_nodes_parse hparse
    rw [← List.flatMap_def]
    exact pairwise_flatMap_ofHint
      (Hint.isTermPartition_of_termsApart (Expr.termsApart hplaced)).apart line text

/-- **The diagnostics of a line.** A line that is not an expression has one, an error that begins
behind the units before the first error and is one unit wide. A line that is one has only
information: for each of the like terms, and then for each fraction, in the order of the hints, a
diagnostic that selects the units of its text. No unit is selected for two like terms. -/
theorem isLineReport_ofLine (line : Nat) (text : String) :
    IsLineReport line text (Diagnostic.ofLine line text) := by
  unfold IsLineReport Diagnostic.ofLine
  cases hparse : Expr.parse text with
  | error error => exact isErrorReport_ofError hparse line
  | ok e =>
    refine ⟨_, _, isHintReport_ofHint hparse line, ?_⟩
    rw [← List.map_append, ← List.flatMap_def]
    rfl

/-- Behind a character of two units an error at the end of a line begins one unit further, and a
fraction is selected as a whole. -/
theorem isLineReport_ofLine_wideCharacter :
    (IsLineReport 0 "𝒳1+" (Diagnostic.ofLine 0 "𝒳1+") ∧
      (Diagnostic.ofLine 0 "𝒳1+").map (fun d => (d.start.character, d.stop.character)) =
        [(4, 5)]) ∧
    IsLineReport 0 "𝒳6/4" (Diagnostic.ofLine 0 "𝒳6/4") ∧
      (Diagnostic.ofLine 0 "𝒳6/4").map (fun d => (d.start.character, d.stop.character)) =
        [(2, 5)] :=
  ⟨⟨isLineReport_ofLine 0 "𝒳1+", by decide +kernel⟩, isLineReport_ofLine 0 "𝒳6/4",
    by decide +kernel⟩

end Editor

end SchoolAlgebra
