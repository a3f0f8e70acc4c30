import Mathlib.Control.Monad.Basic
import SchoolAlgebra.Cli.Report
import SchoolAlgebra.Proofs.Hint.Places

/-!
# The excerpts of a fraction's hints

The hints on a fraction stand in two texts, and the lines that are printed cut their excerpts out of
one or the other. A common factor has excerpts of both. The hints on the numerator alone are cut out
of the numerator, as they should. Those on the denominator alone stand in the denominator and are
cut out of the numerator as well, so that their lines show whatever the numerator has at that place.

## When a line is right

A line shows its excerpts in a row, with commas or a slash between them, and these may stand in the
excerpts too. So two lines could in principle be equal although their excerpts are not. They cannot
here: an excerpt of the denominator is as long as its span, for the span lies in the denominator,
and what is cut out of any other text is at most as long. Two rows of the same length are then cut
in the same places, which is `Cli.intercalate_excerpt_eq_iff`.

## Main definitions

* `Hint.spans` — the spans of a hint
* `Cli.fractionLines` — the lines of the hints on a fraction, given the text of which those on the
  denominator alone are cut out

## Main results

* `Cli.fractionLines_eq_iff` — lines are right exactly if their excerpts are
* `Cli.report_analyze_over` — what is printed for a fraction, and when it is right
* `Cli.not_forall_report_analyze_over` — it is not always right
-/

namespace SchoolAlgebra

/-! ### Excerpts in a row

What lies past the end of a text is left out of an excerpt, so an excerpt can be shorter than its
span but never longer. -/

namespace Span

theorem length_excerpt {a : Span} {source : String} (h : a.stop ≤ source.length) :
    (a.excerpt source).length = a.stop - a.start := by
  rw [excerpt, String.length_ofList, List.length_drop, List.length_take, String.length_toList,
    Nat.min_eq_left h]

/-- An excerpt is the longest in a text in which its span lies. -/
theorem length_excerpt_le {a : Span} {other : String} (h : a.stop ≤ other.length)
    (source : String) : (a.excerpt source).length ≤ (a.excerpt other).length := by
  rw [length_excerpt h, excerpt, String.length_ofList, List.length_drop]
  exact Nat.sub_le_sub_right (List.length_take_le ..) _

end Span

namespace Hint

/-- The spans of a hint. -/
def spans : Hint → List Span
  | .commonFactor _ numerator denominator => numerator ++ denominator
  | .likeTerms _ _ terms => terms
  | .reducibleFraction _ numerator denominator => [numerator, denominator]

/-- The spans of a hint on one expression are places of its nodes. -/
theorem spans_subset_places {e : Expr} {h : Hint} (hh : h ∈ ofExpr e) : h.spans ⊆ e.places := by
  have hstands : h.StandsIn e e := standsIn_of_mem_ofExpr hh
  cases h with
  | commonFactor => exact List.append_subset.mpr hstands
  | likeTerms => exact hstands
  | reducibleFraction =>
    exact List.cons_subset.mpr ⟨hstands.1, List.cons_subset.mpr ⟨hstands.2, List.nil_subset _⟩⟩

end Hint

namespace Cli

open Hint

variable {source denominatorSource separator : String} {spans : List Span}

/-- A row of excerpts is no longer than one of a text in which their spans lie. -/
theorem length_intercalate_excerpt_le (h : ∀ a ∈ spans, a.stop ≤ denominatorSource.length)
    (separator source : String) :
    (separator.intercalate (spans.map (·.excerpt source))).length ≤
      (separator.intercalate (spans.map (·.excerpt denominatorSource))).length := by
  induction spans with
  | nil => exact Nat.le_refl _
  | cons a spans ih =>
    obtain ⟨ha, hspans⟩ := List.forall_mem_cons.mp h
    have hfirst := Span.length_excerpt_le ha source
    cases spans with
    | nil => exact hfirst
    | cons b spans =>
      have hrest := ih hspans
      simp only [List.map_cons, String.intercalate_cons_cons, String.length_append] at hrest ⊢
      omega

/-- **Two rows of excerpts are equal exactly if their excerpts are**, when the spans lie in one of
the two texts. -/
theorem intercalate_excerpt_eq_iff (h : ∀ a ∈ spans, a.stop ≤ denominatorSource.length) :
    separator.intercalate (spans.map (·.excerpt source)) =
        separator.intercalate (spans.map (·.excerpt denominatorSource)) ↔
      ∀ a ∈ spans, a.excerpt source = a.excerpt denominatorSource := by
  refine ⟨fun heq => ?_, fun hall => congrArg _ (List.map_congr_left hall)⟩
  induction spans with
  | nil => nofun
  | cons a spans ih =>
    obtain ⟨ha, hspans⟩ := List.forall_mem_cons.mp h
    cases spans with
    | nil => exact List.forall_mem_singleton.mpr heq
    | cons b spans =>
      have hfirst := Span.length_excerpt_le ha source
      have hrest := length_intercalate_excerpt_le hspans separator source
      simp only [List.map_cons, String.intercalate_cons_cons, String.append_assoc] at heq hrest
      -- neither of the two parts can be shorter than the other row's, since the sums are equal
      have hlength : (a.excerpt source).length = (a.excerpt denominatorSource).length := by
        have hsum := congrArg String.length heq
        simp only [String.length_append] at hsum
        omega
      obtain ⟨hexcerpt, hrow⟩ := List.append_inj
        (by rw [← String.toList_append, ← String.toList_append, heq]) hlength
      refine List.forall_mem_cons.mpr ⟨String.toList_inj.mp hexcerpt, ih hspans ?_⟩
      exact (String.append_right_inj _).mp (String.toList_inj.mp hrow)

/-- The line of a hint on an expression is the same from another text exactly if all its excerpts
are. -/
theorem hintLine_eq_iff {e : Expr} {h : Hint} (hh : h ∈ ofExpr e)
    (hspans : ∀ a ∈ h.spans, a.stop ≤ denominatorSource.length) :
    hintLine source source h = hintLine denominatorSource denominatorSource h ↔
      ∀ a ∈ h.spans, a.excerpt source = a.excerpt denominatorSource := by
  cases h with
  | commonFactor factor above below => exact (commonFactor_notMem_ofExpr factor above below hh).elim
  | likeTerms name? exponent terms =>
    rw [hintLine, hintLine, String.append_right_inj]
    exact intercalate_excerpt_eq_iff hspans
  | reducibleFraction factor above below =>
    rw [hintLine, hintLine, String.append_right_inj]
    have hrow (text : String) : "/".intercalate ([above, below].map (·.excerpt text)) =
        above.excerpt text ++ "/" ++ below.excerpt text := by
      rw [List.map_cons, List.map_singleton, String.intercalate_cons_cons,
        String.intercalate_singleton]
    rw [← hrow, ← hrow]
    exact intercalate_excerpt_eq_iff hspans

/-! ### The lines of a fraction

All hints but common factors have excerpts of one text only, so the lines are three lists, and only
the last one depends on the text that is chosen for the denominator's own hints. -/

/-- The text of lines of hints. -/
def linesText (lines : List String) : String :=
  if lines.isEmpty then "no simplification opportunities" else "\n".intercalate lines

/-- The lines of the hints on a fraction: those of common factors with excerpts of either side, then
those on the numerator with excerpts of the numerator, then those on the denominator with excerpts
of a text that is still to be given. -/
def fractionLines (source denominatorSource : String) (numerator denominator : Expr)
    (own : String) : List String :=
  (commonFactors numerator denominator).map (hintLine source denominatorSource) ++
    (ofExpr numerator).map (hintLine source source) ++ (ofExpr denominator).map (hintLine own own)

variable {e : Expr} {h : Hint}

/-- The line of a hint on one expression has no excerpt of a denominator. -/
theorem hintLine_of_mem_ofExpr (hh : h ∈ ofExpr e) (source denominatorSource : String) :
    hintLine source denominatorSource h = hintLine source source h := by
  cases h with
  | commonFactor factor above below => exact (commonFactor_notMem_ofExpr factor above below hh).elim
  | likeTerms | reducibleFraction => rfl

theorem map_hintLine_ofFraction (source denominatorSource : String)
    (numerator denominator : Expr) :
    (ofFraction numerator denominator).map (hintLine source denominatorSource) =
      fractionLines source denominatorSource numerator denominator source := by
  have hlines (e : Expr) : (ofExpr e).map (hintLine source denominatorSource) =
      (ofExpr e).map (hintLine source source) :=
    List.map_congr_left fun h hh => hintLine_of_mem_ofExpr hh source denominatorSource
  rw [ofFraction, List.map_append, List.map_append, hlines, hlines, fractionLines]

theorem hintsReport_over (source denominatorSource : String) (numerator denominator : Expr) :
    hintsReport source numerator (some ⟨denominatorSource, denominator⟩) false =
      linesText (fractionLines source denominatorSource numerator denominator source) := by
  rw [← map_hintLine_ofFraction, linesText, List.isEmpty_map]
  rfl

/-- **The lines are right** exactly if the hints on the denominator have the same excerpts in both
texts. -/
theorem fractionLines_eq_iff (source : String) {denominatorSource : String} (numerator : Expr)
    {denominator : Expr} (hparse : Expr.parse denominatorSource = .ok denominator) :
    fractionLines source denominatorSource numerator denominator source =
        fractionLines source denominatorSource numerator denominator denominatorSource ↔
      ∀ h ∈ ofExpr denominator, ∀ a ∈ h.spans,
        a.excerpt source = a.excerpt denominatorSource := by
  rw [fractionLines, fractionLines, List.append_cancel_left_eq, List.map_inj_left]
  refine forall₂_congr fun h hh => hintLine_eq_iff hh fun a ha => ?_
  exact (Expr.lt_of_mem_places hparse (spans_subset_places hh ha)).2

/-- **What is printed for a fraction.** There is a line for every hint, in the order of the hints.
Each hint stands where it was found: common factors in both sides, all others in the side they are
about. The excerpts are cut out of these texts but for those of the hints on the denominator alone,
which are cut out of the numerator's. So the lines are right exactly if each span of these hints has
the same excerpt in either text. -/
theorem report_analyze_over (source denominatorSource : String) (numerator denominator : Expr)
    (debug : Bool) (hparse : Expr.parse source = .ok numerator) :
    (report ⟨.analyze, false, debug⟩ (some ⟨denominatorSource, denominator⟩) source =
        .ok ⟨linesText (fractionLines source denominatorSource numerator denominator source),
          if debug then numerator.outline else ""⟩ ∧
      (fractionLines source denominatorSource numerator denominator source).length =
        (ofFraction numerator denominator).length) ∧
    ((∀ h ∈ commonFactors numerator denominator, h.StandsIn numerator denominator) ∧
      (∀ h ∈ ofExpr numerator, h.StandsIn numerator numerator) ∧
      (∀ h ∈ ofExpr denominator, h.StandsIn denominator denominator)) ∧
    (Expr.parse denominatorSource = .ok denominator →
      (fractionLines source denominatorSource numerator denominator source =
          fractionLines source denominatorSource numerator denominator denominatorSource ↔
        ∀ h ∈ ofExpr denominator, ∀ a ∈ h.spans,
          a.excerpt source = a.excerpt denominatorSource)) := by
  refine ⟨⟨?_, ?_⟩, ⟨?_, ?_, ?_⟩, fractionLines_eq_iff source numerator⟩
  · rw [← hintsReport_over]
    simp only [report, hparse]
    rfl
  · rw [← map_hintLine_ofFraction, List.length_map]
  · intro h hh
    exact standsIn_of_mem_commonFactors hh
  · intro h hh
    exact standsIn_of_mem_ofExpr hh
  · intro h hh
    exact standsIn_of_mem_ofExpr hh

/-- The sum of `x+y`. -/
def plainSum : Expr :=
  .binary .add (.var "x" .one (some ⟨0, 1⟩)) (.var "y" .one (some ⟨2, 3⟩)) (some ⟨0, 3⟩)

/-- The sum of `2x+2x`. -/
def doubledSum : Expr :=
  .binary .add
    (.binary .multiply (.num .two (some ⟨0, 1⟩)) (.var "x" .one (some ⟨1, 2⟩)) (some ⟨0, 2⟩))
    (.binary .multiply (.num .two (some ⟨3, 4⟩)) (.var "x" .one (some ⟨4, 5⟩)) (some ⟨3, 5⟩))
    (some ⟨0, 5⟩)

/-- Over `2x+2x`, the sum `x+y` is cut instead of the denominator. -/
theorem report_analyze_over_doubledSum :
    Expr.parse "x+y" = .ok plainSum ∧ Expr.parse "2x+2x" = .ok doubledSum ∧
      report ⟨.analyze, false, false⟩ (some ⟨"2x+2x", doubledSum⟩) "x+y" =
        .ok ⟨"like terms in x can be combined: x+, ", ""⟩ ∧
      fractionLines "x+y" "2x+2x" plainSum doubledSum "2x+2x" =
        ["like terms in x can be combined: 2x, 2x"] ∧
      ¬ ∀ h ∈ ofExpr doubledSum, ∀ a ∈ h.spans, a.excerpt "x+y" = a.excerpt "2x+2x" := by
  have hparse : Expr.parse "x+y" = .ok plainSum := by decide +kernel
  have hover : Expr.parse "2x+2x" = .ok doubledSum := by decide +kernel
  have hprinted : fractionLines "x+y" "2x+2x" plainSum doubledSum "x+y" =
      ["like terms in x can be combined: x+, "] := by decide +kernel
  have hright : fractionLines "x+y" "2x+2x" plainSum doubledSum "2x+2x" =
      ["like terms in x can be combined: 2x, 2x"] := by decide +kernel
  obtain ⟨⟨hreport, -⟩, -, hiff⟩ :=
    report_analyze_over "x+y" "2x+2x" plainSum doubledSum false hparse
  refine ⟨hparse, hover, ?_, hright, fun hall => ?_⟩
  · rw [hreport, hprinted]
    rfl
  · have hlines := (hiff hover).mpr hall
    rw [hprinted, hright] at hlines
    revert hlines
    decide

/-- It is not so that every excerpt comes from the text in which the hint was found. -/
theorem not_forall_report_analyze_over :
    ¬ ∀ (source denominatorSource : String) (numerator denominator : Expr),
      Expr.parse source = .ok numerator → Expr.parse denominatorSource = .ok denominator →
        report ⟨.analyze, false, false⟩ (some ⟨denominatorSource, denominator⟩) source =
          .ok ⟨linesText (fractionLines source denominatorSource numerator denominator
            denominatorSource), ""⟩ := by
  intro hall
  have hreport := hall "x+y" "2x+2x" plainSum doubledSum (by decide +kernel) (by decide +kernel)
  revert hreport
  decide +kernel

end Cli

end SchoolAlgebra
