import Mathlib
import SchoolAlgebra.Cli.Report
import SchoolAlgebra.Proofs.Expr.FixedPoint
import SchoolAlgebra.Proofs.Expr.Misreading
import SchoolAlgebra.Proofs.Expr.ValueText

/-!
# Reports on values

A value is reported by its exact text, and this text has to be an expression again if a report is to
be worked with. It is one if the exact text is a numeral, after a sign if there is one: then it is
worth the value, and reporting on it repeats it.

The exact text of a number that is not integral and below one ten-thousandth has an exponent part,
which numerals of the language do not have. It is read as a product with a variable `e`, less a
number. That has no value, and is reported with a multiplication sign in it, which no number has.

## Three conditions that are one

The theorem names three things that could be asked of a report on a value: that it has a value, that
this is the value, and that reporting on it gives it again. They hold together or not at all. Where
there is an exponent part, the first one fails already, since the variable has no value; and the
third one fails because there is a multiplication to be printed.

## Main results

* `Expr.exists_parse_exactText_of_not_plain` — what an exponent part is read as
* `Cli.report_value_iff_plain` — the values whose report can be read back
* `Cli.not_forall_valueOfSource?_report` — not all can
-/

namespace SchoolAlgebra

open Phrase

namespace Expr

variable {x : Number} {mantissa exponent : Numeral}

/-! ### Exponent parts

The text of such a number is known token by token. It is enough to give a derivation of these tokens
that is maximal at their end: parsing finds this derivation and no other. -/

/-- The derivation of a numeral with an exponent part: a multiple of `e`, less the exponent. -/
def exponentPart (x : Number) (mantissa exponent : Numeral) : Sum :=
  (Sum.mk ((signedNumeral x mantissa).asTerm.join .multiply (by decide)
      (.mk (.power (.plain (.name "e"))) .done)) .done).join .subtract (by decide)
    (.mk (.mk (.power (.plain (.number (String.ofList exponent.text) exponent.decimal.toBinary64)))
      .done) .done)

theorem lexemes_exponentPart : (exponentPart x mantissa exponent).lexemes =
    signLexemes x.isBelowZero ++ [mantissa.lexeme, .operator .multiply, .name "e",
      .operator .subtract, exponent.lexeme] := by
  have hsum : (signedNumeral x mantissa).isSum = false := (Printed.isFactor_signed ..).2
  have hmantissa : (signedNumeral x mantissa).asTerm.lexemes =
      signLexemes x.isBelowZero ++ [mantissa.lexeme] := by
    rw [Printed.lexemes_asTerm, hsum, signedNumeral, Printed.lexemes_signed]
    rfl
  simp [exponentPart, Sum.lexemes_join, Sum.lexemes, SumRest.lexemes, Term.lexemes_join,
    Term.lexemes, TermRest.lexemes, Factor.lexemes, Power.lexemes, Atom.lexemes, hmantissa,
    Numeral.lexeme]

theorem maximal_exponentPart (next : Lexeme) :
    (exponentPart x mantissa exponent).Maximal next := by
  have hclosed : (signedNumeral x mantissa).Closed := Printed.closed_signed _ trivial
  refine Sum.Maximal.join ⟨Term.Maximal.join (hclosed.asTerm _) ?_, trivial⟩ ?_
  · exact ⟨trivial, trivial⟩
  · exact ⟨⟨trivial, trivial⟩, trivial⟩

theorem tree_exponentPart : (exponentPart x mantissa exponent).tree =
    .binary .subtract
      (.binary .multiply (signedNumeral x mantissa).asSum.tree (.var "e" .one none) none)
      (.num exponent.decimal.toBinary64 none) none := by
  rw [exponentPart, Sum.tree_join_mk_done, Sum.tree, SumRest.treeAfter, Term.tree_join_mk_done,
    Printed.tree_asTerm]
  rfl

/-- A number with an exponent part is read as an expression without a value, which has a
multiplication. -/
theorem exists_parse_exactText_of_not_plain (h : ¬ (Binary64.finite x).Plain) :
    ∃ e, parse (Binary64.finite x).exactText = .ok e ∧ e.value? = none ∧ e.products = 1 := by
  obtain ⟨mantissa, exponent, hscans⟩ := x.exists_scansAs_exactText_of_tiny h
  rw [← lexemes_exponentPart] at hscans
  obtain ⟨e, he, htree⟩ := Sum.exists_parse hscans.scan_eq (maximal_exponentPart _)
  rw [tree_exponentPart] at htree
  refine ⟨e, he, ?_, ?_⟩
  · rw [← value?_bare, htree]
    simp
  · have hmantissa : (signedNumeral x mantissa).asSum.tree.products = 0 := by
      rw [signedNumeral, Printed.tree_signed]
      split <;> rfl
    rw [← products_bare, htree]
    simp [products, hmantissa]

/-- Such an expression is not printed as a number. -/
theorem render_ne_exactText {source : String} {e : Expr} (he : parse source = .ok e)
    (hproducts : e.products = 1) (v : Binary64) : e.render ≠ v.exactText := by
  intro htext
  have hcount := (lexical_of_parse he).count_times_render
  rw [htext, List.count_eq_zero_of_not_mem (timesFree_exactText v), hproducts] at hcount
  cases hcount

end Expr

/-! ### Reports -/

namespace Cli

variable {source : String} {e : Expr} {v : Number}

theorem report_evaluate_of_parse (h : Expr.parse source = .ok e) (debug : Bool)
    (denominator? : Option Denominator) :
    report ⟨.evaluate, false, debug⟩ denominator? source =
      .ok ⟨valueReport source e false, if debug then e.outline else ""⟩ := by
  simp only [report, h]
  rfl

theorem valueReport_of_value?_eq_some (source : String) (h : e.value? = some v) :
    valueReport source e false = (Binary64.finite v).exactText := by
  simp [valueReport, h]

theorem valueReport_of_value?_eq_none (source : String) (h : e.value? = none) :
    valueReport source e false = e.render := by
  simp [valueReport, h]

/-- The report on a source that has a value is the exact text of the value. -/
theorem exists_report_of_valueOfSource? (h : Expr.valueOfSource? source = some v) (debug : Bool)
    (denominator? : Option Denominator) :
    ∃ rep, report ⟨.evaluate, false, debug⟩ denominator? source = .ok rep ∧
      rep.output = (Binary64.finite v).exactText := by
  obtain ⟨e, he, hv⟩ := Expr.valueOfSource?_eq_some_iff.mp h
  exact ⟨_, report_evaluate_of_parse he debug denominator?, valueReport_of_value?_eq_some source hv⟩

/-- The exact text of a plain number is worth the number. -/
theorem exists_valueOfSource?_exactText (h : (Binary64.finite v).Plain) :
    ∃ w, Expr.valueOfSource? (Binary64.finite v).exactText = some w ∧ w.SameValue v :=
  ⟨_, Expr.valueOfSource?_of_scansAs (scansAs_exactText_of_plain h) v.toBinary64_exactNumeral,
    v.sameValue_signedAs⟩

/-- The sign of a zero is not reported. -/
theorem exactText_congr {w : Number} (h : w.SameValue v) :
    (Binary64.finite w).exactText = (Binary64.finite v).exactText := by
  rcases h with rfl | ⟨hw, hv⟩
  · rfl
  · rw [← Expr.exactText_unsignZero, ← Expr.exactText_unsignZero (.finite v)]
    simp [Binary64.unsignZero, hw, hv]

/-- **The values whose report can be read back.** The report on a source that has a value is a text
that has a value itself exactly if the value of the source is integral or at least one
ten-thousandth in magnitude. Then the two values are the same, but for the sign of a zero. Exactly
then, too, a report on the report repeats it. -/
theorem report_value_iff_plain (source : String) (v : Number) (debug : Bool)
    (denominator? : Option Denominator) (h : Expr.valueOfSource? source = some v) :
    ∃ rep, report ⟨.evaluate, false, debug⟩ denominator? source = .ok rep ∧
      ((∃ w, Expr.valueOfSource? rep.output = some w) ↔ (Binary64.finite v).Plain) ∧
      (∀ w, Expr.valueOfSource? rep.output = some w → w.SameValue v) ∧
      ((∃ rep', report ⟨.evaluate, false, debug⟩ denominator? rep.output = .ok rep' ∧
        rep'.output = rep.output) ↔ (Binary64.finite v).Plain) := by
  obtain ⟨rep, hrep, houtput⟩ := exists_report_of_valueOfSource? h debug denominator?
  refine ⟨rep, hrep, ?_⟩
  rw [houtput]
  by_cases hplain : (Binary64.finite v).Plain
  · obtain ⟨w, hw, hsame⟩ := exists_valueOfSource?_exactText hplain
    obtain ⟨rep', hrep', houtput'⟩ := exists_report_of_valueOfSource? hw debug denominator?
    refine ⟨iff_of_true ⟨w, hw⟩ hplain, fun w' hw' => ?_, iff_of_true ?_ hplain⟩
    · exact Option.some.inj (hw.symm.trans hw') ▸ hsame
    · exact ⟨rep', hrep', houtput'.trans (exactText_congr hsame)⟩
  · obtain ⟨e, he, hvalue, hproducts⟩ := Expr.exists_parse_exactText_of_not_plain hplain
    have hnone (w : Number) : Expr.valueOfSource? (Binary64.finite v).exactText ≠ some w := by
      rw [Expr.valueOfSource?, Expr.parse?_eq_some_iff.mpr he, Option.bind_some, hvalue]
      exact (Option.some_ne_none w).symm
    refine ⟨iff_of_false (fun h => h.elim hnone) hplain, fun w hw => absurd hw (hnone w),
      iff_of_false ?_ hplain⟩
    rintro ⟨rep', hrep', houtput'⟩
    rw [report_evaluate_of_parse he] at hrep'
    obtain rfl := Except.ok.inj hrep'
    rw [valueReport_of_value?_eq_none _ hvalue] at houtput'
    exact Expr.render_ne_exactText he hproducts _ houtput'

/-- The value of `1/3-1` is read back from its report. -/
theorem report_value_iff_plain_negativeTwoThirds :
    Expr.valueOfSource? "1/3-1" = some Expr.negativeTwoThirds ∧
      (Binary64.finite Expr.negativeTwoThirds).Plain ∧
      ∃ rep, report ⟨.evaluate, false, false⟩ none "1/3-1" = .ok rep ∧
        ∃ w, Expr.valueOfSource? rep.output = some w ∧ w.SameValue Expr.negativeTwoThirds := by
  have hvalue : Expr.valueOfSource? "1/3-1" = some Expr.negativeTwoThirds := by decide +kernel
  have hplain : (Binary64.finite Expr.negativeTwoThirds).Plain := by decide +kernel
  obtain ⟨rep, hrep, hiff, hsame, -⟩ := report_value_iff_plain _ _ false none hvalue
  obtain ⟨w, hw⟩ := hiff.mpr hplain
  exact ⟨hvalue, hplain, rep, hrep, w, hw, hsame w hw⟩

/-- The number nearest to two hundred-thousandths. -/
def twoHundredThousandths : Number := ⟨false, 5902958103587057, 1006, by decide⟩

/-- The report on `0.00002` is `2e-05`, which has no value. So not every report on a value can be
read back. -/
theorem not_forall_valueOfSource?_report :
    (Expr.valueOfSource? "0.00002" = some twoHundredThousandths ∧
      report ⟨.evaluate, false, false⟩ none "0.00002" = .ok ⟨"2e-05", ""⟩ ∧
      Expr.valueOfSource? "2e-05" = none ∧
      report ⟨.evaluate, false, false⟩ none "2e-05" = .ok ⟨"2 × e - 5", ""⟩) ∧
    ¬ ∀ (source : String) (v : Number), Expr.valueOfSource? source = some v →
      ∃ rep, report ⟨.evaluate, false, false⟩ none source = .ok rep ∧
        ∃ w, Expr.valueOfSource? rep.output = some w ∧ w.SameValue v := by
  have hvalue : Expr.valueOfSource? "0.00002" = some twoHundredThousandths := by decide +kernel
  have hreport : report ⟨.evaluate, false, false⟩ none "0.00002" = .ok ⟨"2e-05", ""⟩ := by
    decide +kernel
  have hnone : Expr.valueOfSource? "2e-05" = none := by decide +kernel
  refine ⟨⟨hvalue, hreport, hnone, by decide +kernel⟩, fun hall => ?_⟩
  obtain ⟨rep, hrep, w, hw, -⟩ := hall _ _ hvalue
  obtain rfl := Except.ok.inj (hreport.symm.trans hrep)
  rw [hnone] at hw
  cases hw

end Cli

end SchoolAlgebra
