import SchoolAlgebra.Cli.Run
import SchoolAlgebra.Proofs.Cli.Arguments
import SchoolAlgebra.Proofs.ForMathlib.Except

/-!
# Runs on many expressions

A run works on its expressions as if each of them had a run to itself. What it writes is what these
runs write, in the order of the expressions, whether they come from the arguments or from a file,
and the exit code says whether one of them has failed. An expression that does not parse therefore
leaves no trace in what is written for the others.

A run is a loop over the expressions, which carries along what is done so far. Nothing that is done
is looked at again: one more expression adds what its own run does, whatever stands there already.
That is `Outcome.next_eq_append`, the one place where a step of the loop is opened. By induction a
loop adds what its own run does, and so a run splits at any of its expressions.

## Main definitions

* `Cli.runExpression` — the run on one expression
* `Cli.Request.alone` — the request for one expression with the same options
* `Cli.Style.hasResult` — whether an expression is reported and not refused

## Main results

* `Cli.Outcome.foldl_next_eq_append` — a run that goes on adds what a run of its own does
* `Cli.stdout_runExpressions`, `Cli.stderr_runExpressions`, `Cli.exitCode_runExpressions_eq_one_iff`
  — what a run on many expressions does in terms of the runs on each
* `Cli.run_eq_join_alone` — the same for arguments, files and options
-/

namespace SchoolAlgebra

namespace Cli

variable {style : Style} {denominator? : Option Denominator} {source : String}

/-! ### One outcome after another

Two outcomes are joined as if a caller had seen both: the texts stand one behind the other, and the
worse exit code counts. -/

namespace Outcome

/-- One outcome after another: the worse exit code, and what both write. -/
def append (a b : Outcome) : Outcome :=
  ⟨max a.exitCode b.exitCode, a.stdout ++ b.stdout, a.stderr ++ b.stderr⟩

instance : Append Outcome := ⟨append⟩

theorem append_def (a b : Outcome) :
    a ++ b = ⟨max a.exitCode b.exitCode, a.stdout ++ b.stdout, a.stderr ++ b.stderr⟩ := rfl

@[simp] theorem silent_append (a : Outcome) : silent ++ a = a := by
  simp [append_def, silent]

@[simp] theorem append_silent (a : Outcome) : a ++ silent = a := by
  simp [append_def, silent]

theorem append_assoc (a b c : Outcome) : a ++ b ++ c = a ++ (b ++ c) := by
  simp only [append_def, String.append_assoc, Nat.max_assoc]

end Outcome

/-! ### The loop over the expressions

The loop is a fold from the left, so that its laws are stated for whatever is done before it starts.
They need that no exit code above one is reached, since a failed expression sets the code to one. -/

/-- The outcome of a run on one expression. -/
def runExpression (style : Style) (denominator? : Option Denominator) (source : String) : Outcome :=
  Outcome.next style denominator? .silent source

theorem runExpression_of_report_eq_ok {r : Report}
    (h : report style denominator? source = .ok r) :
    runExpression style denominator? source = ⟨0, r.output ++ "\n", r.outline⟩ := by
  simp only [runExpression, Outcome.next, h, Outcome.silent, String.empty_append]

theorem runExpression_of_report_eq_error {error : ParseError}
    (h : report style denominator? source = .error error) :
    runExpression style denominator? source = .ofParseError error source "<expr>" := by
  simp only [runExpression, Outcome.next, h, Outcome.silent, String.empty_append,
    Outcome.ofParseError]

namespace Outcome

variable {done : Outcome}

/-- **One step of the loop.** It adds what a run on the expression does, whatever is done so far. -/
theorem next_eq_append (h : done.exitCode ≤ 1) :
    next style denominator? done source = done ++ runExpression style denominator? source := by
  rw [append_def]
  cases hreport : report style denominator? source with
  | ok r =>
    rw [runExpression_of_report_eq_ok hreport]
    simp only [next, hreport, Nat.max_zero]
  | error error =>
    have hcode : max done.exitCode 1 = 1 := Nat.max_eq_right h
    rw [runExpression_of_report_eq_error hreport]
    simp only [next, hreport, ofParseError, String.append_empty, hcode]

/-- The loop knows no exit codes but zero and one. -/
theorem exitCode_next_le (h : done.exitCode ≤ 1) :
    (next style denominator? done source).exitCode ≤ 1 := by
  rw [next]
  split
  · exact h
  · exact Nat.le_refl 1

/-- **The rest of the loop.** It adds what a run on the expressions that are left does. -/
theorem foldl_next_eq_append (sources : List String) (h : done.exitCode ≤ 1) :
    sources.foldl (next style denominator?) done =
      done ++ runExpressions style denominator? sources := by
  induction sources generalizing done with
  | nil => exact (append_silent done).symm
  | cons source sources ih =>
    have hfirst : runExpressions style denominator? (source :: sources) =
        runExpression style denominator? source ++ runExpressions style denominator? sources :=
      ih (exitCode_next_le (Nat.zero_le 1))
    rw [List.foldl_cons, ih (exitCode_next_le h), next_eq_append h, append_assoc, hfirst]

end Outcome

theorem runExpressions_cons (source : String) (sources : List String) :
    runExpressions style denominator? (source :: sources) =
      runExpression style denominator? source ++ runExpressions style denominator? sources :=
  Outcome.foldl_next_eq_append sources (Outcome.exitCode_next_le (Nat.zero_le 1))

/-! ### One expression

Only in the mode of tokens is a report possible for a source that does not parse. In all other modes
the report is a function of the tree, whatever the mode makes of it. -/

/-- Whether an expression is reported: its tokens always are, all else needs it to parse. -/
def Style.hasResult (style : Style) (source : String) : Bool :=
  style.mode = .tokens || (Expr.parse? source).isSome

theorem Style.hasResult_iff :
    style.hasResult source = true ↔ style.mode = .tokens ∨ ∃ e, Expr.parse source = .ok e := by
  rw [hasResult, Expr.parse?, Bool.or_eq_true, decide_eq_true_iff]
  cases Expr.parse source <;> simp [Except.toOption]

theorem Style.hasResult_eq_false_iff :
    style.hasResult source = false ↔
      style.mode ≠ .tokens ∧ ∃ error, Expr.parse source = .error error := by
  rw [hasResult, Expr.parse?, Bool.or_eq_false_iff, decide_eq_false_iff_not]
  cases Expr.parse source <;> simp [Except.toOption]

/-- In every mode but that of tokens an expression has to parse. -/
theorem exists_report_eq_map_parse (h : style.mode ≠ .tokens) :
    ∃ output : Expr → String, report style denominator? source =
      (Expr.parse source).map fun e => ⟨output e, if style.debug then e.outline else ""⟩ := by
  obtain ⟨mode, json, debug⟩ := style
  cases mode with
  | tokens => exact absurd rfl h
  | evaluate =>
    refine ⟨fun e => valueReport source e json, ?_⟩
    cases hparse : Expr.parse source <;> simp only [report, hparse] <;> rfl
  | simplify =>
    refine ⟨fun e => simplifiedReport source e json, ?_⟩
    cases hparse : Expr.parse source <;> simp only [report, hparse] <;> rfl
  | analyze =>
    refine ⟨fun e => hintsReport source e denominator? json, ?_⟩
    cases hparse : Expr.parse source <;> simp only [report, hparse] <;> rfl

/-- The tokens of any source are reported. -/
theorem runExpression_of_tokens (h : style.mode = .tokens) :
    runExpression style denominator? source = ⟨0, tokensReport source style.json ++ "\n", ""⟩ := by
  have hreport : report style denominator? source = .ok ⟨tokensReport source style.json, ""⟩ := by
    rw [report, h]
  exact runExpression_of_report_eq_ok hreport

/-- An expression that parses is reported, with its outline if it is wanted. -/
theorem runExpression_of_parse_eq_ok {e : Expr} (hmode : style.mode ≠ .tokens)
    (h : Expr.parse source = .ok e) :
    ∃ output, runExpression style denominator? source =
      ⟨0, output ++ "\n", if style.debug then e.outline else ""⟩ := by
  obtain ⟨output, hreport⟩ := exists_report_eq_map_parse hmode
  have hreport : report style denominator? source =
      .ok ⟨output e, if style.debug then e.outline else ""⟩ := by rw [hreport, h]; rfl
  exact ⟨output e, runExpression_of_report_eq_ok hreport⟩

/-- An expression that does not parse is refused, and nothing is written to standard output. -/
theorem runExpression_of_parse_eq_error {error : ParseError} (hmode : style.mode ≠ .tokens)
    (h : Expr.parse source = .error error) :
    runExpression style denominator? source = .ofParseError error source "<expr>" := by
  obtain ⟨output, hreport⟩ := exists_report_eq_map_parse hmode
  exact runExpression_of_report_eq_error (by rw [hreport, h]; rfl)

theorem exitCode_of_hasResult (h : style.hasResult source = true) :
    (runExpression style denominator? source).exitCode = 0 := by
  by_cases hmode : style.mode = .tokens
  · rw [runExpression_of_tokens hmode]
  · obtain ⟨e, he⟩ := (Style.hasResult_iff.mp h).resolve_left hmode
    obtain ⟨output, hrun⟩ := runExpression_of_parse_eq_ok hmode he
    rw [hrun]

theorem exists_runExpression_eq_ofParseError (denominator? : Option Denominator)
    (h : style.hasResult source = false) :
    ∃ error, runExpression style denominator? source = .ofParseError error source "<expr>" := by
  obtain ⟨hmode, error, herror⟩ := Style.hasResult_eq_false_iff.mp h
  exact ⟨error, runExpression_of_parse_eq_error hmode herror⟩

/-! ### Many expressions

Each of the three parts of an outcome is settled by an induction over the expressions, with
`runExpressions_cons` as its step. -/

/-- Only the expressions with a result write to standard output. -/
theorem stdout_runExpressions (sources : List String) :
    (runExpressions style denominator? sources).stdout =
      String.join ((sources.filter style.hasResult).map fun source =>
        (runExpression style denominator? source).stdout) := by
  induction sources with
  | nil => rfl
  | cons source sources ih =>
    rw [runExpressions_cons, Outcome.append_def, ih]
    cases h : style.hasResult source with
    | true => rw [List.filter_cons_of_pos h, List.map_cons, String.join_cons]
    | false =>
      obtain ⟨error, hrun⟩ := exists_runExpression_eq_ofParseError denominator? h
      rw [List.filter_cons_of_neg (by simp [h]), hrun]
      exact String.empty_append

theorem stderr_runExpressions (sources : List String) :
    (runExpressions style denominator? sources).stderr =
      String.join (sources.map fun source =>
        (runExpression style denominator? source).stderr) := by
  induction sources with
  | nil => rfl
  | cons source sources ih =>
    rw [runExpressions_cons, Outcome.append_def, ih, List.map_cons, String.join_cons]

/-- One expression without a result settles the exit code. -/
theorem exitCode_runExpressions (sources : List String) :
    (runExpressions style denominator? sources).exitCode =
      if sources.all style.hasResult then 0 else 1 := by
  induction sources with
  | nil => rfl
  | cons source sources ih =>
    rw [runExpressions_cons, Outcome.append_def, ih, List.all_cons]
    cases h : style.hasResult source with
    | true => rw [exitCode_of_hasResult h, Nat.zero_max, Bool.true_and]
    | false =>
      obtain ⟨error, hrun⟩ := exists_runExpression_eq_ofParseError denominator? h
      rw [hrun, Outcome.ofParseError, Bool.false_and]
      split <;> rfl

theorem exitCode_runExpressions_eq_one_iff (sources : List String) :
    (runExpressions style denominator? sources).exitCode = 1 ↔
      style.mode ≠ .tokens ∧
        ∃ source ∈ sources, ∃ error, Expr.parse source = .error error := by
  have hfailed : sources.all style.hasResult = false ↔ style.mode ≠ .tokens ∧
      ∃ source ∈ sources, ∃ error, Expr.parse source = .error error := by
    simp only [List.all_eq_false, Bool.not_eq_true, Style.hasResult_eq_false_iff]
    constructor
    · rintro ⟨source, hsource, hmode, herror⟩
      exact ⟨hmode, source, hsource, herror⟩
    · rintro ⟨hmode, source, hsource, herror⟩
      exact ⟨source, hsource, hmode, herror⟩
  rw [exitCode_runExpressions, ← hfailed]
  cases sources.all style.hasResult <;> decide

/-! ### Settings and requests

What the options say does not depend on the expressions. So the same options with one expression
instead of all give the same style and the same denominator. -/

/-- Whatever the expressions are, settings run them in one style and over one denominator. -/
theorem Settings.exists_run_eq (s : Settings)
    (hover : ∀ source ∈ s.denominatorSource?, ∃ e, Expr.parse source = .ok e) :
    ∃ denominator?, ∀ expressions,
      Settings.run { s with expressions } = runExpressions s.style denominator? expressions := by
  cases hsource : s.denominatorSource? with
  | none =>
    refine ⟨none, fun expressions => ?_⟩
    have hnone : ({ s with expressions } : Settings).denominatorSource? = none := hsource
    rw [run, hnone]
    rfl
  | some source =>
    obtain ⟨e, he⟩ := hover source hsource
    refine ⟨some ⟨source, e⟩, fun expressions => ?_⟩
    have hsome : ({ s with expressions } : Settings).denominatorSource? = some source := hsource
    rw [run, hsome]
    simp only [he]
    rfl

/-- The request for one expression alone, with the same options. -/
def Request.alone (r : Request) (source : String) : Request :=
  { r with expressions := [source], file? := none }

theorem Request.Spelled.alone {r : Request} (hr : r.Spelled) (source : String) :
    (r.alone source).Spelled :=
  { hr with file_ne := nofun }

/-- Settings have the expressions of the request, and then those of the file. -/
theorem Settings.exists_listed_of_resolve {folder : Folder} {r : Request} {s : Settings}
    (h : resolve folder r = .ok s) :
    ∃ listed, readExpressions folder r.filePath? = .ok listed ∧
      s.expressions = r.expressions ++ listed ∧ s.denominator? = r.over? ∧
      ∀ source, resolve folder (r.alone source) = .ok { s with expressions := [source] } := by
  rw [resolve] at h
  obtain ⟨configuration, hconfiguration, h⟩ := exists_of_bind_eq_ok h
  obtain ⟨listed, hlisted, h⟩ := exists_of_bind_eq_ok h
  cases h
  refine ⟨listed, hlisted, rfl, rfl, fun source => ?_⟩
  have hsame : Configuration.load folder (r.alone source).configPath = .ok configuration :=
    hconfiguration
  rw [resolve, hsame]
  rfl

/-! ### Whole runs

A run for one expression alone starts from arguments again: those that `Request.arguments` writes
for the request. That they are read as that request is `Request.ofArguments_arguments`. -/

/-- **A run does what the runs on each of its expressions do.** The expressions are those among the
arguments and then those of the file. What is written to standard output comes from the ones with a
result, in their order; standard error has the outlines and the reports on errors, in the same
order; and the run fails exactly if one of them does not parse, which is no failure where the
tokens are all that is asked for. -/
theorem run_eq_join_alone (folder : Folder) (arguments : List String) (r : Request) (s : Settings)
    (hr : Request.ofArguments arguments = .ok r) (hs : Settings.resolve folder r = .ok s)
    (hover : s.style.mode = .analyze → ∀ given ∈ s.denominator?,
      ∃ source e, given = .value source ∧ Expr.parse source = .ok e) :
    ∃ (listed : List String) (outcome : Outcome) (single : String → Outcome),
      readExpressions folder r.filePath? = .ok listed ∧
      run folder arguments = .ok outcome ∧
      (∀ source, run folder (r.alone source).arguments = .ok (single source)) ∧
      outcome.stdout = String.join (((r.expressions ++ listed).filter s.style.hasResult).map
        fun source => (single source).stdout) ∧
      outcome.stderr = String.join ((r.expressions ++ listed).map
        fun source => (single source).stderr) ∧
      (outcome.exitCode = 1 ↔ s.style.mode ≠ .tokens ∧
        ∃ source ∈ r.expressions ++ listed, ∃ error, Expr.parse source = .error error) ∧
      (outcome.exitCode ≠ 1 → outcome.exitCode = 0) ∧
      ∀ source,
        (s.style.mode = .tokens → single source = ⟨0, tokensReport source s.json ++ "\n", ""⟩) ∧
        (s.style.mode ≠ .tokens →
          (∀ e, Expr.parse source = .ok e → ∃ output,
            single source = ⟨0, output ++ "\n", if s.debug then e.outline else ""⟩) ∧
          ∀ error, Expr.parse source = .error error →
            single source = ⟨1, "", error.report source "<expr>" ++ "\n"⟩) := by
  obtain ⟨listed, hlisted, hexpressions, -, halone⟩ := Settings.exists_listed_of_resolve hs
  have hsource : ∀ source ∈ s.denominatorSource?, ∃ e, Expr.parse source = .ok e := by
    intro source hsource
    rw [Settings.denominatorSource?] at hsource
    split at hsource
    · next hmode =>
      obtain ⟨given, hgiven, hvalue⟩ := Option.bind_eq_some_iff.mp hsource
      obtain ⟨text, e, rfl, he⟩ := hover hmode given hgiven
      exact ⟨e, Option.some.inj hvalue ▸ he⟩
    · cases hsource
  obtain ⟨denominator?, hrun⟩ := s.exists_run_eq hsource
  refine ⟨listed, runExpressions s.style denominator? (r.expressions ++ listed),
    runExpression s.style denominator?, hlisted, ?_, fun source => ?_, stdout_runExpressions _,
    stderr_runExpressions _, exitCode_runExpressions_eq_one_iff _, fun hexit => ?_,
    fun source => ⟨runExpression_of_tokens, fun hmode =>
      ⟨fun e => runExpression_of_parse_eq_ok hmode,
        fun error => runExpression_of_parse_eq_error hmode⟩⟩⟩
  · rw [run, hr, ← hexpressions, ← hrun s.expressions]
    simp only [Except.map, Request.run, hs]
  · have hmade := Request.ofArguments_arguments ((Request.spelled_of_ofArguments hr).alone source)
    have hsingle : runExpressions s.style denominator? [source] =
        runExpression s.style denominator? source := rfl
    rw [run, hmade, ← hsingle, ← hrun [source]]
    simp only [Except.map, Request.run, halone source]
  · rw [exitCode_runExpressions] at hexit ⊢
    split
    · rfl
    · next hall => exact absurd (if_neg hall) hexit

/-- A folder with a list of two expressions. -/
def listFolder : Folder := fun path =>
  if path = "list.txt" then .file "  x*1 \n\n)\n" else .missing

/-- The request for the outlines and the analysis of two expressions and of those in the list. -/
def listRequest : Request :=
  ⟨["4x", "x+"], some "list.txt", some (.value "2"), some (.value .analyze), false, none, true⟩

/-- Neither the second expression nor the last one can be read, and the others are analyzed. -/
theorem run_eq_join_alone_listRequest :
    Request.ofArguments ["4x", "x+", "-m", "analyze", "--ov=2", "-flist.txt", "--debug"] =
        .ok listRequest ∧
      ∃ (outcome : Outcome) (single : String → Outcome),
        run listFolder ["4x", "x+", "-m", "analyze", "--ov=2", "-flist.txt", "--debug"] =
          .ok outcome ∧
        (∀ source, run listFolder (listRequest.alone source).arguments = .ok (single source)) ∧
        outcome.stdout = (single "4x").stdout ++ (single "x*1").stdout ∧
        outcome.stderr = (single "4x").stderr ++ ((single "x+").stderr ++
          ((single "x*1").stderr ++ (single ")").stderr)) ∧
        outcome.exitCode = 1 := by
  have hr : Request.ofArguments ["4x", "x+", "-m", "analyze", "--ov=2", "-flist.txt", "--debug"] =
      .ok listRequest := by decide +kernel
  have hs : Settings.resolve listFolder listRequest =
      .ok ⟨["4x", "x+", "x*1", ")"], some (.value "2"), .value .analyze, false, true⟩ := by
    decide +kernel
  obtain ⟨listed, outcome, single, hlisted, hrun, hsingle, hstdout, hstderr, hexit, -, -⟩ :=
    run_eq_join_alone _ _ _ _ hr hs fun _ given hgiven =>
      ⟨"2", .num .two (some ⟨0, 1⟩), (Option.some.inj hgiven).symm, by decide +kernel⟩
  have hlist : readExpressions listFolder listRequest.filePath? = .ok ["x*1", ")"] := by
    decide +kernel
  obtain rfl : listed = ["x*1", ")"] := Except.ok.inj (hlisted.symm.trans hlist)
  have hresults : (listRequest.expressions ++ ["x*1", ")"]).filter
      (Style.hasResult ⟨.analyze, false, true⟩) = ["4x", "x*1"] := by decide +kernel
  refine ⟨hr, outcome, single, hrun, hsingle, ?_, ?_, hexit.mpr ⟨nofun, ")", ?_, ?_⟩⟩
  · refine (hstdout.trans (congrArg (fun sources => String.join (sources.map
      fun source => (single source).stdout)) hresults)).trans ?_
    simp
  · rw [hstderr]
    simp [listRequest]
  · decide +kernel
  · exact ⟨⟨.unexpected ")", 0⟩, by decide +kernel⟩

end Cli

end SchoolAlgebra
