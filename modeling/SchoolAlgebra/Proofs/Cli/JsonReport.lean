import SchoolAlgebra.Cli.Report
import SchoolAlgebra.Proofs.Expr.FirstError
import SchoolAlgebra.Proofs.Json.Reading

/-!
# Reports in JSON

A report in JSON holds a source and what a mode found out about it. Here the two are read back from
what the text of the report denotes: the members of an object by their names, each of which it has
once, a string by its units, a span as two integers.

Only one thing that is found out has no JSON text: the exponent of like terms can be infinite, when
its numeral is too large, and then the report is not JSON.

## Reading back

What a text denotes is a `Datum`, in which the order of the members and the ways of writing a number
or a string are already gone. For each part of a report there is one function to its datum and one
back. That the second undoes the first is proved part by part, and so is that what is printed has
that datum. `Content` collects the four kinds of reports, so that the main result is one statement
and not four.

## Main definitions

* `Cli.Content` — what a mode finds out, `Cli.Content.ofSource`
* `Cli.Content.read?` — a source and a content, read back
* `Cli.Content.PrintedAs` — a text is the report of a content

## Main results

* `Cli.Content.exists_printedAs_of_report` — a report prints the content
* `Cli.Content.read?_datum` — what is printed is read back
* `Cli.exists_denotes_report_iff` — a report in JSON is JSON if no exponent in it is infinite, and
  then it says what was found out
-/

namespace SchoolAlgebra

open Json (Datum)
open Json.Datum

/-! ### Hints

The object of a hint has a member that tells its kind, and which other members there are depends on
the kind. A hint is finite if the number in it is; the exponent is the only one that is not a count.
-/

/-- What a span denotes when it is printed. -/
def Span.datum (s : Span) : Datum := .array [.integer s.start, .integer s.stop]

/-- A span as a pair of offsets. -/
def Span.ofDatum? : Datum → Option Span
  | .array [.integer start, .integer stop] => some ⟨start.toNat, stop.toNat⟩
  | _ => none

@[simp] theorem Span.ofDatum?_datum (s : Span) : Span.ofDatum? s.datum = some s := rfl

@[simp] theorem Hint.datum?_spanJson (s : Span) : (spanJson s).datum? = some s.datum := rfl

@[simp] theorem Hint.datum?_spansJson (spans : List Span) :
    (spansJson spans).datum? = some (.array (spans.map Span.datum)) := by
  rw [spansJson, Json.datum?, Json.itemData?_map fun s _ => datum?_spanJson s]
  rfl

theorem Span.items?_datum (spans : List Span) :
    Json.Datum.items? Span.ofDatum? (.array (spans.map Span.datum)) = some spans := by
  rw [items?, List.mapM_map]
  exact mapM_eq_some fun s _ => s.ofDatum?_datum

namespace Hint

/-- No number in the hint is infinite. -/
def IsFinite : Hint → Prop
  | .commonFactor .. | .reducibleFraction .. => True
  | .likeTerms _ exponent _ => exponent.finite?.isSome

/-- What a hint denotes when it is printed. -/
def datum : Hint → Datum
  | .commonFactor factor numerator denominator =>
    ofMembers [("kind", ofText "common-factor"), ("factor", .integer factor),
      ("numerator_spans", .array (numerator.map Span.datum)),
      ("denominator_spans", .array (denominator.map Span.datum))]
  | .likeTerms name? exponent terms =>
    ofMembers [("kind", ofText "like-terms"), ("variable", (name?.map ofText).getD .null),
      ("exponent", .number exponent), ("spans", .array (terms.map Span.datum))]
  | .reducibleFraction divisor numerator denominator =>
    ofMembers [("kind", ofText "reducible-fraction"), ("gcd", .integer divisor),
      ("numerator_span", numerator.datum), ("denominator_span", denominator.datum)]

/-- A name, if there is one. -/
def name? : Datum → Option (Option String)
  | .null => some none
  | d => d.text?.map some

/-- The hint that an object tells of. -/
def ofDatum? (d : Datum) : Option Hint := do
  let kind ← (← d.member? "kind").text?
  if kind = "common-factor" then
    return .commonFactor (← (← d.member? "factor").integer?)
      (← (← d.member? "numerator_spans").items? Span.ofDatum?)
      (← (← d.member? "denominator_spans").items? Span.ofDatum?)
  else if kind = "like-terms" then
    return .likeTerms (← name? (← d.member? "variable")) (← (← d.member? "exponent").number?)
      (← (← d.member? "spans").items? Span.ofDatum?)
  else if kind = "reducible-fraction" then
    return .reducibleFraction (← (← d.member? "gcd").integer?)
      (← Span.ofDatum? (← d.member? "numerator_span"))
      (← Span.ofDatum? (← d.member? "denominator_span"))
  else none

/-- A hint is recovered from its datum. -/
theorem ofDatum?_datum (h : Hint) : ofDatum? h.datum = some h := by
  cases h with
  | commonFactor factor numerator denominator =>
    simp [ofDatum?, datum, only?, Json.Datum.integer?, Span.items?_datum]
  | likeTerms name? exponent terms =>
    cases name? <;>
      simp [ofDatum?, datum, only?, Json.Datum.number?, name?, Span.items?_datum, ofText,
        text?, Text.ofUtf16?_utf16]
  | reducibleFraction divisor numerator denominator =>
    simp [ofDatum?, datum, only?, Json.Datum.integer?]

/-- What is printed of a hint without an infinite number. -/
theorem datum?_toJson {h : Hint} (hfinite : h.IsFinite) : h.toJson.datum? = some h.datum := by
  cases h with
  | commonFactor factor numerator denominator =>
    exact Json.datum?_object (.cons ⟨rfl, rfl⟩ (.cons ⟨rfl, rfl⟩
      (.cons ⟨rfl, datum?_spansJson numerator⟩ (.cons ⟨rfl, datum?_spansJson denominator⟩ .nil))))
  | likeTerms name? exponent terms =>
    cases exponent with
    | infinite negative => cases hfinite
    | finite x =>
      cases name? <;>
        exact Json.datum?_object (.cons ⟨rfl, rfl⟩ (.cons ⟨rfl, rfl⟩ (.cons ⟨rfl, rfl⟩
          (.cons ⟨rfl, datum?_spansJson terms⟩ .nil))))
  | reducibleFraction divisor numerator denominator =>
    exact Json.datum?_object (.cons ⟨rfl, rfl⟩ (.cons ⟨rfl, rfl⟩
      (.cons ⟨rfl, datum?_spanJson numerator⟩ (.cons ⟨rfl, datum?_spanJson denominator⟩ .nil))))

/-- A hint with an infinite exponent has no JSON text. -/
theorem datum?_toJson_eq_none {h : Hint} (hinfinite : ¬ h.IsFinite) : h.toJson.datum? = none := by
  cases h with
  | commonFactor | reducibleFraction => exact absurd trivial hinfinite
  | likeTerms name? exponent terms =>
    cases exponent with
    | finite x => exact absurd rfl hinfinite
    | infinite negative => cases name? <;> simp [toJson, Json.datum?, Json.fieldData?]

end Hint

namespace Cli

/-! ### Tokens -/

/-- A token as it is reported: how it is styled, its text and its span. -/
structure Shown where
  /-- How it is styled. -/
  kind : DisplayKind
  /-- Its text. -/
  text : String
  /-- Where it stands. -/
  span : Span
  deriving DecidableEq

/-- What is reported of a displayed token. -/
def Shown.ofDisplay (t : DisplayToken) : Shown := ⟨t.kind, t.text, t.span⟩

/-- The kind that a word names. -/
def kindOfName? (name : String) : Option DisplayKind :=
  [.number, .variable, .operator, .power, .paren].find? fun kind => kind.name = name

theorem kindOfName?_name (kind : DisplayKind) : kindOfName? kind.name = some kind := by
  cases kind <;> decide

/-- What a token denotes when it is printed. -/
def Shown.datum (t : Shown) : Datum :=
  ofMembers [("kind", ofText t.kind.name), ("value", ofText t.text), ("span", t.span.datum)]

/-- The token that an object tells of. -/
def Shown.ofDatum? (d : Datum) : Option Shown := do
  return ⟨← kindOfName? (← (← d.member? "kind").text?), ← (← d.member? "value").text?,
    ← Span.ofDatum? (← d.member? "span")⟩

theorem Shown.ofDatum?_datum (t : Shown) : Shown.ofDatum? t.datum = some t := by
  simp [Shown.ofDatum?, Shown.datum, only?, kindOfName?_name]

theorem Shown.datum?_tokenJson (t : DisplayToken) :
    (tokenJson t).datum? = some (Shown.ofDisplay t).datum :=
  Json.datum?_object (.cons ⟨rfl, rfl⟩ (.cons ⟨rfl, rfl⟩
    (.cons ⟨rfl, Hint.datum?_spanJson t.span⟩ .nil)))

/-! ### Contents

What is found out in one mode is compared with what is read back as a `Content`. The source is read
back together with it, from a member that all reports have. -/

/-- What a mode finds out about a source. -/
inductive Content where
  /-- The displayed tokens. -/
  | tokens (shown : List Shown)
  /-- The value. -/
  | value (v : Number)
  /-- The text of an expression that has no value. -/
  | unevaluated (text : String)
  /-- The hints. -/
  | hints (found : List Hint)
  /-- The text of the simplified expression. -/
  | simplified (text : String)
  deriving DecidableEq

namespace Content

/-- The hints on an expression, or on it over a denominator. -/
def hintsOver (denominator? : Option Denominator) (e : Expr) : List Hint :=
  match denominator? with
  | some denominator => Hint.ofFraction e denominator.expr
  | none => Hint.ofExpr e

/-- What an expression evaluates to. -/
def ofValue (e : Expr) : Content :=
  match e.value? with
  | some v => .value v
  | none => .unevaluated e.render

/-- What a mode finds out about a source, possibly over a denominator. -/
def ofSource (mode : Mode) (denominator? : Option Denominator) (source : String) :
    Except ParseError Content :=
  match mode with
  | .tokens => .ok (.tokens ((Token.display (Token.scan source)).map Shown.ofDisplay))
  | .evaluate => (Expr.parse source).map ofValue
  | .analyze => (Expr.parse source).map fun e => .hints (hintsOver denominator? e)
  | .simplify => (Expr.parse source).map fun e => .simplified e.simplify.render

/-- No number in the content is infinite. -/
def IsFinite : Content → Prop
  | .hints found => ∀ h ∈ found, h.IsFinite
  | _ => True

/-- What the content of a source denotes when it is printed. -/
def datum (source : String) : Content → Datum
  | .tokens shown =>
    ofMembers [("input", ofText source), ("tokens", .array (shown.map Shown.datum))]
  | .value v => ofMembers [("input", ofText source), ("value", .number (.finite v))]
  | .unevaluated text =>
    ofMembers [("input", ofText source), ("value", .null), ("result", ofText text)]
  | .hints found =>
    ofMembers [("input", ofText source), ("opportunities", .array (found.map Hint.datum))]
  | .simplified text => ofMembers [("input", ofText source), ("result", ofText text)]

/-- The source and the content that an object tells of. -/
def read? (mode : Mode) (d : Datum) : Option (String × Content) := do
  let source ← (← d.member? "input").text?
  match mode with
  | .tokens => return (source, .tokens (← (← d.member? "tokens").items? Shown.ofDatum?))
  | .analyze => return (source, .hints (← (← d.member? "opportunities").items? Hint.ofDatum?))
  | .simplify => return (source, .simplified (← (← d.member? "result").text?))
  | .evaluate =>
    match ← d.member? "value" with
    | .number (.finite v) => return (source, .value v)
    | .null => return (source, .unevaluated (← (← d.member? "result").text?))
    | _ => none

variable {mode : Mode} {denominator? : Option Denominator} {source : String} {content : Content}

/-- What a mode finds out comes from the expression of the source. -/
theorem exists_eq_of_map {f : Expr → Content} (h : (Expr.parse source).map f = .ok content) :
    ∃ e, Expr.parse source = .ok e ∧ f e = content := by
  cases hparse : Expr.parse source with
  | error e =>
    rw [hparse] at h
    cases h
  | ok e =>
    rw [hparse] at h
    exact ⟨e, rfl, Except.ok.inj h⟩

/-- **What is printed is read back.** -/
theorem read?_datum (h : ofSource mode denominator? source = .ok content) :
    read? mode (content.datum source) = some (source, content) := by
  cases mode with
  | tokens =>
    cases h
    generalize (Token.display (Token.scan source)).map Shown.ofDisplay = shown
    have htokens : shown.mapM (Shown.ofDatum? ∘ Shown.datum) = some shown :=
      mapM_eq_some fun t _ => t.ofDatum?_datum
    simp [read?, datum, only?, items?, htokens]
  | evaluate =>
    obtain ⟨e, -, rfl⟩ := exists_eq_of_map h
    rw [ofValue]
    cases e.value? <;> simp [read?, datum, only?]
  | analyze =>
    obtain ⟨e, -, rfl⟩ := exists_eq_of_map h
    generalize hintsOver denominator? e = found
    have hhints : found.mapM (Hint.ofDatum? ∘ Hint.datum) = some found :=
      mapM_eq_some fun h _ => h.ofDatum?_datum
    simp [read?, datum, only?, items?, hhints]
  | simplify =>
    obtain ⟨e, -, rfl⟩ := exists_eq_of_map h
    simp [read?, datum, only?]

/-- The text is that of a value in JSON, which has the datum of the content, or none if a number in
it is infinite. -/
def PrintedAs (source : String) (content : Content) (output : String) : Prop :=
  ∃ value charset, output = Json.textIn charset value ∧
    (content.IsFinite → value.datum? = some (content.datum source)) ∧
      (¬ content.IsFinite → value.datum? = none)

theorem printedAs_tokens (source : String) :
    PrintedAs source (.tokens ((Token.display (Token.scan source)).map Shown.ofDisplay))
      (tokensReport source true) := by
  refine ⟨_, _, rfl, fun _ => ?_, fun h => absurd trivial h⟩
  refine Json.datum?_object (.cons ⟨rfl, rfl⟩ (.cons ⟨rfl, ?_⟩ .nil))
  rw [Json.datum?, Json.itemData?_map fun t _ => Shown.datum?_tokenJson t, List.map_map]
  rfl

theorem printedAs_value (source : String) (e : Expr) :
    PrintedAs source (ofValue e) (valueReport source e true) := by
  rw [valueReport, ofValue]
  cases e.value? with
  | some v =>
    refine ⟨_, _, rfl, fun _ => ?_, fun h => absurd trivial h⟩
    exact Json.datum?_object (.cons ⟨rfl, rfl⟩ (.cons ⟨rfl, rfl⟩ .nil))
  | none =>
    refine ⟨_, _, rfl, fun _ => ?_, fun h => absurd trivial h⟩
    exact Json.datum?_object (.cons ⟨rfl, rfl⟩ (.cons ⟨rfl, rfl⟩ (.cons ⟨rfl, rfl⟩ .nil)))

theorem printedAs_simplified (source : String) (e : Expr) :
    PrintedAs source (.simplified e.simplify.render) (simplifiedReport source e true) := by
  refine ⟨_, _, rfl, fun _ => ?_, fun h => absurd trivial h⟩
  exact Json.datum?_object (.cons ⟨rfl, rfl⟩ (.cons ⟨rfl, rfl⟩ .nil))

theorem printedAs_hints (source : String) (e : Expr) (denominator? : Option Denominator) :
    PrintedAs source (.hints (hintsOver denominator? e))
      (hintsReport source e denominator? true) := by
  refine ⟨sourceJson source
      [("opportunities", .array ((hintsOver denominator? e).map Hint.toJson))],
    .unicode, rfl, fun hfinite => ?_, fun hinfinite => ?_⟩
  · refine Json.datum?_object (.cons ⟨rfl, rfl⟩ (.cons ⟨rfl, ?_⟩ .nil))
    rw [Json.datum?, Json.itemData?_map fun h hh => Hint.datum?_toJson (hfinite h hh)]
    rfl
  · obtain ⟨h, hinfinite⟩ := Classical.not_forall.mp hinfinite
    obtain ⟨hmem, hinfinite⟩ := Classical.not_imp.mp hinfinite
    have hitems := Json.itemData?_eq_none (List.mem_map_of_mem hmem)
      (Hint.datum?_toJson_eq_none hinfinite)
    simp [sourceJson, Json.datum?, Json.fieldData?, hitems]

/-- In every mode but that of tokens the output is about the expression of the source. -/
theorem exists_parse_of_report {json debug : Bool} {rep : Report}
    (h : report ⟨mode, json, debug⟩ denominator? source = .ok rep) (hmode : mode ≠ .tokens) :
    ∃ e, Expr.parse source = .ok e ∧ rep.output =
      match mode with
      | .evaluate => valueReport source e json
      | .analyze => hintsReport source e denominator? json
      | _ => simplifiedReport source e json := by
  cases hparse : Expr.parse source with
  | error error =>
    cases mode with
    | tokens => exact absurd rfl hmode
    | evaluate | simplify | analyze =>
      simp only [report, hparse] at h
      cases h
  | ok e =>
    refine ⟨e, rfl, ?_⟩
    cases mode with
    | tokens => exact absurd rfl hmode
    | evaluate | simplify | analyze =>
      simp only [report, hparse] at h
      cases h
      rfl

/-- A report in JSON prints what the mode finds out. -/
theorem exists_printedAs_of_report {debug : Bool} {rep : Report}
    (h : report ⟨mode, true, debug⟩ denominator? source = .ok rep) :
    ∃ content, ofSource mode denominator? source = .ok content ∧
      PrintedAs source content rep.output := by
  cases mode with
  | tokens =>
    cases h
    exact ⟨_, rfl, printedAs_tokens source⟩
  | evaluate =>
    obtain ⟨e, hparse, houtput⟩ := exists_parse_of_report h nofun
    rw [houtput, ofSource, hparse]
    exact ⟨_, rfl, printedAs_value source e⟩
  | analyze =>
    obtain ⟨e, hparse, houtput⟩ := exists_parse_of_report h nofun
    rw [houtput, ofSource, hparse]
    exact ⟨_, rfl, printedAs_hints source e denominator?⟩
  | simplify =>
    obtain ⟨e, hparse, houtput⟩ := exists_parse_of_report h nofun
    rw [houtput, ofSource, hparse]
    exact ⟨_, rfl, printedAs_simplified source e⟩

theorem PrintedAs.denotes_iff {output : String} (h : PrintedAs source content output)
    (d : Datum) : Json.Denotes output d ↔ content.IsFinite ∧ d = content.datum source := by
  obtain ⟨value, charset, rfl, hfinite, hinfinite⟩ := h
  rw [Json.denotes_textIn_iff]
  by_cases hcontent : content.IsFinite
  · rw [hfinite hcontent, Option.some.injEq, eq_comm]
    exact ⟨fun heq => ⟨hcontent, heq⟩, And.right⟩
  · rw [hinfinite hcontent]
    exact ⟨nofun, fun hd => absurd hd.1 hcontent⟩

end Content

open Content

variable {mode : Mode} {denominator? : Option Denominator} {source : String}

/-- **What a report in JSON says.** It stays on a line. It is valid JSON exactly if no exponent that
was found is infinite. Then it denotes one thing only, an object, in which the source and what the
mode found out about it are read back. -/
theorem exists_denotes_report_iff (mode : Mode) (debug : Bool) (denominator? : Option Denominator)
    (source : String) (rep : Report)
    (hreport : report ⟨mode, true, debug⟩ denominator? source = .ok rep) :
    ∃ content, ofSource mode denominator? source = .ok content ∧
      (∀ c ∈ rep.output.toList, 0x20 ≤ c.toNat) ∧
      ((∃ d, Json.Denotes rep.output d) ↔ content.IsFinite) ∧
      ∀ d, Json.Denotes rep.output d →
        (∀ d', Json.Denotes rep.output d' → d' = d) ∧ (∃ members, d = .object members) ∧
          read? mode d = some (source, content) := by
  obtain ⟨content, hcontent, hprinted⟩ := exists_printedAs_of_report hreport
  refine ⟨content, hcontent, ?_, ?_, fun d hd => ?_⟩
  · obtain ⟨value, charset, houtput, -⟩ := hprinted
    rw [houtput]
    exact Json.onLine_charsIn charset value
  · constructor
    · rintro ⟨d, hd⟩
      exact ((hprinted.denotes_iff d).mp hd).1
    · intro hfinite
      exact ⟨_, (hprinted.denotes_iff _).mpr ⟨hfinite, rfl⟩⟩
  · obtain ⟨hfinite, rfl⟩ := (hprinted.denotes_iff d).mp hd
    refine ⟨fun d' hd' => ((hprinted.denotes_iff d').mp hd').2, ?_, read?_datum hcontent⟩
    cases content <;> exact ⟨_, rfl⟩

/-- The report on the hints on `2x+x`. -/
def sumReport : String :=
  "\x7b\"input\": \"2x+x\", \"opportunities\": [\x7b\"kind\": \"like-terms\", " ++
    "\"variable\": \"x\", \"exponent\": 1.0, \"spans\": [[0, 2], [3, 4]]\x7d]\x7d"

/-- The hint on `2x+x` is read back from the report. -/
theorem exists_denotes_report_iff_sum :
    report ⟨.analyze, true, false⟩ none "2x+x" = .ok ⟨sumReport, ""⟩ ∧
      ∃ d, Json.Denotes sumReport d ∧
        read? .analyze d = some ("2x+x", .hints [.likeTerms (some "x") .one [⟨0, 2⟩, ⟨3, 4⟩]]) := by
  have hcontent : ofSource .analyze none "2x+x" =
      .ok (.hints [.likeTerms (some "x") .one [⟨0, 2⟩, ⟨3, 4⟩]]) := by decide +kernel
  have hreport : report ⟨.analyze, true, false⟩ none "2x+x" = .ok ⟨sumReport, ""⟩ := by
    decide +kernel
  obtain ⟨content, hcontent', -, hiff, hread⟩ :=
    exists_denotes_report_iff .analyze false none "2x+x" _ hreport
  obtain rfl := Except.ok.inj (hcontent.symm.trans hcontent')
  obtain ⟨d, hd⟩ := hiff.mpr (by simp [IsFinite, Hint.IsFinite, Binary64.one, Binary64.finite?])
  exact ⟨hreport, d, hd, (hread d hd).2.2⟩

/-- The report is no JSON if an exponent that was found is infinite. -/
theorem not_denotes_of_not_isFinite {e : Expr} {h : Hint} (hparse : Expr.parse source = .ok e)
    (hmem : h ∈ hintsOver denominator? e) (hinfinite : ¬ h.IsFinite) :
    ∃ rep, report ⟨.analyze, true, false⟩ denominator? source = .ok rep ∧
      ¬ ∃ d, Json.Denotes rep.output d := by
  refine ⟨⟨hintsReport source e denominator? true, ""⟩, ?_, ?_⟩
  · simp only [report, hparse]
    rfl
  · rintro ⟨d, hd⟩
    have hfinite := ((printedAs_hints source e denominator?).denotes_iff d).mp hd
    exact hinfinite (hfinite.1 h hmem)

/-- A numeral that is too large for a finite number. -/
def hugeNumeral : List Char := List.replicate 400 '9'

/-- The characters of a sum of two powers with an exponent that is too large. -/
def hugePowers : List Char :=
  'x' :: '^' :: hugeNumeral ++ '+' :: 'x' :: '^' :: hugeNumeral

/-- What is read from it. -/
def hugePowersExpr : Expr :=
  .join .add (.power (.var "x" .one (some ⟨0, 1⟩)) (.infinite false) (some ⟨0, 402⟩))
    (.power (.var "x" .one (some ⟨403, 404⟩)) (.infinite false) (some ⟨403, 805⟩))

theorem parse_hugePowers : Expr.parse (String.ofList hugePowers) = .ok hugePowersExpr := by
  have htokens : Expr.ofTokens? (Token.scanFrom 0 0 hugePowers) = some (.ok hugePowersExpr) := by
    decide +kernel
  have hparse := Expr.ofTokens?_scan (String.ofList hugePowers)
  rw [Token.scan, String.toList_ofList, htokens] at hparse
  exact (Option.some.inj hparse).symm

theorem mem_hintsOver_hugePowersExpr :
    .likeTerms (some "x") (.infinite false) [⟨0, 402⟩, ⟨403, 805⟩] ∈
      hintsOver none hugePowersExpr := by
  decide +kernel

/-- Not every report in JSON is JSON. -/
theorem not_forall_exists_denotes_report :
    ¬ ∀ (mode : Mode) (debug : Bool) (denominator? : Option Denominator) (source : String)
      (rep : Report), report ⟨mode, true, debug⟩ denominator? source = .ok rep →
        ∃ d, Json.Denotes rep.output d := by
  intro hall
  obtain ⟨rep, hreport, hnone⟩ :=
    not_denotes_of_not_isFinite parse_hugePowers mem_hintsOver_hugePowersExpr nofun
  exact hnone (hall _ _ _ _ _ hreport)

end Cli

end SchoolAlgebra
