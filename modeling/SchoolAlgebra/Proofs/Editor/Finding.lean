import SchoolAlgebra.Proofs.Editor.Position
import SchoolAlgebra.Proofs.Expr.FirstError
import SchoolAlgebra.Proofs.Hint.Places
import SchoolAlgebra.Proofs.Text.Utf16
import SchoolAlgebra.Proofs.Token.Cover

/-!
# Findings in a document

What there is to say about a document is a list of findings: errors at an offset and hints about a
stretch of text, both counted from the beginning of the document. A diagnostic is a finding with its
offsets turned into positions.

With the line ends that `Text.lines` knows, the diagnostics of a document are its findings. For an
editor, they are so exactly as far as no line end stands before them that editors do not know; each
such end moves a diagnostic one line too far down.

## Two units of measure

A finding counts characters and a diagnostic counts units, and the two differ behind characters of
two units. The positions of the two ends are converted one by one. The end of the diagnostic of an
error is not: it is one unit behind its beginning, which is the position of the next character only
if the character is one unit wide. It is, because an error stands at a token or at the end of the
line, and no token begins with a wide character.

## Main definitions

* `Editor.findings` — the findings in a document
* `Editor.Finding.locate` — the diagnostic of a finding, for a class of line ends

## Main results

* `Editor.Diagnostic.ofDocument_eq_map_locate` — the diagnostics of a document, and which of them
  stand where an editor looks for them
-/

namespace SchoolAlgebra

/-! ### Where errors and hints stand in a line

Characters that the scanner can take for part of a word are letters, digits and signs of ASCII, so
each of them is one unit wide. Any other character is skipped and is never where an error stands. -/

theorem Text.charUnits_of_isDigit {c : Char} (h : c.isDigit = true) : charUnits c = 1 := by
  have hle : c.toNat ≤ 57 := (Char.isDigit_iff_toNat.mp h).2
  exact if_pos (by omega)

theorem Text.charUnits_of_isAlpha {c : Char} (h : c.isAlpha = true) : charUnits c = 1 := by
  have hle : c.toNat ≤ 'Z'.toNat ∨ c.toNat ≤ 'z'.toNat := by
    simp only [Char.isAlpha, Char.isUpper, Char.isLower, Bool.or_eq_true, Bool.and_eq_true,
      decide_eq_true_eq] at h
    exact h.imp And.right And.right
  have hZ : 'Z'.toNat = 90 := rfl
  have hz : 'z'.toNat = 122 := rfl
  exact if_pos (by omega)

theorem Text.charUnits_of_mem_signs : ∀ c ∈ Lexeme.signs, charUnits c = 1 := by
  simp [Lexeme.signs, charUnits]

/-- A character that can be told to belong to a word is one unit wide. -/
theorem Lexeme.ReadableAt.exists_charUnits_eq_one {chars : List Char} {k : Nat}
    (h : ReadableAt chars k) : ∃ c, chars[k]? = some c ∧ Text.charUnits c = 1 := by
  obtain ⟨c, hc, hclass⟩ := h
  refine ⟨c, hc, ?_⟩
  obtain hdigit | halpha | hsign | ⟨rfl, -⟩ := hclass
  · exact Text.charUnits_of_isDigit hdigit
  · exact Text.charUnits_of_isAlpha halpha
  · exact Text.charUnits_of_mem_signs c hsign
  · rfl

/-- An error stands at the end of a line or at a character that is one unit wide. -/
theorem Expr.charUnits_of_parse_eq_error {source : String} {error : ParseError}
    (hparse : Expr.parse source = .error error) :
    error.position = source.length ∨
      ∃ c, source.toList[error.position]? = some c ∧ Text.charUnits c = 1 := by
  have hanswer := Expr.ofTokens?_scan source
  rw [hparse] at hanswer
  obtain ⟨before, culprit, behind, last, hscan, -, hread, herror⟩ :=
    ParseState.exists_of_run?_eq_error hanswer
  have hposition : error.position = culprit.span.start := by
    rcases herror with ⟨-, hfinish⟩ | ⟨-, hstep⟩
    · exact ParseState.position_of_finish_eq_error hfinish
    · exact ParseState.position_of_step_eq_error hstep
  have hculprit : culprit ∈ Token.scan source := by
    rw [hscan]
    exact List.mem_append_right _ List.mem_cons_self
  rw [hposition]
  obtain rfl | himplicit | ⟨length, hword, -⟩ :=
    Token.eq_word_of_mem_scanAt (Nat.zero_le _) hculprit
  · exact .inl rfl
  · exact absurd rfl (ParseState.start_ne_of_isImplicitMultiply hscan hread
      (herror.imp And.left And.right) hculprit himplicit)
  · have hpos := (Token.le_length_of_longest? hword).1
    have hreadable := (Lexeme.readableAt_drop _ _ 0).mp (Lexeme.readableAt_of_longest? hword hpos)
    exact .inr hreadable.exists_charUnits_eq_one

theorem Expr.position_le_of_parse_eq_error {source : String} {error : ParseError}
    (hparse : Expr.parse source = .error error) : error.position ≤ source.length := by
  obtain heq | ⟨c, hc, -⟩ := Expr.charUnits_of_parse_eq_error hparse
  · exact Nat.le_of_eq heq
  · exact Nat.le_of_lt (List.getElem?_eq_some_iff.mp hc).1

/-- A hint about what was read from a line is shown in that line. -/
theorem Hint.le_of_mem_lineSpans {source : String} {e : Expr} {h : Hint} {a : Span}
    (hparse : Expr.parse source = .ok e) (hh : h ∈ Hint.ofExpr e) (ha : a ∈ h.lineSpans) :
    a.start ≤ source.length ∧ a.stop ≤ source.length := by
  have hplaces {b : Span} (hb : b ∈ e.places) :
      b.start ≤ source.length ∧ b.stop ≤ source.length := by
    obtain ⟨hlt, hstop⟩ := Expr.lt_of_mem_places hparse hb
    exact ⟨Nat.le_trans (Nat.le_of_lt hlt) hstop, hstop⟩
  have hstands : h.StandsIn e e := Hint.standsIn_of_mem_ofExpr hh
  cases h with
  | commonFactor factor numerator denominator => cases ha
  | likeTerms name exponent terms => exact hplaces (hstands ha)
  | reducibleFraction factor numerator denominator =>
    rw [List.mem_singleton.mp ha]
    exact ⟨(hplaces hstands.1).1, (hplaces hstands.2).2⟩

namespace Editor

/-! ### Findings

Findings are defined over the lines with their offsets, and their offsets count from the beginning
of the document. Nothing in a finding depends on the number of its line. -/

/-- Something to say about a document. Offsets count its characters. -/
inductive Finding where
  /-- At this offset a line turns out not to be an expression. -/
  | error (offset : Nat) (message : String)
  /-- The part of an expression between these offsets can be made simpler. -/
  | hint (start stop : Nat) (message : String)

namespace Finding

/-- Where a finding begins. -/
def start : Finding → Nat
  | error offset _ => offset
  | hint start _ _ => start

/-- Where what a finding is about ends. An error is about no stretch of text. -/
def stop : Finding → Nat
  | error offset _ => offset
  | hint _ stop _ => stop

/-- The diagnostic of a finding, when the characters of a class end lines. The one of an error is a
unit wide. -/
def locate (isEnd : Char → Bool) (document : String) : Finding → Diagnostic
  | error offset message =>
    let p := positionAt isEnd document offset
    ⟨p, ⟨p.line, p.character + 1⟩, message, .error⟩
  | hint start stop message =>
    ⟨positionAt isEnd document start, positionAt isEnd document stop, message, .information⟩

theorem start_locate (isEnd : Char → Bool) (document : String) (f : Finding) :
    (f.locate isEnd document).start = positionAt isEnd document f.start := by
  cases f <;> rfl

theorem line_stop_locate (isEnd : Char → Bool) (document : String) (f : Finding) :
    (f.locate isEnd document).stop.line = (positionAt isEnd document f.stop).line := by
  cases f <;> rfl

/-- Only the positions of the two ends matter. -/
theorem locate_congr {isEnd isEnd' : Char → Bool} {document : String} {f : Finding}
    (hstart : positionAt isEnd document f.start = positionAt isEnd' document f.start)
    (hstop : positionAt isEnd document f.stop = positionAt isEnd' document f.stop) :
    f.locate isEnd document = f.locate isEnd' document := by
  cases f with
  | error offset message =>
    simp only [Finding.start] at hstart
    simp only [locate, hstart]
  | hint start stop message =>
    simp only [Finding.start, Finding.stop] at hstart hstop
    simp only [locate, hstart, hstop]

/-- The findings in a line that begins at an offset. -/
def ofLine (offset : Nat) (content : String) : List Finding :=
  match Expr.parse content with
  | .error e => [error (offset + e.position) e.message]
  | .ok e => (Hint.ofExpr e).flatMap fun h =>
    h.lineSpans.map fun a => hint (offset + a.start) (offset + a.stop) h.describe

end Finding

/-- The findings in a document, blank lines left out. -/
def findings (document : String) : List Finding :=
  (Text.placedLines document).flatMap fun (offset, content) =>
    if Text.trimBlanks content = "" then [] else Finding.ofLine offset content

variable {document content : String} {offset j k : Nat} {f : Finding}

/-! ### The diagnostics of a line -/

/-- An offset in a line has the number of the line and the units before it. -/
theorem positionAt_of_placedLines
    (h : (Text.placedLines document)[j]? = some (offset, content)) (hk : k ≤ content.length) :
    positionAt Text.isLineEnd document (offset + k) = ⟨j, Text.unitOffset content k⟩ := by
  obtain ⟨before, behind, hdocument, rfl, hafter, hline⟩ := exists_eq_of_placedLines h
  have htake : document.toList.take (before.length + k) = before ++ content.toList.take k := by
    rw [hdocument, List.take_length_add_append, List.take_append_of_le_length hk]
  have hends : ∀ c ∈ content.toList.take k, Text.isLineEnd c = false :=
    fun c hc => hline c (List.mem_of_mem_take hc)
  have hhead : (content.toList.take k).head? ≠ some '\n' := by
    intro hhead
    exact absurd (hends _ (List.mem_of_head? hhead)) (by decide)
  rw [positionAt, htake, Position.after_append hhead, hafter,
    Position.after_of_forall (by decide) hends, Nat.zero_add, Text.unitOffset_eq_units hk]

/-- Behind a character of one unit, and past the end, the next offset is one unit further. -/
theorem unitOffset_succ
    (h : k = content.length ∨ ∃ c, content.toList[k]? = some c ∧ Text.charUnits c = 1) :
    Text.unitOffset content (k + 1) = Text.unitOffset content k + 1 := by
  simp only [Text.unitOffset]
  obtain rfl | ⟨c, hc, hwidth⟩ := h
  · rw [← String.length_toList, List.take_of_length_le (Nat.le_succ _), List.take_length]
    omega
  · have hlt := (List.getElem?_eq_some_iff.mp hc).1
    rw [List.take_add_one, hc, Option.toList_some, Text.units_append, Text.units_cons, hwidth]
    simp only [Text.units_nil]
    omega

/-- **The diagnostics of a line are its findings.** -/
theorem ofLine_eq_map_locate (h : (Text.placedLines document)[j]? = some (offset, content)) :
    Diagnostic.ofLine j content =
      (Finding.ofLine offset content).map (Finding.locate Text.isLineEnd document) := by
  unfold Diagnostic.ofLine Finding.ofLine
  cases hparse : Expr.parse content with
  | error e =>
    have hposition := positionAt_of_placedLines h (Expr.position_le_of_parse_eq_error hparse)
    have hwidth := unitOffset_succ (Expr.charUnits_of_parse_eq_error hparse)
    simp only [List.map_cons, List.map_nil, Finding.locate, hposition, Diagnostic.ofError,
      Diagnostic.atSpan, hwidth]
  | ok e =>
    rw [List.map_flatMap]
    refine List.flatMap_congr fun hint hhint => ?_
    rw [Diagnostic.ofHint, List.map_map]
    refine List.map_congr_left fun a ha => ?_
    obtain ⟨hstart, hstop⟩ := Hint.le_of_mem_lineSpans hparse hhint ha
    simp only [Function.comp_apply, Finding.locate, positionAt_of_placedLines h hstart,
      positionAt_of_placedLines h hstop, Diagnostic.atSpan]

/-- A finding lies in a line. -/
theorem exists_of_mem_findings (hf : f ∈ findings document) :
    ∃ (j offset : Nat) (content : String),
      (Text.placedLines document)[j]? = some (offset, content) ∧
      ∃ k l, f.start = offset + k ∧ f.stop = offset + l ∧ k ≤ content.length ∧
        l ≤ content.length := by
  obtain ⟨⟨offset, content⟩, hline, hf⟩ := List.mem_flatMap.mp hf
  obtain ⟨j, hj⟩ := List.getElem?_of_mem hline
  refine ⟨j, offset, content, hj, ?_⟩
  dsimp only at hf
  split at hf
  · cases hf
  unfold Finding.ofLine at hf
  split at hf
  · next e hparse =>
    obtain rfl := List.mem_singleton.mp hf
    have hle := Expr.position_le_of_parse_eq_error hparse
    exact ⟨_, _, rfl, rfl, hle, hle⟩
  · next e hparse =>
    obtain ⟨hint, hhint, hf⟩ := List.mem_flatMap.mp hf
    obtain ⟨a, ha, rfl⟩ := List.mem_map.mp hf
    obtain ⟨hstart, hstop⟩ := Hint.le_of_mem_lineSpans hparse hhint ha
    exact ⟨_, _, rfl, rfl, hstart, hstop⟩

/-- A line is a stretch of the document. -/
theorem excerpt_of_placedLines
    (h : (Text.placedLines document)[j]? = some (offset, content)) :
    Span.excerpt ⟨offset, offset + content.length⟩ document = content := by
  obtain ⟨before, behind, hdocument, rfl, -, -⟩ := exists_eq_of_placedLines h
  refine String.toList_inj.mp ?_
  rw [Span.toList_excerpt, hdocument, List.drop_left, Nat.add_sub_cancel_left,
    ← String.length_toList, List.take_left]

/-- All line ends before an offset in a line stand before the line. -/
theorem unknownEnds_take_of_placedLines
    (h : (Text.placedLines document)[j]? = some (offset, content)) (hk : k ≤ content.length) :
    unknownEnds (document.toList.take (offset + k)) =
      unknownEnds (document.toList.take offset) := by
  obtain ⟨before, behind, hdocument, rfl, -, hline⟩ := exists_eq_of_placedLines h
  have hnone : unknownEnds (content.toList.take k) = 0 := by
    refine unknownEnds_eq_zero_iff.mpr fun c hc hend => ?_
    cases (hline c (List.mem_of_mem_take hc)).symm.trans hend
  rw [hdocument, List.take_length_add_append, List.take_append_of_le_length hk,
    List.take_left, unknownEnds, List.countP_append]
  exact congrArg (_ + ·) hnone

/-- The two diagnostics of a finding are the same exactly if editors know all line ends before
it. -/
theorem locate_eq_iff (hf : f ∈ findings document) :
    f.locate Text.isLineEnd document = f.locate isBreak document ↔
      unknownEnds (document.toList.take f.start) = 0 := by
  obtain ⟨j, offset, content, hline, k, l, hstart, hstop, hk, hl⟩ := exists_of_mem_findings hf
  have hends : unknownEnds (document.toList.take f.stop) =
      unknownEnds (document.toList.take f.start) := by
    rw [hstart, hstop, unknownEnds_take_of_placedLines hline hk,
      unknownEnds_take_of_placedLines hline hl]
  constructor
  · intro h
    have hpositions := congrArg Diagnostic.start h
    rw [Finding.start_locate, Finding.start_locate] at hpositions
    exact positionAt_eq_iff.mp hpositions
  · intro h
    exact Finding.locate_congr (positionAt_eq_iff.mpr h) (positionAt_eq_iff.mpr (hends.trans h))

namespace Diagnostic

/-- The diagnostics of a document are its findings. -/
theorem ofDocument_eq (document : String) :
    ofDocument document = (findings document).map (Finding.locate Text.isLineEnd document) := by
  have hlines : (Text.placedLines document).zipIdx.map Prod.fst = Text.placedLines document :=
    List.zipIdx_map_fst ..
  rw [ofDocument, findings, ← Text.map_snd_placedLines, List.zipIdx_map, List.flatMap_map,
    List.map_flatMap]
  nth_rewrite 2 [← hlines]
  rw [List.flatMap_map]
  refine List.flatMap_congr fun line hline => ?_
  obtain ⟨⟨offset, content⟩, j⟩ := line
  have hj := List.mem_zipIdx_iff_getElem?.mp hline
  simp only [Prod.map]
  split
  · rfl
  · exact ofLine_eq_map_locate hj

/-- **Which diagnostics stand where an editor looks for them.** The diagnostics of a document are
its findings, located with all the line ends that `Text.lines` knows. The lines are stretches of the
document. Located for an editor, a finding begins and ends in a line that the editor has; the
diagnostic begins as many lines further down as line ends come before it that editors do not know,
and it is the one for the editor exactly if there are none. -/
theorem ofDocument_eq_map_locate (document : String) :
    ofDocument document = (findings document).map (Finding.locate Text.isLineEnd document) ∧
      (∀ line ∈ Text.placedLines document,
        Span.excerpt ⟨line.1, line.1 + line.2.length⟩ document = line.2) ∧
      ∀ f ∈ findings document,
        (f.locate isBreak document).start.line < lineCount isBreak document ∧
        (f.locate isBreak document).stop.line < lineCount isBreak document ∧
        (f.locate Text.isLineEnd document).start.line =
          (f.locate isBreak document).start.line + unknownEnds (document.toList.take f.start) ∧
        (f.locate Text.isLineEnd document = f.locate isBreak document ↔
          unknownEnds (document.toList.take f.start) = 0) := by
  refine ⟨ofDocument_eq document, ?_, fun f hf => ?_⟩
  · rintro ⟨offset, content⟩ hline
    obtain ⟨j, hj⟩ := List.getElem?_of_mem hline
    exact excerpt_of_placedLines hj
  · rw [Finding.start_locate, Finding.start_locate, Finding.line_stop_locate]
    exact ⟨line_positionAt_lt .., line_positionAt_lt .., line_positionAt .., locate_eq_iff hf⟩

/-- A form feed is no line end for an editor: the second of the two lines is the end of its first
one. -/
theorem not_forall_ofDocument_eq_map_locate :
    ¬ ∀ document,
      ofDocument document = (findings document).map (Finding.locate isBreak document) := by
  intro h
  exact absurd (h "\x0c6/4") (by decide +kernel)

end Diagnostic

end Editor

end SchoolAlgebra
