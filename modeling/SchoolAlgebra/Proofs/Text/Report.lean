import Mathlib.Data.List.DropRight
import SchoolAlgebra.Proofs.Text.Lines
import SchoolAlgebra.Text.Location

/-!
# The line that a report quotes

A report quotes a line of the source and has a caret below it. The line that it is about stands
between two line feeds, and its number and the column of the caret count from these. What is quoted
is found by the same number among `Text.lines`, which ends lines at other characters too. So the
report quotes as many lines too far up as there are other line ends above, and where one stands in
the line itself, at most a part of the line.

## Two ways of counting

The number of a line tells how many line feeds stand above it. `Text.lines` counts these too, a
carriage return before a line feed included with it, and every other line end besides. The text
above a line consists of whole lines, and over such texts the two counts are compared by induction.
What is quoted is then known: with no other ends above and none in the line itself it is the line,
and otherwise it may still happen to have the same text.

## Main definitions

* `Text.lineAt`, `Text.textAbove` — the line that holds an offset, and the text above it
* `Text.otherEnds` — the number of line ends that are not counted
* `Text.PointsAt` — a report shows the line and has its caret below the offset

## Main results

* `Text.getElem?_splitOn_lineAt` — the line that holds an offset, and its number
* `Text.getD_lines_lineNumber` — where that line begins among `Text.lines`
* `Text.pointsAt_report_of_lineFeeds` — with line feeds alone, every report points at its offset
* `Text.pointsAt_report_iff` — which reports point at their offset
-/

namespace SchoolAlgebra

namespace Text

/-! ### The line that holds an offset

A source is divided into what stands above the line, the line, and the rest. The division is found
from the offset, to both sides up to the next line feed, and numbers of lines and columns count in
its parts. -/

/-- The text above the line that holds an offset. -/
def textAbove (source : String) (offset : Nat) : List Char :=
  (source.toList.take offset).rdropWhile (· != '\n')

/-- What stands before an offset in its line. -/
def lineBefore (source : String) (offset : Nat) : List Char :=
  (source.toList.take offset).rtakeWhile (· != '\n')

/-- What stands in its line from an offset on. -/
def lineFrom (source : String) (offset : Nat) : List Char :=
  (source.toList.drop offset).takeWhile (· != '\n')

/-- The line that holds an offset, when line feeds alone end lines. -/
def lineAt (source : String) (offset : Nat) : List Char :=
  lineBefore source offset ++ lineFrom source offset

/-- The line that holds an offset as it is shown, without the carriage return at its end. -/
def shownLine (source : String) (offset : Nat) : List Char :=
  if (lineAt source offset).getLast? = some '\r' then (lineAt source offset).dropLast
  else lineAt source offset

/-- A text consists of whole lines: there is none, or it ends with a line feed. -/
def WholeLines (chars : List Char) : Prop := chars = [] ∨ ∃ init, chars = init ++ ['\n']

variable {source : String} {offset : Nat} {c : Char} {chars front rest : List Char}

theorem lineFeed_notMem_lineBefore (source : String) (offset : Nat) :
    '\n' ∉ lineBefore source offset :=
  fun h => absurd (List.mem_rtakeWhile_imp h) (by decide)

theorem lineFeed_notMem_lineAt (source : String) (offset : Nat) : '\n' ∉ lineAt source offset := by
  intro h
  rcases List.mem_append.mp h with h | h
  · exact lineFeed_notMem_lineBefore source offset h
  · exact absurd (List.mem_takeWhile_imp h) (by decide)

/-- The text above a line consists of whole lines. -/
theorem wholeLines_textAbove (source : String) (offset : Nat) :
    WholeLines (textAbove source offset) := by
  rw [WholeLines, or_iff_not_imp_left]
  intro hne
  have hlast := List.rdropWhile_last_not (· != '\n') (source.toList.take offset) hne
  have hfeed : (textAbove source offset).getLast hne = '\n' := by
    rw [Bool.not_eq_true, bne_eq_false_iff_eq] at hlast
    exact hlast
  exact ⟨(textAbove source offset).dropLast, by rw [← hfeed, List.dropLast_append_getLast]⟩

theorem take_eq (source : String) (offset : Nat) :
    source.toList.take offset = textAbove source offset ++ lineBefore source offset :=
  List.rdropWhile_append_rtakeWhile.symm

/-- **A source is divided** into the text above a line, the line, and what the line feed behind it
begins. -/
theorem exists_eq_append_lineAt (source : String) (offset : Nat) :
    ∃ below, source.toList = textAbove source offset ++ (lineAt source offset ++ below) ∧
      (below = [] ∨ ∃ tail, below = '\n' :: tail) := by
  refine ⟨(source.toList.drop offset).dropWhile (· != '\n'), ?_, ?_⟩
  · have hfrom := List.takeWhile_append_dropWhile (p := (· != '\n'))
      (l := source.toList.drop offset)
    have htake := take_eq source offset
    rw [lineAt, List.append_assoc, lineFrom, hfrom, ← List.append_assoc, ← htake,
      List.take_append_drop]
  · have hhead := List.head?_dropWhile_not (· != '\n') (source.toList.drop offset)
    cases hbelow : (source.toList.drop offset).dropWhile (· != '\n') with
    | nil => exact .inl rfl
    | cons c tail =>
      rw [hbelow] at hhead
      have hc : c = '\n' := by simpa using hhead
      exact .inr ⟨tail, by rw [hc]⟩

/-- The number of a line tells the line feeds above it. -/
theorem lineNumber_eq (source : String) (offset : Nat) :
    lineNumber source offset = (textAbove source offset).count '\n' + 1 := by
  rw [lineNumber, take_eq, List.count_append,
    List.count_eq_zero.mpr (lineFeed_notMem_lineBefore source offset), Nat.add_zero]

/-- The number of a column tells the characters before it in the line. -/
theorem columnNumber_eq (h : offset ≤ source.length) :
    columnNumber source offset = (lineBefore source offset).length + 1 := by
  have hlength : (source.toList.take offset).length = offset := by
    rw [List.length_take, String.length_toList, Nat.min_eq_left h]
  have hbefore : ((source.toList.take offset).reverse.takeWhile (· != '\n')).length =
      (lineBefore source offset).length := List.length_reverse.symm
  have hle : (lineBefore source offset).length ≤ offset := by
    have hsum := congrArg List.length (take_eq source offset)
    rw [List.length_append, hlength] at hsum
    omega
  simp only [columnNumber, lineStart, hlength, hbefore]
  omega

theorem length_splitOn (a : Char) (chars : List Char) :
    (chars.splitOn a).length = chars.count a + 1 := by
  induction chars with
  | nil => rfl
  | cons c chars ih =>
    rw [List.splitOn, List.splitOnP_cons_eq_if_modifyHead, List.count_cons]
    split
    · exact congrArg (· + 1) ih
    · rw [List.length_modifyHead]
      exact ih

/-- **The line that holds an offset** is the piece with its number between line feeds. -/
theorem getElem?_splitOn_lineAt (source : String) (offset : Nat) :
    (source.toList.splitOn '\n')[lineNumber source offset - 1]? = some (lineAt source offset) := by
  obtain ⟨below, hsource, hbelow⟩ := exists_eq_append_lineAt source offset
  have hline : ((lineAt source offset ++ below).splitOn '\n')[0]? =
      some (lineAt source offset) := by
    have hsingle := List.splitOn_eq_singleton (lineFeed_notMem_lineAt source offset)
    obtain rfl | ⟨tail, rfl⟩ := hbelow
    · rw [List.append_nil, hsingle]
      rfl
    · rw [List.splitOn_append_cons_self, hsingle]
      rfl
  rw [lineNumber_eq, Nat.add_sub_cancel, hsource]
  obtain hnil | ⟨init, hinit⟩ := wholeLines_textAbove source offset
  · rw [hnil]
    exact hline
  · have hcount : (textAbove source offset).count '\n' = (init.splitOn '\n').length := by
      rw [length_splitOn, hinit, List.count_append]
      rfl
    rw [hcount, hinit, List.append_assoc, List.singleton_append, List.splitOn_append_cons_self,
      List.getElem?_append_right (Nat.le_refl _), Nat.sub_self]
    exact hline

/-! ### The lines between all line ends

Pieces are counted through the text above the line. Every line feed closes one piece there, and so
does every other end, except for the carriage return that belongs to a line feed. -/

/-- The number of line ends that are neither a line feed nor a carriage return before one. -/
def otherEnds : List Char → Nat
  | [] => 0
  | '\r' :: '\n' :: rest => otherEnds rest
  | c :: rest => if isLineEnd c ∧ c ≠ '\n' then otherEnds rest + 1 else otherEnds rest

theorem otherEnds_eq_zero (h : ∀ c ∈ chars, isLineEnd c = true → c = '\n') :
    otherEnds chars = 0 := by
  fun_induction otherEnds chars with
  | case1 => rfl
  | case2 tail ih => exact ih fun c hc => h c (List.mem_cons_of_mem _ (List.mem_cons_of_mem _ hc))
  | case3 c tail hc hend ih => exact absurd (h c List.mem_cons_self hend.1) hend.2
  | case4 c tail hc hend ih => exact ih fun c hc => h c (List.mem_cons_of_mem _ hc)

/-- What is left of whole lines behind their first character are whole lines again. -/
theorem WholeLines.tail (h : WholeLines (c :: rest)) : WholeLines rest := by
  obtain h | ⟨init, h⟩ := h
  · cases h
  · cases init with
    | nil => exact .inl (List.cons.inj h).2
    | cons _ init => exact .inr ⟨init, (List.cons.inj h).2⟩

/-- A character of whole lines that is no line feed has one behind it. -/
theorem WholeLines.lineFeed_mem (h : WholeLines (c :: rest)) (hc : c ≠ '\n') : '\n' ∈ rest := by
  obtain h | ⟨init, h⟩ := h
  · cases h
  · cases init with
    | nil => exact absurd (List.cons.inj h).1 hc
    | cons _ init =>
      rw [(List.cons.inj h).2]
      exact List.mem_append_right _ List.mem_cons_self

/-- **Line ends above.** Every line end of whole lines closes a piece. -/
theorem exists_allPieces_append (h : WholeLines front) (rest : List Char) :
    ∃ init, allPieces (front ++ rest) = init ++ allPieces rest ∧
      init.length = front.count '\n' + otherEnds front := by
  fun_induction otherEnds front with
  | case1 => exact ⟨[], rfl, rfl⟩
  | case2 tail ih =>
    obtain ⟨init, hpieces, hlength⟩ := ih h.tail.tail
    refine ⟨[] :: init, congrArg ([] :: ·) hpieces, ?_⟩
    rw [List.length_cons, hlength, List.count_cons_of_ne (by decide), List.count_cons_self]
    omega
  | case3 c tail hc hend ih =>
    obtain ⟨init, hpieces, hlength⟩ := ih h.tail
    have hreturn : c = '\r' → (tail ++ rest).head? ≠ some '\n' := by
      intro hr hhead
      cases tail with
      | nil => cases h.lineFeed_mem hend.2
      | cons d tail =>
        obtain rfl := Option.some.inj hhead
        exact hc tail hr rfl
    refine ⟨[] :: init, ?_, ?_⟩
    · rw [List.cons_append, allPieces_cons_of_isLineEnd hend.1 hreturn, hpieces]
      rfl
    · rw [List.length_cons, hlength, List.count_cons_of_ne hend.2]
      omega
  | case4 c tail hc hend ih =>
    obtain ⟨init, hpieces, hlength⟩ := ih h.tail
    by_cases hfeed : c = '\n'
    · subst hfeed
      refine ⟨[] :: init, ?_, ?_⟩
      · rw [List.cons_append, allPieces_cons_of_isLineEnd (by decide)
          (fun hreturn => absurd hreturn (by decide)), hpieces]
        rfl
      · rw [List.length_cons, hlength, List.count_cons_self]
        omega
    · -- the character belongs to the first of the pieces, and there is one
      have hc' : isLineEnd c = false :=
        Bool.eq_false_iff.mpr fun hc' => hend ⟨hc', hfeed⟩
      have hpos := List.count_pos_iff.mpr (h.lineFeed_mem hfeed)
      obtain ⟨first, init, rfl⟩ := List.exists_cons_of_length_pos (l := init) (by omega)
      obtain ⟨hfirst, hmore⟩ := List.cons.inj hpieces
      refine ⟨(c :: first) :: init, ?_, ?_⟩
      · rw [List.cons_append, allPieces_cons hc', hfirst, hmore]
        rfl
      · rw [List.count_cons_of_ne hfeed]
        exact hlength

/-! ### What is quoted -/

/-- What is quoted: the line with the number of the line that holds an offset. -/
def quoted (source : String) (offset : Nat) : List Char :=
  (((lines source)[lineNumber source offset - 1]?).getD "").toList

/-- There is no line end in what is quoted. -/
theorem isLineEnd_eq_false_of_mem_quoted (source : String) (offset : Nat) :
    ∀ c ∈ quoted source offset, isLineEnd c = false := by
  rw [quoted, getD_lines, String.toList_ofList]
  cases hpiece : (allPieces source.toList)[lineNumber source offset - 1]? with
  | none => simp
  | some piece =>
    exact isLineEnd_eq_false_of_mem_allPieces _ piece (List.mem_of_getElem? hpiece)

/-- **Where the line that holds an offset begins** among the lines: as many further down than its
number tells as there are other line ends above. -/
theorem getD_lines_lineNumber (source : String) (offset : Nat) :
    ((lines source)[lineNumber source offset - 1 +
        otherEnds (textAbove source offset)]?).getD "" =
      String.ofList ((lineAt source offset).takeWhile fun c => !isLineEnd c) := by
  obtain ⟨below, hsource, hbelow⟩ := exists_eq_append_lineAt source offset
  obtain ⟨init, hpieces, hlength⟩ :=
    exists_allPieces_append (wholeLines_textAbove source offset) (lineAt source offset ++ below)
  have hstop : below.takeWhile (fun c => !isLineEnd c) = [] := by
    obtain rfl | ⟨tail, rfl⟩ := hbelow <;> rfl
  have hfirst : (lineAt source offset ++ below).takeWhile (fun c => !isLineEnd c) =
      (lineAt source offset).takeWhile fun c => !isLineEnd c := by
    rw [List.takeWhile_append, hstop, List.append_nil]
    split
    · next heq => exact ((List.takeWhile_prefix _).eq_of_length heq).symm
    · rfl
  rw [getD_lines, lineNumber_eq, Nat.add_sub_cancel, hsource, hpieces, ← hlength,
    List.getElem?_append_right (Nat.le_refl _), Nat.sub_self, ← hfirst, ← pieces_fst]
  rfl

theorem lineAt_eq (source : String) (offset : Nat) :
    lineAt source offset = shownLine source offset ∨
      lineAt source offset = shownLine source offset ++ ['\r'] := by
  rw [shownLine]
  split
  · next hlast =>
    obtain ⟨init, hinit⟩ := List.getLast?_eq_some_iff.mp hlast
    exact .inr (by rw [hinit, List.dropLast_concat])
  · exact .inl rfl

/-- The line that is shown is read to its end exactly if there is no line end in it. -/
theorem takeWhile_lineAt_eq_iff :
    (lineAt source offset).takeWhile (fun c => !isLineEnd c) = shownLine source offset ↔
      ∀ c ∈ shownLine source offset, isLineEnd c = false := by
  constructor
  · intro h c hc
    rw [← h] at hc
    simpa using List.mem_takeWhile_imp hc
  · intro h
    have hall : ∀ c ∈ shownLine source offset, (!isLineEnd c) = true := fun c hc => by
      rw [h c hc]
      rfl
    obtain heq | heq := lineAt_eq source offset
    · rw [heq, List.takeWhile_eq_self_iff.mpr hall]
    · rw [heq, List.takeWhile_append_of_pos hall]
      exact List.append_nil _

/-- **When the line that holds an offset is quoted**: there is no other line end in it, and it is
the same as the line that has its number. -/
theorem quoted_eq_iff :
    quoted source offset = shownLine source offset ↔
      (∀ c ∈ shownLine source offset, isLineEnd c = false) ∧
        ((lines source)[lineNumber source offset - 1]?).getD "" =
          ((lines source)[lineNumber source offset - 1 +
            otherEnds (textAbove source offset)]?).getD "" := by
  rw [getD_lines_lineNumber]
  constructor
  · intro h
    have hnone : ∀ c ∈ shownLine source offset, isLineEnd c = false :=
      h ▸ isLineEnd_eq_false_of_mem_quoted source offset
    refine ⟨hnone, String.toList_inj.mp ?_⟩
    rw [String.toList_ofList, takeWhile_lineAt_eq_iff.mpr hnone, ← h, quoted]
  · rintro ⟨hnone, heq⟩
    rw [quoted, heq, String.toList_ofList, takeWhile_lineAt_eq_iff.mpr hnone]

/-! ### The rows of a report

The report is divided into rows again by its own line feeds. This is safe as long as no part of it
holds one: not the quoted line, which has no line end at all, and not the message and the name of
the file, of which it is asked. -/

/-- What stands before the line in the row that quotes it. -/
def gutter (source : String) (offset : Nat) : List Char :=
  (toString (lineNumber source offset) ++ " | ").toList

/-- The row below the quoted line, as far as its caret. -/
def caretPad (source : String) (offset : Nat) : List Char :=
  (spaces ((toString (lineNumber source offset)).length + 1) ++ "| " ++
    spaces (lineBefore source offset).length).toList

/-- The rows of a report. -/
def rows (message : String) (offset : Nat) (source fileName : String) : List (List Char) :=
  let number := toString (lineNumber source offset)
  let margin := spaces (number.length + 1)
  [("error: " ++ message).toList,
    (margin ++ "--> " ++ fileName ++ ":" ++ number ++ ":" ++
      toString (columnNumber source offset)).toList,
    (margin ++ "|").toList,
    gutter source offset ++ quoted source offset,
    caretPad source offset ++ ['^']]

/-- A report points at an offset: it shows the line that holds it, and below that a caret in the
column of the offset. -/
structure PointsAt (source : String) (offset : Nat) (report : String) : Prop where
  /-- The last row but one has the number of the line and the line. -/
  quote : (report.toList.splitOn '\n')[3]? = some (gutter source offset ++ shownLine source offset)
  /-- The last row has one caret. It stands below the character at the offset, or just behind the
  line if the line ends there. -/
  caret : ∃ pad, (report.toList.splitOn '\n')[4]? = some (pad ++ ['^']) ∧ '^' ∉ pad ∧
    pad.length = (gutter source offset).length +
      min (lineBefore source offset).length (shownLine source offset).length
  /-- There are no more rows than these. -/
  length : (report.toList.splitOn '\n').length = 5

variable {message fileName : String}

theorem length_caretPad (source : String) (offset : Nat) :
    (caretPad source offset).length =
      (gutter source offset).length + (lineBefore source offset).length := by
  have hbar : "| ".length = 2 := rfl
  have hgutter : " | ".length = 3 := rfl
  simp only [caretPad, gutter, spaces, String.toList_append, String.toList_ofList,
    List.length_append, List.length_replicate, String.length_toList, hbar, hgutter]

theorem notMem_spaces {c : Char} (hc : c ≠ ' ') (count : Nat) : c ∉ (spaces count).toList := by
  rw [spaces, String.toList_ofList]
  exact fun h => hc (List.eq_of_mem_replicate h)

theorem caret_notMem_caretPad (source : String) (offset : Nat) : '^' ∉ caretPad source offset := by
  simp [caretPad, notMem_spaces]

theorem lineFeed_notMem_toDigits (n : Nat) : '\n' ∉ Nat.toDigits 10 n := fun h =>
  absurd (Nat.isDigit_of_mem_toDigits (by decide) (by decide) h) (by decide)

/-- A report consists of its rows, with line feeds between them. -/
theorem toList_report (hoffset : offset ≤ source.length) :
    (report message offset source fileName).toList =
      ['\n'].intercalate (rows message offset source fileName) := by
  have hbreak : "\n".toList = ['\n'] := by decide
  have hcaret : "^".toList = ['^'] := by decide
  have hbar : "|\n".toList = "|".toList ++ ['\n'] := by decide
  unfold report rows
  simp only [columnNumber_eq hoffset, Nat.add_sub_cancel, gutter, quoted, caretPad,
    String.toList_append, hbreak, hcaret, hbar, List.intercalate, List.intersperse,
    List.flatten_cons, List.flatten_nil, List.append_assoc, List.append_nil]

/-- No row has a line feed in it. -/
theorem lineFeed_notMem_of_mem_rows (hmessage : '\n' ∉ message.toList)
    (hname : '\n' ∉ fileName.toList) :
    ∀ row ∈ rows message offset source fileName, '\n' ∉ row := by
  have hquoted : '\n' ∉ quoted source offset := fun h =>
    absurd (isLineEnd_eq_false_of_mem_quoted source offset _ h) (by decide)
  have hspaces : ∀ count, '\n' ∉ (spaces count).toList := notMem_spaces (by decide)
  simp [rows, gutter, caretPad, lineFeed_notMem_toDigits, hmessage, hname, hquoted, hspaces]

/-- **The rows of a report** are divided by its line feeds. -/
theorem splitOn_report (hmessage : '\n' ∉ message.toList) (hname : '\n' ∉ fileName.toList)
    (hoffset : offset ≤ source.length) :
    (report message offset source fileName).toList.splitOn '\n' =
      rows message offset source fileName := by
  have hne : rows message offset source fileName ≠ [] := List.cons_ne_nil _ _
  rw [toList_report hoffset,
    List.splitOn_intercalate '\n' (lineFeed_notMem_of_mem_rows hmessage hname) hne]

/-- A report points at its offset if the line is quoted and the offset is not behind what is
shown. -/
theorem pointsAt_report_iff_quoted (hmessage : '\n' ∉ message.toList)
    (hname : '\n' ∉ fileName.toList) (hoffset : offset ≤ source.length) :
    PointsAt source offset (report message offset source fileName) ↔
      quoted source offset = shownLine source offset ∧
        (lineBefore source offset).length ≤ (shownLine source offset).length := by
  have hrows := splitOn_report hmessage hname hoffset
  have hlength := length_caretPad source offset
  constructor
  · rintro ⟨hquote, ⟨pad, hcaret, -, hpad⟩, -⟩
    rw [hrows] at hquote hcaret
    have hlast : caretPad source offset = pad :=
      List.append_cancel_right (Option.some.inj hcaret)
    rw [← hlast] at hpad
    exact ⟨List.append_cancel_left (Option.some.inj hquote), by omega⟩
  · rintro ⟨hquote, hle⟩
    refine ⟨?_, ⟨caretPad source offset, ?_, caret_notMem_caretPad _ _, ?_⟩, ?_⟩
    · rw [hrows, ← hquote]
      rfl
    · rw [hrows]
      rfl
    · omega
    · rw [hrows]
      rfl

/-- Where line feeds alone end lines, every report points at its offset. -/
theorem pointsAt_report_of_lineFeeds (hmessage : '\n' ∉ message.toList)
    (hname : '\n' ∉ fileName.toList) (hoffset : offset ≤ source.length)
    (hends : ∀ c ∈ source.toList, isLineEnd c = true → c = '\n') :
    PointsAt source offset (report message offset source fileName) := by
  obtain ⟨below, hsource, -⟩ := exists_eq_append_lineAt source offset
  rw [hsource] at hends
  have habove : otherEnds (textAbove source offset) = 0 :=
    otherEnds_eq_zero fun c hc => hends c (List.mem_append_left _ hc)
  have hnone : ∀ c ∈ lineAt source offset, isLineEnd c = false := fun c hc =>
    Bool.eq_false_iff.mpr fun hend => lineFeed_notMem_lineAt source offset
      (hends c (List.mem_append_right _ (List.mem_append_left _ hc)) hend ▸ hc)
  have hshown : shownLine source offset = lineAt source offset :=
    if_neg fun hlast => absurd (hnone _ (List.mem_of_getLast? hlast)) (by decide)
  refine (pointsAt_report_iff_quoted hmessage hname hoffset).mpr ⟨?_, ?_⟩
  · rw [quoted_eq_iff, hshown, habove, Nat.add_zero]
    exact ⟨hnone, rfl⟩
  · rw [hshown, lineAt, List.length_append]
    exact Nat.le_add_right ..

/-- **Which reports point at their offset**, for every message and every name of a file that are in
one row. They are those on a line that has no other line end in it and is the same as the line that
is quoted, which stands as many lines further up as there are other line ends above. The offset must
not be behind a carriage return at the end of the line. -/
theorem pointsAt_report_iff (message source fileName : String) (offset : Nat)
    (hmessage : '\n' ∉ message.toList) (hname : '\n' ∉ fileName.toList)
    (hoffset : offset ≤ source.length) :
    PointsAt source offset (report message offset source fileName) ↔
      (∀ c ∈ shownLine source offset, isLineEnd c = false) ∧
      ((lines source)[lineNumber source offset - 1]?).getD "" =
        ((lines source)[lineNumber source offset - 1 +
          otherEnds (textAbove source offset)]?).getD "" ∧
      (lineBefore source offset).length ≤ (shownLine source offset).length := by
  rw [pointsAt_report_iff_quoted hmessage hname hoffset, quoted_eq_iff, and_assoc]

/-- Not every report points at its offset: with a form feed in the first line, the report on the
second one quotes the end of the first. -/
theorem not_forall_pointsAt_report :
    ¬ ∀ (message source fileName : String) (offset : Nat), '\n' ∉ message.toList →
      '\n' ∉ fileName.toList → offset ≤ source.length →
      PointsAt source offset (report message offset source fileName) := by
  intro h
  have hquote :=
    (h "Unexpected token: +" "1\x0c+\n+ 2" "<expr>" 4 (by decide) (by decide) (by decide)).quote
  exact absurd hquote (by decide +kernel)

/-- The report on the second of two lines points at its first character, also with a carriage return
before the line feed. -/
theorem pointsAt_report_secondLine :
    ('\n' ∉ "Unexpected token: +".toList ∧ '\n' ∉ "<expr>".toList ∧ 5 ≤ "1 +\r\n+ 2".length) ∧
      PointsAt "1 +\r\n+ 2" 5 (report "Unexpected token: +" 5 "1 +\r\n+ 2" "<expr>") := by
  have hmessage : '\n' ∉ "Unexpected token: +".toList := by decide
  have hname : '\n' ∉ "<expr>".toList := by decide
  have hoffset : 5 ≤ "1 +\r\n+ 2".length := by decide
  have hshown : shownLine "1 +\r\n+ 2" 5 = ['+', ' ', '2'] := by decide +kernel
  refine ⟨⟨hmessage, hname, hoffset⟩, (pointsAt_report_iff _ _ _ _ hmessage hname hoffset).mpr
    ⟨?_, by decide +kernel, by decide +kernel⟩⟩
  rw [hshown]
  simp [isLineEnd]

end Text

end SchoolAlgebra
