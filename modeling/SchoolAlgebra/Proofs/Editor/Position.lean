import Mathlib.Data.List.Basic
import SchoolAlgebra.Editor.Diagnostic
import SchoolAlgebra.Proofs.Text.Lines

/-!
# Positions in a document

A position counts lines, and what a line is depends on which characters end one. For an editor these
are the line feed and the carriage return, the two in a row being one end. `Text.lines` knows more
of them. So the position of an offset is defined for any class of line ends, and the two classes are
compared: `Text.lines` counts every end that editors do not know as one line too many.

## Two line ends that are one

A carriage return and a line feed in a row are one end. The position behind a text is therefore not
a sum over its parts: between two parts such a pair may be torn apart. The statements about parts of
a text ask that the second one does not begin with a line feed, or that the first one has no line
ends at all. Lines are taken from `Text.placedLines`, where a text is divided before and behind
whole line ends.

## Main definitions

* `Position.after` — the position behind a text
* `Editor.positionAt`, `Editor.lineCount` — the position of an offset, the number of lines

## Main results

* `Editor.exists_eq_of_placedLines` — where a line stands, and its position
* `Editor.line_positionAt` — by how much the two counts differ
* `Editor.positionAt_eq_iff` — when they agree
-/

namespace SchoolAlgebra

namespace Editor

/-! ### Positions -/

/-- Whether a character ends a line for an editor. -/
def isBreak (c : Char) : Bool := c = '\n' || c = '\r'

/-- The position behind one character. -/
def Position.next (isEnd : Char → Bool) (p : Position) (c : Char) : Position :=
  if isEnd c then ⟨p.line + 1, 0⟩ else ⟨p.line, p.character + Text.charUnits c⟩

/-- The position behind a text that begins at a position, when the characters of a class end
lines. A carriage return and a line feed in a row are one end. -/
def Position.after (isEnd : Char → Bool) (p : Position) : List Char → Position
  | [] => p
  | '\r' :: '\n' :: rest => Position.after isEnd ⟨p.line + 1, 0⟩ rest
  | c :: rest => Position.after isEnd (p.next isEnd c) rest

/-- The position of an offset in a text. -/
def positionAt (isEnd : Char → Bool) (text : String) (offset : Nat) : Position :=
  Position.after isEnd ⟨0, 0⟩ (text.toList.take offset)

/-- The number of lines of a text. -/
def lineCount (isEnd : Char → Bool) (text : String) : Nat :=
  (Position.after isEnd ⟨0, 0⟩ text.toList).line + 1

variable {isEnd : Char → Bool} {p q : Position} {chars rest : List Char} {c : Char}

/-- Before a text that does not begin with a line feed, no part from its beginning does. -/
theorem head?_ne_lineFeed {before behind : List Char}
    (h : ∀ tail, c = '\r' → rest = '\n' :: tail → False) (hrest : rest = before ++ behind) :
    c = '\r' → before.head? ≠ some '\n' := by
  intro hc hhead
  obtain ⟨tail, rfl⟩ := List.head?_eq_some_iff.mp hhead
  exact h (tail ++ behind) hc hrest

namespace Position

theorem line_le_next (p : Position) (c : Char) : p.line ≤ (p.next isEnd c).line := by
  rw [next]
  split
  · exact Nat.le_succ _
  · exact Nat.le_refl _

theorem line_next_le (p : Position) (c : Char) : (p.next isEnd c).line ≤ p.line + 1 := by
  rw [next]
  split
  · exact Nat.le_refl _
  · exact Nat.le_succ _

theorem after_cons (h : c = '\r' → rest.head? ≠ some '\n') (p : Position) :
    Position.after isEnd p (c :: rest) = Position.after isEnd (p.next isEnd c) rest := by
  refine after.eq_3 isEnd p c rest ?_
  rintro rest' rfl rfl
  exact h rfl rfl

/-- Behind a text the position goes on, unless a carriage return and a line feed are torn apart. -/
theorem after_append (h : rest.head? ≠ some '\n') (p : Position) (chars : List Char) :
    Position.after isEnd p (chars ++ rest) =
      Position.after isEnd (Position.after isEnd p chars) rest := by
  fun_induction Position.after isEnd p chars with
  | case1 => rfl
  | case2 p tail ih => exact ih
  | case3 p c tail hc ih =>
    have hnext : c = '\r' → (tail ++ rest).head? ≠ some '\n' := by
      rintro rfl
      cases tail with
      | nil => exact h
      | cons d tail => exact fun hd => hc tail rfl (by rw [Option.some.inj hd])
    rw [List.cons_append, after_cons hnext]
    exact ih

/-- A text without line ends at its beginning moves along the line, whatever comes next. -/
theorem after_append_of_forall (hreturn : isEnd '\r' = true)
    (h : ∀ c ∈ chars, isEnd c = false) (p : Position) (rest : List Char) :
    Position.after isEnd p (chars ++ rest) =
      Position.after isEnd ⟨p.line, p.character + Text.units chars⟩ rest := by
  induction chars generalizing p with
  | nil => rfl
  | cons c chars ih =>
    obtain ⟨hc, hchars⟩ := List.forall_mem_cons.mp h
    have hne : c = '\r' → (chars ++ rest).head? ≠ some '\n' := by
      rintro rfl
      exact absurd (hreturn.symm.trans hc) (by decide)
    rw [List.cons_append, after_cons hne, ih hchars, next, if_neg (by simp [hc]), Text.units_cons,
      Nat.add_assoc]

/-- A text without line ends moves along the line. -/
theorem after_of_forall (hreturn : isEnd '\r' = true) (h : ∀ c ∈ chars, isEnd c = false)
    (p : Position) :
    Position.after isEnd p chars = ⟨p.line, p.character + Text.units chars⟩ := by
  have happend := after_append_of_forall hreturn h p []
  rwa [List.append_nil] at happend

theorem line_le_after (p : Position) (chars : List Char) :
    p.line ≤ (Position.after isEnd p chars).line := by
  fun_induction Position.after isEnd p chars with
  | case1 => exact Nat.le_refl _
  | case2 p tail ih => exact Nat.le_of_succ_le ih
  | case3 p c tail hc ih => exact Nat.le_trans (line_le_next p c) ih

theorem line_after_le_append (isEnd : Char → Bool) (p : Position) (chars rest : List Char) :
    (Position.after isEnd p chars).line ≤ (Position.after isEnd p (chars ++ rest)).line := by
  fun_induction Position.after isEnd p chars with
  | case1 p => exact line_le_after p rest
  | case2 p tail ih => exact ih
  | case3 p c tail hc ih =>
    by_cases h : c = '\r' → (tail ++ rest).head? ≠ some '\n'
    · rw [List.cons_append, after_cons h]
      exact ih
    · -- the carriage return is the last character, and the line feed the next one
      obtain ⟨rfl, hhead⟩ := Classical.not_imp.mp h
      have hhead : (tail ++ rest).head? = some '\n' := Classical.not_not.mp hhead
      cases tail with
      | cons d tail =>
        obtain rfl := Option.some.inj hhead
        exact (hc tail rfl rfl).elim
      | nil =>
        cases rest with
        | nil => cases hhead
        | cons d rest =>
          obtain rfl := Option.some.inj hhead
          exact Nat.le_trans (line_next_le p _) (line_le_after ⟨p.line + 1, 0⟩ rest)

/-- What ends lines elsewhere than in the text does not matter. -/
theorem after_congr {isEnd' : Char → Bool} (h : ∀ c ∈ chars, isEnd c = isEnd' c) (p : Position) :
    Position.after isEnd p chars = Position.after isEnd' p chars := by
  fun_induction Position.after isEnd p chars with
  | case1 => rfl
  | case2 p tail ih =>
    exact ih fun c hc => h c (List.mem_cons_of_mem _ (List.mem_cons_of_mem _ hc))
  | case3 p c tail hc ih =>
    obtain ⟨hhead, htail⟩ := List.forall_mem_cons.mp h
    have hne := head?_ne_lineFeed hc (List.append_nil tail).symm
    rw [after_cons hne, ih htail, next, next, hhead]

end Position

/-! ### Two classes of line ends

Both classes hold the line feed and the carriage return, so they treat a pair of them alike. They
differ by one line at each of the other ends, whatever stands around it, and the difference of two
positions is a count. -/

/-- The number of line ends that are none for an editor. -/
def unknownEnds (chars : List Char) : Nat := chars.countP fun c => Text.isLineEnd c && !isBreak c

theorem isLineEnd_of_isBreak (h : isBreak c = true) : Text.isLineEnd c = true := by
  simp only [isBreak, Bool.or_eq_true, decide_eq_true_eq] at h
  rcases h with rfl | rfl <;> decide

theorem unknownEnds_cons (c : Char) (chars : List Char) :
    unknownEnds (c :: chars) = unknownEnds [c] + unknownEnds chars := by
  rw [unknownEnds, ← List.singleton_append, List.countP_append]
  rfl

theorem unknownEnds_eq_zero_iff :
    unknownEnds chars = 0 ↔ ∀ c ∈ chars, Text.isLineEnd c = true → isBreak c = true := by
  simp [unknownEnds, List.countP_eq_zero]

/-- Every end that editors do not know counts as one line more. -/
theorem Position.line_after_isLineEnd {n : Nat} (h : p.line = q.line + n) (chars : List Char) :
    (Position.after Text.isLineEnd p chars).line =
      (Position.after isBreak q chars).line + (n + unknownEnds chars) := by
  fun_induction Position.after Text.isLineEnd p chars generalizing q n with
  | case1 => exact h
  | case2 p tail ih =>
    exact ih (q := ⟨q.line + 1, 0⟩) (by simp only; omega)
  | case3 p c tail hc ih =>
    have hne := head?_ne_lineFeed hc (List.append_nil tail).symm
    rw [after_cons hne]
    -- a line feed or a carriage return ends a line for both
    have hstep : ((p.next Text.isLineEnd c).line : Nat) =
        (q.next isBreak c).line + (n + unknownEnds [c]) := by
      have hbreak : isBreak c = true → Text.isLineEnd c = true := isLineEnd_of_isBreak
      cases hend : Text.isLineEnd c <;> cases hb : isBreak c <;>
        simp_all [next, unknownEnds] <;> omega
    have hends := unknownEnds_cons c tail
    rw [ih hstep]
    omega

variable {text : String} {k : Nat}

theorem line_positionAt (text : String) (k : Nat) :
    (positionAt Text.isLineEnd text k).line =
      (positionAt isBreak text k).line + unknownEnds (text.toList.take k) := by
  have h := Position.line_after_isLineEnd (p := ⟨0, 0⟩) (q := ⟨0, 0⟩) (n := 0) rfl
    (text.toList.take k)
  rwa [Nat.zero_add] at h

/-- **The two positions of an offset agree exactly if editors know all line ends before it.** -/
theorem positionAt_eq_iff :
    positionAt Text.isLineEnd text k = positionAt isBreak text k ↔
      unknownEnds (text.toList.take k) = 0 := by
  constructor
  · intro h
    have hline := line_positionAt text k
    rw [h] at hline
    omega
  · intro h
    refine Position.after_congr (fun c hc => ?_) _
    rw [Bool.eq_iff_iff]
    exact ⟨unknownEnds_eq_zero_iff.mp h c hc, isLineEnd_of_isBreak⟩

theorem line_positionAt_lt (isEnd : Char → Bool) (text : String) (k : Nat) :
    (positionAt isEnd text k).line < lineCount isEnd text := by
  have h := Position.line_after_le_append isEnd ⟨0, 0⟩ (text.toList.take k)
    (text.toList.drop k)
  rw [List.take_append_drop] at h
  exact Nat.lt_succ_of_le h

/-! ### Where the lines stand

Behind a line end the position is the start of the next line, and the text behind it may itself
begin with a line feed. So what is moved over is always a whole line end, never the first half of
one, and the induction goes over the lines. -/

/-- A whole line end leads to the start of the next line. -/
theorem Position.after_take_endLength {behind before : List Char}
    (hne : behind ≠ []) (hend : ∀ c ∈ behind.head?, Text.isLineEnd c = true)
    (hbefore : before <+: behind.drop (Text.endLength behind)) (p : Position) :
    Position.after Text.isLineEnd p (behind.take (Text.endLength behind) ++ before) =
      Position.after Text.isLineEnd ⟨p.line + 1, 0⟩ before := by
  cases behind with
  | nil => exact absurd rfl hne
  | cons c rest =>
    by_cases hfeed : c = '\r' ∧ rest.head? = some '\n'
    · obtain ⟨rfl, hhead⟩ := hfeed
      obtain ⟨tail, rfl⟩ := List.head?_eq_some_iff.mp hhead
      rfl
    · have hlength : Text.endLength (c :: rest) = 1 := by
        refine Text.endLength.eq_2 _ fun tail htail => hfeed ?_
        obtain ⟨rfl, rfl⟩ := List.cons.inj htail
        exact ⟨rfl, rfl⟩
      rw [hlength] at hbefore ⊢
      obtain ⟨tail, hrest⟩ := hbefore
      have hreturn : c = '\r' → before.head? ≠ some '\n' :=
        head?_ne_lineFeed (fun tail hc htail => hfeed ⟨hc, congrArg List.head? htail⟩)
          hrest.symm
      rw [List.take_succ_cons, List.take_zero, List.singleton_append, after_cons hreturn, next,
        if_pos (hend c rfl)]

/-- **Where a line stands**, for lines from the first one on: the text is divided before and behind
the line, and the line begins at the start of the row that its number tells. -/
theorem exists_eq_of_place {offset k j : Nat} {lines : List String} {line : String}
    (hlines : lines <+: (Text.allPieces chars).map String.ofList)
    (h : (Text.place offset chars lines)[j]? = some (k, line)) (row : Nat) :
    ∃ before behind, chars = before ++ (line.toList ++ behind) ∧ k = offset + before.length ∧
      Position.after Text.isLineEnd ⟨row, 0⟩ before = ⟨row + j, 0⟩ ∧
        ∀ c ∈ line.toList, Text.isLineEnd c = false := by
  induction lines generalizing chars offset row j with
  | nil => simp [Text.place] at h
  | cons first more ih =>
    obtain ⟨hfirst, hmore⟩ := List.cons_prefix_cons.mp hlines
    obtain rfl : String.ofList (Text.pieces chars).1 = first := hfirst.symm
    have hnone : ∀ c ∈ (Text.pieces chars).1, Text.isLineEnd c = false :=
      Text.isLineEnd_eq_false_of_mem_allPieces chars _ List.mem_cons_self
    have hsplit := Text.append_fromEnd chars
    cases j with
    | zero =>
      obtain ⟨rfl, rfl⟩ := Prod.mk.inj (Option.some.inj h)
      rw [String.toList_ofList]
      exact ⟨[], Text.fromEnd chars, hsplit.symm, rfl, rfl, hnone⟩
    | succ j =>
      -- there is a next line, so the text goes on with a line end
      have hbehind : Text.fromEnd chars ≠ [] := by
        intro hnil
        rw [Text.pieces_snd, if_pos hnil] at hmore
        rw [List.prefix_nil.mp hmore] at h
        cases h
      rw [Text.pieces_snd, if_neg hbehind] at hmore
      simp only [Text.place, List.getElem?_cons_succ, String.length_ofList,
        Text.drop_length_pieces] at h
      obtain ⟨before, behind, hrest, hk, hafter, hline⟩ := ih hmore h (row + 1)
      have hlength := List.length_take_of_le (Text.endLength_le hbehind)
      refine ⟨(Text.pieces chars).1 ++
          ((Text.fromEnd chars).take (Text.endLength (Text.fromEnd chars)) ++ before),
        behind, ?_, ?_, ?_, hline⟩
      · rw [List.append_assoc, List.append_assoc, ← hrest, List.take_append_drop, hsplit]
      · rw [hk, List.length_append, List.length_append, hlength]
        omega
      · rw [Position.after_append_of_forall (by decide) hnone,
          Position.after_take_endLength hbehind (fun c => Text.isLineEnd_of_mem_head?_fromEnd c)
            ⟨_, hrest.symm⟩, hafter, Nat.add_right_comm]
        rfl

/-- **Where a line of a text stands.** With all line ends counted, it begins at the position that
its number tells. -/
theorem exists_eq_of_placedLines {j offset : Nat} {line : String}
    (h : (Text.placedLines text)[j]? = some (offset, line)) :
    ∃ before behind, text.toList = before ++ (line.toList ++ behind) ∧ offset = before.length ∧
      Position.after Text.isLineEnd ⟨0, 0⟩ before = ⟨j, 0⟩ ∧
        ∀ c ∈ line.toList, Text.isLineEnd c = false := by
  obtain ⟨before, behind, htext, hoffset, hafter, hline⟩ :=
    exists_eq_of_place (Text.lines_prefix text) h 0
  rw [Nat.zero_add] at hoffset hafter
  exact ⟨before, behind, htext, hoffset, hafter, hline⟩

end Editor

end SchoolAlgebra
