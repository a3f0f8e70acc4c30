import Mathlib.Data.List.Basic
import SchoolAlgebra.Text.Lines

/-!
# The lines of a text and where they begin

`Text.pieces` goes through a text character by character. Here it is described by what it finds: the
first piece reaches up to the first line end, and behind that end the pieces of the rest begin. So a
statement about all lines of a text is proved by induction over the lines, and no proof has to
follow the characters again.

## Where a line begins

The lines alone do not tell where they stand in the text, for a line end may be one character or
two. `Text.place` looks at the text between two lines for this, and finds each line behind the end
of the one before. It is defined over the lines that are given to it, so the lines with their
offsets are by definition the lines.

## Main definitions

* `Text.allPieces` — the pieces of a text, the first one included
* `Text.endLength` — the number of characters of a line end
* `Text.placedLines` — the lines of a text with the offsets at which they begin

## Main results

* `Text.pieces_fst`, `Text.pieces_snd` — the first piece, and those behind it
* `Text.getD_lines` — the lines are the pieces, without an empty last one
* `Text.map_snd_placedLines` — offsets leave the lines as they are
-/

namespace SchoolAlgebra

namespace Text

variable {c : Char} {chars rest : List Char}

/-! ### Pieces

A step of `pieces` is one of two: a line end closes a piece, and any other character joins the piece
that begins behind it. -/

/-- All pieces of a text between its line ends, the first one included. -/
def allPieces (chars : List Char) : List (List Char) := (pieces chars).1 :: (pieces chars).2

theorem allPieces_cons (hc : isLineEnd c = false) :
    allPieces (c :: rest) = (c :: (pieces rest).1) :: (pieces rest).2 := by
  have hreturn : ∀ tail, c = '\r' → rest = '\n' :: tail → False := by
    rintro tail rfl -
    exact absurd hc (by decide)
  simp only [allPieces, pieces.eq_3 c rest hreturn, hc]
  rfl

theorem allPieces_cons_of_isLineEnd (hc : isLineEnd c = true)
    (h : c = '\r' → rest.head? ≠ some '\n') : allPieces (c :: rest) = [] :: allPieces rest := by
  have hreturn : ∀ tail, c = '\r' → rest = '\n' :: tail → False := by
    rintro tail rfl rfl
    exact h rfl rfl
  simp only [allPieces, pieces.eq_3 c rest hreturn, hc]
  rfl

/-- The first piece ends at the first line end. -/
theorem pieces_fst (chars : List Char) :
    (pieces chars).1 = chars.takeWhile fun c => !isLineEnd c := by
  fun_induction pieces chars with
  | case1 => rfl
  | case2 rest line more hpieces ih => rfl
  | case3 c rest hc line more hpieces hend ih => rw [List.takeWhile_cons_of_neg (by simp [hend])]
  | case4 c rest hc line more hpieces hend ih =>
    rw [hpieces] at ih
    rw [List.takeWhile_cons_of_pos (by simp [hend]), ← ih]

/-- No piece has a line end. -/
theorem isLineEnd_eq_false_of_mem_allPieces (chars : List Char) :
    ∀ piece ∈ allPieces chars, ∀ c ∈ piece, isLineEnd c = false := by
  unfold allPieces
  fun_induction pieces chars with
  | case1 => simp
  | case2 rest line more hpieces ih =>
    rw [hpieces] at ih
    exact List.forall_mem_cons.mpr ⟨by simp, ih⟩
  | case3 c rest hc line more hpieces hend ih =>
    rw [hpieces] at ih
    exact List.forall_mem_cons.mpr ⟨by simp, ih⟩
  | case4 c rest hc line more hpieces hend ih =>
    rw [hpieces] at ih
    obtain ⟨hline, hmore⟩ := List.forall_mem_cons.mp ih
    exact List.forall_mem_cons.mpr
      ⟨List.forall_mem_cons.mpr ⟨Bool.eq_false_iff.mpr hend, hline⟩, hmore⟩

/-! ### What stands behind a piece

The rest of a text begins behind the line end that closes its first piece, one or two characters
further. With it the pieces of a text are described by recursion over the lines. -/

/-- The number of characters of the line end that a text begins with. -/
def endLength : List Char → Nat
  | '\r' :: '\n' :: _ => 2
  | _ => 1

theorem endLength_le (h : chars ≠ []) : endLength chars ≤ chars.length := by
  unfold endLength
  split
  · exact Nat.le_add_left 2 _
  · exact List.length_pos_iff.mpr h

/-- The text from the first line end on. -/
def fromEnd (chars : List Char) : List Char := chars.dropWhile fun c => !isLineEnd c

/-- A text is its first piece and what stands from the first line end on. -/
theorem append_fromEnd (chars : List Char) : (pieces chars).1 ++ fromEnd chars = chars := by
  rw [pieces_fst]
  exact List.takeWhile_append_dropWhile

theorem drop_length_pieces (chars : List Char) :
    chars.drop (pieces chars).1.length = fromEnd chars := by
  have hdrop : ((pieces chars).1 ++ fromEnd chars).drop (pieces chars).1.length = fromEnd chars :=
    List.drop_left
  rwa [append_fromEnd] at hdrop

theorem isLineEnd_of_mem_head?_fromEnd : ∀ c ∈ (fromEnd chars).head?, isLineEnd c = true := by
  intro c hc
  have hhead := List.head?_dropWhile_not (fun c => !isLineEnd c) chars
  rw [← fromEnd, Option.mem_def.mp hc] at hhead
  simpa using hhead

/-- **The pieces behind the first one** are those of the text behind the first line end. -/
theorem pieces_snd (chars : List Char) :
    (pieces chars).2 =
      if fromEnd chars = [] then []
      else allPieces ((fromEnd chars).drop (endLength (fromEnd chars))) := by
  fun_induction pieces chars with
  | case1 => rfl
  | case2 rest line more hpieces ih =>
    have hfrom : fromEnd ('\r' :: '\n' :: rest) = '\r' :: '\n' :: rest := rfl
    rw [hfrom, if_neg (List.cons_ne_nil _ _), allPieces]
    simp only [endLength, List.drop_succ_cons, List.drop_zero, hpieces]
  | case3 c rest hc line more hpieces hend ih =>
    have hfrom : fromEnd (c :: rest) = c :: rest := List.dropWhile_cons_of_neg (by simp [hend])
    rw [hfrom, if_neg (List.cons_ne_nil _ _), allPieces, endLength.eq_2 _ fun tail htail => ?_]
    · simp only [List.drop_succ_cons, List.drop_zero, hpieces]
    · obtain ⟨rfl, rfl⟩ := List.cons.inj htail
      exact hc tail rfl rfl
  | case4 c rest hc line more hpieces hend ih =>
    have hfrom : fromEnd (c :: rest) = fromEnd rest :=
      List.dropWhile_cons_of_pos (by simp [hend])
    rw [hpieces] at ih
    rw [hfrom, ← ih]

/-! ### Lines -/

/-- A line of a text is the piece with its number, and there is nothing behind the last one. -/
theorem getD_lines (source : String) (i : Nat) :
    ((lines source)[i]?).getD "" = String.ofList ((allPieces source.toList)[i]?.getD []) := by
  have hdrop : ∀ all : List (List Char), all.getLast? = some [] →
      all.dropLast[i]?.getD [] = all[i]?.getD [] := by
    intro all hlast
    obtain ⟨init, rfl⟩ := List.getLast?_eq_some_iff.mp hlast
    rw [List.dropLast_concat]
    rcases Nat.lt_or_ge i init.length with hlt | hge
    · rw [List.getElem?_append_left hlt]
    · rw [List.getElem?_eq_none hge, List.getElem?_append_right hge]
      cases i - init.length <;> rfl
  have hmap : ∀ all : List (List Char),
      ((all.map String.ofList)[i]?).getD "" = String.ofList (all[i]?.getD []) := by
    intro all
    rw [List.getElem?_map]
    exact Option.getD_map String.ofList [] _
  simp only [lines]
  split
  · next hlast => rw [hmap, hdrop _ hlast]; rfl
  · exact hmap _

/-- The lines are pieces, from the first one on. -/
theorem lines_prefix (text : String) :
    lines text <+: (allPieces text.toList).map String.ofList := by
  simp only [lines]
  split
  · exact (List.dropLast_prefix _).map _
  · exact List.prefix_refl _

/-! ### Lines with their offsets -/

/-- Lines of a text with the offsets at which they begin, each behind the end of the one before. -/
def place (offset : Nat) (chars : List Char) : List String → List (Nat × String)
  | [] => []
  | line :: more =>
    let behind := chars.drop line.length
    (offset, line) ::
      place (offset + line.length + endLength behind) (behind.drop (endLength behind)) more

/-- The lines of a text, without their ends, with the offsets at which they begin. -/
def placedLines (text : String) : List (Nat × String) := place 0 text.toList (lines text)

theorem map_snd_place (offset : Nat) (chars : List Char) (lines : List String) :
    (place offset chars lines).map Prod.snd = lines := by
  induction lines generalizing offset chars with
  | nil => rfl
  | cons line more ih => exact congrArg (line :: ·) (ih ..)

theorem map_snd_placedLines (text : String) : (placedLines text).map Prod.snd = lines text :=
  map_snd_place ..

end Text

end SchoolAlgebra
