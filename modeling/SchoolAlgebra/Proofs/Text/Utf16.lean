import Mathlib.Order.Monotone.Basic
import SchoolAlgebra.Text.Span
import SchoolAlgebra.Text.Units

/-!
# The UTF-16 units of a text

Editors count the characters of a line in UTF-16 units, and a string of a data format denotes such
units. `Text.units` counts them; here they are themselves, as numbers. A text is recovered from its
units, so that two texts with the same units are the same.

## Cutting

What stands between two offsets can be cut out of the characters or out of the units, and the text
that is cut out is the same. For this the offset of a character has to be converted into units,
which is what `Text.unitOffset` does. It keeps the order of offsets, also past the end, where it
goes on in steps of one.

## Main definitions

* `Text.charUtf16`, `Text.utf16` — the units of a character and of a text
* `Text.ofUtf16?` — the text that units encode, if they do

## Main results

* `Text.ofUtf16?_utf16` — a text is recovered from its units
* `Text.unitOffset_strictMono` — offsets in units are in the order of the offsets
* `Text.utf16_excerpt` — the units between two offsets
-/

namespace SchoolAlgebra

namespace Text

/-! ### Units and characters

Two units stand for one character only if the first one is in the range of the high halves and the
second one in that of the low halves. No character has a number in these ranges, and so the units of
one character are told apart from those of the next. -/

/-- The UTF-16 units of a character. -/
def charUtf16 (c : Char) : List Nat :=
  if c.toNat < 0x10000 then [c.toNat]
  else [0xD800 + (c.toNat - 0x10000) / 0x400, 0xDC00 + (c.toNat - 0x10000) % 0x400]

/-- The UTF-16 units of a text. -/
def utf16 (chars : List Char) : List Nat := chars.flatMap charUtf16

/-- The text that UTF-16 units encode, if they do. -/
def ofUtf16? : List Nat → Option (List Char)
  | [] => some []
  | high :: low :: rest =>
    if 0xD800 ≤ high ∧ high < 0xDC00 ∧ 0xDC00 ≤ low ∧ low < 0xE000 then
      (ofUtf16? rest).map
        (Char.ofNat (0x10000 + (high - 0xD800) * 0x400 + (low - 0xDC00)) :: ·)
    else if high.isValidChar then (ofUtf16? (low :: rest)).map (Char.ofNat high :: ·)
    else none
  | [u] => if u.isValidChar then some [Char.ofNat u] else none

theorem ofUtf16?_charUtf16_append (c : Char) (units : List Nat) :
    ofUtf16? (charUtf16 c ++ units) = (ofUtf16? units).map (c :: ·) := by
  have hvalid : c.toNat.isValidChar := c.valid
  rw [charUtf16]
  split
  · next hlow =>
    have hsurrogate : ¬ (0xD800 ≤ c.toNat ∧ c.toNat < 0xDC00) := by
      rcases hvalid with h | h <;> omega
    cases units with
    | nil => simp [ofUtf16?, hvalid]
    | cons u units =>
      rw [List.singleton_append, ofUtf16?, if_neg fun h => hsurrogate ⟨h.1, h.2.1⟩,
        if_pos hvalid, Char.ofNat_toNat]
  · next hhigh =>
    have hmax : c.toNat < 0x110000 := by
      rcases hvalid with h | h <;> omega
    have hcode : 0x10000 + (0xD800 + (c.toNat - 0x10000) / 0x400 - 0xD800) * 0x400 +
        (0xDC00 + (c.toNat - 0x10000) % 0x400 - 0xDC00) = c.toNat := by
      omega
    rw [List.cons_append, List.cons_append, List.nil_append, ofUtf16?, if_pos (by omega), hcode,
      Char.ofNat_toNat]

/-- A text is recovered from its units. -/
theorem ofUtf16?_utf16 (chars : List Char) : ofUtf16? (utf16 chars) = some chars := by
  induction chars with
  | nil => rfl
  | cons c chars ih => rw [utf16, List.flatMap_cons, ofUtf16?_charUtf16_append, ← utf16, ih]; rfl

theorem utf16_toList_inj {s t : String} : utf16 s.toList = utf16 t.toList ↔ s = t := by
  constructor
  · intro h
    have hchars := congrArg ofUtf16? h
    rw [ofUtf16?_utf16, ofUtf16?_utf16] at hchars
    exact String.toList_inj.mp (Option.some.inj hchars)
  · rintro rfl
    rfl

/-! ### Numbers of units -/

theorem units_append (chars rest : List Char) :
    units (chars ++ rest) = units chars + units rest := by
  induction chars with
  | nil => exact (Nat.zero_add _).symm
  | cons c chars ih => rw [List.cons_append, units_cons, units_cons, ih, Nat.add_assoc]

theorem length_charUtf16 (c : Char) : (charUtf16 c).length = charUnits c := by
  rw [charUtf16, charUnits]
  split <;> rfl

theorem utf16_append (chars rest : List Char) : utf16 (chars ++ rest) = utf16 chars ++ utf16 rest :=
  List.flatMap_append

theorem length_utf16 (chars : List Char) : (utf16 chars).length = units chars := by
  induction chars with
  | nil => rfl
  | cons c chars ih =>
    rw [utf16, List.flatMap_cons, List.length_append, length_charUtf16, ← utf16, ih, units_cons]

theorem take_utf16 (chars : List Char) (k : Nat) :
    (utf16 chars).take (units (chars.take k)) = utf16 (chars.take k) := by
  have hsplit := utf16_append (chars.take k) (chars.drop k)
  rw [List.take_append_drop] at hsplit
  rw [hsplit, ← length_utf16, List.take_left]

theorem drop_utf16 (chars : List Char) (k : Nat) :
    (utf16 chars).drop (units (chars.take k)) = utf16 (chars.drop k) := by
  have hsplit := utf16_append (chars.take k) (chars.drop k)
  rw [List.take_append_drop] at hsplit
  rw [hsplit, ← length_utf16, List.drop_left]

/-! ### Offsets in units -/

variable {text : String}

/-- In a text, the offset in units is the number of units before. -/
theorem unitOffset_eq_units {k : Nat} (h : k ≤ text.length) :
    unitOffset text k = units (text.toList.take k) := by
  rw [unitOffset, String.length_toList, Nat.sub_eq_zero_of_le h, Nat.add_zero]

/-- **Offsets in units are in the order of the offsets**, also past the end. -/
theorem unitOffset_strictMono (text : String) : StrictMono (unitOffset text) := by
  refine strictMono_nat_of_lt_succ fun k => ?_
  simp only [unitOffset]
  rcases Nat.lt_or_ge k text.toList.length with hlt | hge
  · have hpos := charUnits_pos text.toList[k]
    rw [List.take_add_one, List.getElem?_eq_getElem hlt, Option.toList_some, units_append,
      units_cons, units_nil]
    omega
  · rw [List.take_of_length_le hge, List.take_of_length_le (Nat.le_succ_of_le hge)]
    omega

/-- **The units between the offsets of a span** are those of its text. -/
theorem utf16_excerpt {a : Span} (hstart : a.start ≤ text.length) (hstop : a.stop ≤ text.length) :
    ((utf16 text.toList).take (unitOffset text a.stop)).drop (unitOffset text a.start) =
      utf16 (a.excerpt text).toList := by
  rw [Span.excerpt, String.toList_ofList, unitOffset_eq_units hstop, take_utf16]
  rcases Nat.le_total a.start a.stop with hle | hle
  · have htake : text.toList.take a.start = (text.toList.take a.stop).take a.start := by
      rw [List.take_take, Nat.min_eq_left hle]
    rw [unitOffset_eq_units hstart, htake, drop_utf16]
  · have hunits := (unitOffset_strictMono text).monotone hle
    rw [unitOffset_eq_units hstop, ← length_utf16] at hunits
    have hlength : (text.toList.take a.stop).length ≤ a.start :=
      Nat.le_trans (List.length_take_le ..) hle
    rw [List.drop_of_length_le hunits, List.drop_of_length_le hlength]
    rfl

end Text

end SchoolAlgebra
