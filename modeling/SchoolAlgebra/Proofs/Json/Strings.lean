import Mathlib
import SchoolAlgebra.Json
import SchoolAlgebra.Proofs.Text.Utf16

/-!
# Strings of JSON

A string of JSON denotes UTF-16 units: a character that stands for itself those that encode it, an
escape the one that it names. So also halves of a pair can be escaped that stand for no character.

What is inside a string is determined up to its closing quotation mark, and a text is escaped so
that its own units are read.

## Units and not characters

The grammar lets any unit be written as an escape, also half of a pair without the other half. What
a string denotes is therefore a list of units, which need not be the units of a text. Whether they
are is asked only when a text is read from the string.

## Main definitions

* `Json.Chars` — the characters up to the closing quotation mark, and the units they denote

## Main results

* `Json.Chars.unique` — a string denotes one thing only
* `Json.chars_flatMap_escape` — an escaped text denotes the units of the text
-/

namespace SchoolAlgebra

namespace Json

/-! ### The characters of a string

A quotation mark ends the string, a backslash begins an escape, and anything else from the space on
stands for itself. The three cases exclude each other, so a string is read in one way only. -/

/-- The value of a hexadecimal digit, of either case. -/
def hexValue? (c : Char) : Option Nat :=
  if '0' ≤ c ∧ c ≤ '9' then some (c.toNat - '0'.toNat)
  else if 'a' ≤ c ∧ c ≤ 'f' then some (c.toNat - 'a'.toNat + 10)
  else if 'A' ≤ c ∧ c ≤ 'F' then some (c.toNat - 'A'.toNat + 10)
  else none

/-- The unit that a backslash and a character other than `u` stand for. -/
def escaped? : Char → Option Nat
  | '"' => some 0x22
  | '\\' => some 0x5C
  | '/' => some 0x2F
  | 'b' => some 0x08
  | 'f' => some 0x0C
  | 'n' => some 0x0A
  | 'r' => some 0x0D
  | 't' => some 0x09
  | _ => none

/-- The characters of a string up to the closing quotation mark, the units that they denote, and
what stands behind. -/
inductive Chars : List Char → List Nat → List Char → Prop
  /-- The closing quotation mark. -/
  | close (rest : List Char) : Chars ('"' :: rest) [] rest
  /-- A character that stands for itself. -/
  | plain {c : Char} {chars rest : List Char} {units : List Nat} (hspace : 0x20 ≤ c.toNat)
      (hquote : c ≠ '"') (hslash : c ≠ '\\') (h : Chars chars units rest) :
      Chars (c :: chars) (Text.charUtf16 c ++ units) rest
  /-- An escape of two characters. -/
  | escaped {c : Char} {u : Nat} {chars rest : List Char} {units : List Nat}
      (hc : escaped? c = some u) (h : Chars chars units rest) :
      Chars ('\\' :: c :: chars) (u :: units) rest
  /-- An escape that gives the unit. -/
  | unit {a b c d : Char} {i j k l : Nat} {chars rest : List Char} {units : List Nat}
      (ha : hexValue? a = some i) (hb : hexValue? b = some j) (hc : hexValue? c = some k)
      (hd : hexValue? d = some l) (h : Chars chars units rest) :
      Chars ('\\' :: 'u' :: a :: b :: c :: d :: chars)
        ((4096 * i + 256 * j + 16 * k + l) :: units) rest

/-- **A string ends in one place and denotes one thing.** -/
theorem Chars.unique {chars rest rest' : List Char} {units units' : List Nat}
    (h : Chars chars units rest) (h' : Chars chars units' rest') :
    units = units' ∧ rest = rest' := by
  induction h generalizing units' with
  | close rest =>
    cases h' with
    | close => exact ⟨rfl, rfl⟩
    | plain _ hquote => exact absurd rfl hquote
  | plain hspace hquote hslash h ih =>
    cases h' with
    | close => exact absurd rfl hquote
    | plain _ _ _ h' =>
      obtain ⟨rfl, rfl⟩ := ih h'
      exact ⟨rfl, rfl⟩
    | escaped | unit => exact absurd rfl hslash
  | escaped hc h ih =>
    cases h' with
    | plain _ _ hslash => exact absurd rfl hslash
    | escaped hc' h' =>
      obtain ⟨rfl, rfl⟩ := ih h'
      cases hc.symm.trans hc'
      exact ⟨rfl, rfl⟩
    | unit => cases hc
  | unit ha hb hc hd h ih =>
    cases h' with
    | plain _ _ hslash => exact absurd rfl hslash
    | escaped hc' => cases hc'
    | unit ha' hb' hc' hd' h' =>
      obtain ⟨rfl, rfl⟩ := ih h'
      cases ha.symm.trans ha'
      cases hb.symm.trans hb'
      cases hc.symm.trans hc'
      cases hd.symm.trans hd'
      exact ⟨rfl, rfl⟩

/-! ### Escaped texts

How a character is written depends on its number and on the characters that are allowed. In each
case what is written denotes the units of the character, and so a text, character by character,
denotes its units. -/

theorem hexValue?_digitChar : ∀ n < 16, hexValue? (Nat.digitChar n) = some n := by decide

theorem hexValue?_hexDigit (n : Nat) : hexValue? (hexDigit n) = some (n % 16) :=
  hexValue?_digitChar _ (Nat.mod_lt _ (by decide))

variable {chars rest : List Char} {units : List Nat}

/-- An escaped unit denotes the unit. -/
theorem Chars.unitEscape_append {u : Nat} (hu : u < 0x10000) (h : Chars chars units rest) :
    Chars (unitEscape u ++ chars) (u :: units) rest := by
  have hdigits :
      4096 * (u / 4096 % 16) + 256 * (u / 256 % 16) + 16 * (u / 16 % 16) + u % 16 = u := by
    omega
  have hunit := Chars.unit (hexValue?_hexDigit (u / 4096)) (hexValue?_hexDigit (u / 256))
    (hexValue?_hexDigit (u / 16)) (hexValue?_hexDigit u) h
  rw [hdigits] at hunit
  exact hunit

/-- The escapes of a character denote its units. -/
theorem Chars.unitEscapes_append (c : Char) (h : Chars chars units rest) :
    Chars (unitEscapes c ++ chars) (Text.charUtf16 c ++ units) rest := by
  have hmax : c.toNat < 0x110000 := by
    have hvalid : c.toNat.isValidChar := c.valid
    rcases hvalid with hlow | hhigh <;> omega
  rw [unitEscapes, Text.charUtf16]
  split
  · next hlow => exact h.unitEscape_append hlow
  · rw [List.append_assoc]
    exact (h.unitEscape_append (by omega)).unitEscape_append (by omega)

/-- A character is written in one of three ways: as a backslash and a letter, as itself, or as the
escapes of its units. -/
theorem escape_cases (charset : Charset) (c : Char) :
    (∃ letter u, escape charset c = ['\\', letter] ∧ escaped? letter = some u ∧
        Text.charUtf16 c = [u]) ∨
      (escape charset c = [c] ∧ 0x20 ≤ c.toNat ∧ c ≠ '"' ∧ c ≠ '\\') ∨
        escape charset c = unitEscapes c := by
  fun_cases escape charset c with
  | case8 c hquote hslash _ _ _ _ _ hplain =>
    simp only [isPlain, Bool.and_eq_true, decide_eq_true_eq] at hplain
    exact .inr (.inl ⟨rfl, hplain.1, hquote, hslash⟩)
  | case9 => exact .inr (.inr rfl)
  | _ => exact .inl ⟨_, _, rfl, rfl, rfl⟩

/-- What a character is written as inside a string denotes its units. -/
theorem Chars.escape_append (charset : Charset) (c : Char) (h : Chars chars units rest) :
    Chars (escape charset c ++ chars) (Text.charUtf16 c ++ units) rest := by
  obtain ⟨letter, u, heq, hletter, hunits⟩ | ⟨heq, hspace, hquote, hslash⟩ | heq :=
    escape_cases charset c
  · rw [heq, hunits]
    exact .escaped hletter h
  · rw [heq]
    exact .plain hspace hquote hslash h
  · rw [heq]
    exact h.unitEscapes_append c

/-- **An escaped text denotes its units.** -/
theorem chars_flatMap_escape (charset : Charset) (text rest : List Char) :
    Chars (text.flatMap (escape charset) ++ '"' :: rest) (Text.utf16 text) rest := by
  induction text with
  | nil => exact .close rest
  | cons c text ih =>
    rw [List.flatMap_cons, List.append_assoc, Text.utf16, List.flatMap_cons]
    exact ih.escape_append charset c

/-! ### No control characters -/

theorem space_le_hexDigit (n : Nat) : 0x20 ≤ (hexDigit n).toNat := by
  have hdigits : ∀ d < 16, 0x20 ≤ (Nat.digitChar d).toNat := by decide
  exact hdigits _ (Nat.mod_lt _ (by decide))

theorem space_le_of_mem_unitEscape {u : Nat} {c : Char} (h : c ∈ unitEscape u) :
    0x20 ≤ c.toNat := by
  simp only [unitEscape, List.mem_cons, List.not_mem_nil, or_false] at h
  obtain rfl | rfl | rfl | rfl | rfl | rfl := h
  · decide
  · decide
  all_goals exact space_le_hexDigit _

theorem space_le_of_mem_unitEscapes {c d : Char} (h : d ∈ unitEscapes c) : 0x20 ≤ d.toNat := by
  unfold unitEscapes at h
  dsimp only at h
  split at h
  · exact space_le_of_mem_unitEscape h
  · exact (List.mem_append.mp h).elim space_le_of_mem_unitEscape space_le_of_mem_unitEscape

theorem space_le_of_escaped? {c : Char} {u : Nat} (h : escaped? c = some u) : 0x20 ≤ c.toNat := by
  unfold escaped? at h
  split at h <;> first | decide | cases h

/-- No control character below the space stands in a string. -/
theorem space_le_of_mem_escape {charset : Charset} {c d : Char} (h : d ∈ escape charset c) :
    0x20 ≤ d.toNat := by
  obtain ⟨letter, u, heq, hletter, -⟩ | ⟨heq, hspace, -⟩ | heq := escape_cases charset c
  · rw [heq] at h
    rcases List.mem_cons.mp h with rfl | h
    · decide
    · rw [List.mem_singleton.mp h]
      exact space_le_of_escaped? hletter
  · rw [heq] at h
    rw [List.mem_singleton.mp h]
    exact hspace
  · exact space_le_of_mem_unitEscapes (heq ▸ h)

end Json

end SchoolAlgebra
