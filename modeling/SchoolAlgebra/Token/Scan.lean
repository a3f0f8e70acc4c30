import SchoolAlgebra.Decimal.Basic
import SchoolAlgebra.Token.Basic

/-!
# Reading tokens

`Token.scan` reads a source from left to right, at each offset taking the longest lexeme that starts
there. Scanning never fails: a character that starts no lexeme is passed over, whether it is white
space or not.

A numeral directly followed by a letter is a coefficient, and an empty multiplication token stands
between the two.

## Implementation notes

`Token.scanFrom` advances one character at a time and counts down the characters that belong to the
token already read, so that it recurses on the text itself.

## Main results

* `Token.scanFrom_eq_append_finish` — the end of the source is the last token, and only the last
-/

namespace SchoolAlgebra

namespace Lexeme

/-- The longest numeral at the start of a text: digits, and a point with digits after it. Either
part may be missing; if both are, there is no numeral. -/
def numeralPart (chars : List Char) : List Char :=
  let whole := chars.takeWhile Char.isDigit
  match chars.dropWhile Char.isDigit with
  | '.' :: rest =>
    match rest.takeWhile Char.isDigit with
    | [] => whole
    | fraction => whole ++ '.' :: fraction
  | _ => whole

/-- The longest name at the start of a text: letters, then digits as a subscript. -/
def namePart (chars : List Char) : List Char :=
  match chars.takeWhile Char.isAlpha with
  | [] => []
  | letters => letters ++ (chars.dropWhile Char.isAlpha).takeWhile Char.isDigit

/-- The lexeme that a single character spells. -/
def ofChar? : Char → Option Lexeme
  | '^' => some .caret
  | '(' => some .leftParen
  | ')' => some .rightParen
  | c => (Operator.ofChar? c).map .operator

/-- The longest lexeme at the start of a text and the number of its characters. -/
def longest? (chars : List Char) : Option (Lexeme × Nat) :=
  match numeralPart chars, namePart chars with
  | [], [] => chars.head? >>= ofChar? |>.map (·, 1)
  | [], word => some (.name (String.ofList word), word.length)
  | numeral, _ =>
    some (.number (String.ofList numeral) (Decimal.ofNumeral numeral).toBinary64, numeral.length)

end Lexeme

namespace Token

/-- The tokens of a lexeme that starts at an offset: itself, and the multiplication between a
numeral and a letter that follows it directly. -/
def ofLexeme (lexeme : Lexeme) (offset length : Nat) (following : List Char) : List Token :=
  let stop := offset + length
  let implicit :=
    if lexeme.isNumber && following.head?.any Char.isAlpha then
      [⟨.operator .multiply, ⟨stop, stop⟩⟩]
    else
      []
  ⟨lexeme, ⟨offset, stop⟩⟩ :: implicit

/-- The tokens of the text that starts at an offset, of which the first `skip` characters belong to
an earlier token. -/
def scanFrom (offset : Nat) : (skip : Nat) → List Char → List Token
  | _, [] => [⟨.finish, ⟨offset, offset⟩⟩]
  | skip + 1, _ :: rest => scanFrom (offset + 1) skip rest
  | 0, c :: rest =>
    match Lexeme.longest? (c :: rest) with
    | none => scanFrom (offset + 1) 0 rest
    | some (lexeme, length) =>
      ofLexeme lexeme offset length ((c :: rest).drop length) ++
        scanFrom (offset + 1) (length - 1) rest

/-- The tokens of a source, the end of the source last. -/
def scan (source : String) : List Token := scanFrom 0 0 source.toList

/-! ### The end of the source -/

private theorem finish_ne_of_ofChar? {c : Char} {l : Lexeme} (h : Lexeme.ofChar? c = some l) :
    l ≠ .finish := by
  rintro rfl
  unfold Lexeme.ofChar? at h
  split at h <;> simp at h

private theorem finish_ne_of_longest? {chars : List Char} {l : Lexeme} {length : Nat}
    (h : Lexeme.longest? chars = some (l, length)) : l ≠ .finish := by
  unfold Lexeme.longest? at h
  split at h
  · obtain ⟨lexeme, hlexeme, hpair⟩ := Option.map_eq_some_iff.mp h
    obtain ⟨c, -, hc⟩ := Option.bind_eq_some_iff.mp hlexeme
    cases hpair
    exact finish_ne_of_ofChar? hc
  all_goals
    cases h
    simp

private theorem finish_notMem_ofLexeme {l : Lexeme} (h : l ≠ .finish) (offset length : Nat)
    (following : List Char) : ∀ t ∈ ofLexeme l offset length following, t.lexeme ≠ .finish := by
  intro t ht
  simp only [ofLexeme, List.mem_cons] at ht
  rcases ht with rfl | ht
  · exact h
  · split at ht <;> simp_all

/-- Scanning ends with one token for the end of the source, which stands there and nowhere else. -/
theorem scanFrom_eq_append_finish (chars : List Char) (offset skip : Nat) :
    ∃ tokens, scanFrom offset skip chars =
        tokens ++ [⟨.finish, ⟨offset + chars.length, offset + chars.length⟩⟩] ∧
      ∀ t ∈ tokens, t.lexeme ≠ .finish := by
  induction chars generalizing offset skip with
  | nil => exact ⟨[], by cases skip <;> simp [scanFrom]⟩
  | cons c rest ih =>
    have hlength : offset + (c :: rest).length = offset + 1 + rest.length := by
      simp only [List.length_cons]
      omega
    rw [hlength]
    cases skip with
    | succ skip => exact ih (offset + 1) skip
    | zero =>
      cases hlongest : Lexeme.longest? (c :: rest) with
      | none =>
        simp only [scanFrom, hlongest]
        exact ih (offset + 1) 0
      | some found =>
        obtain ⟨tokens, heq, hmem⟩ := ih (offset + 1) (found.2 - 1)
        refine ⟨ofLexeme found.1 offset found.2 ((c :: rest).drop found.2) ++ tokens, ?_, ?_⟩
        · simp only [scanFrom, hlongest, heq, List.append_assoc]
        · intro t ht
          rcases List.mem_append.mp ht with ht | ht
          · exact finish_notMem_ofLexeme (finish_ne_of_longest? hlongest) _ _ _ t ht
          · exact hmem t ht

/-- The tokens of a source are its words, and then its end. -/
theorem scan_eq_append_finish (source : String) :
    ∃ words, scan source = words ++ [⟨.finish, ⟨source.length, source.length⟩⟩] ∧
      ∀ t ∈ words, t.lexeme ≠ .finish := by
  obtain ⟨words, heq, hwords⟩ := scanFrom_eq_append_finish source.toList 0 0
  rw [Nat.zero_add, String.length_toList] at heq
  exact ⟨words, heq, hwords⟩

end Token

end SchoolAlgebra
