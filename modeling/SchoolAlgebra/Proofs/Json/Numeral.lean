import Mathlib
import SchoolAlgebra.Json
import SchoolAlgebra.Proofs.Decimal.NumberText
import SchoolAlgebra.Proofs.ForMathlib.List

/-!
# Numerals of JSON

A numeral of JSON is a numeral without needless zeros at its beginning, possibly after a minus sign
and before an exponent. Without a fraction and an exponent it denotes an integer, of any size; with
one of them, the binary64 number nearest to what is written.

A numeral denotes one thing only, whatever stands behind it, and every finite number is written as a
numeral that denotes it.

## What ends a numeral

A numeral can be longer than any given part of it, since digits may follow digits. But nothing in it
stands outside of one class of characters. Where a character outside of that class follows, all of
the numeral stands before it, and two numerals that begin the same text there have the same
characters. The parts of a numeral are then told from its characters in the same way, from classes
that are smaller.

## Main definitions

* `Json.Numeral` — a numeral and its parts, `Json.Numeral.text`
* `Json.Numeral.integer?`, `Json.Numeral.number` — what it denotes

## Main results

* `Json.Numeral.eq_of_text_append_eq` — a text begins with one numeral only
* `Json.exists_numeral_toString`, `Json.exists_numeral_fullText` — integers and numbers are written
  as numerals that denote them
-/

namespace SchoolAlgebra

namespace Decimal

theorem ofDigits_cons (c : Char) (digits : List Char) :
    ofDigits (c :: digits) = 10 ^ digits.length * digitValue c + ofDigits digits := by
  rw [← List.singleton_append, ofDigits_append]
  simp [ofDigits]

/-- Digits denote less than the power of ten that has one digit more. -/
theorem ofDigits_lt_pow_length {digits : List Char} (h : ∀ c ∈ digits, c.isDigit = true) :
    ofDigits digits < 10 ^ digits.length := by
  induction digits with
  | nil => decide
  | cons c digits ih =>
    obtain ⟨hc, hdigits⟩ := List.forall_mem_cons.mp h
    have hvalue : digitValue c ≤ 9 := by
      have hle : c.toNat ≤ '9'.toNat := (Char.isDigit_iff_toNat.mp hc).2
      exact Nat.sub_le_sub_right hle '0'.toNat
    have hrest := ih hdigits
    rw [ofDigits_cons, List.length_cons, Nat.pow_succ]
    nlinarith

/-- The digits of a number do not begin with a zero, but for those of zero. -/
theorem head?_digitsOf {n : Nat} (h : n ≠ 0) : (digitsOf n).head? ≠ some '0' := by
  intro hhead
  obtain ⟨rest, hrest⟩ := List.head?_eq_some_iff.mp hhead
  have hdigits : ∀ c ∈ rest, c.isDigit = true := by
    intro c hc
    exact isDigit_of_mem_digitsOf (n := n) (hrest ▸ List.mem_cons_of_mem _ hc)
  have hlower := pow_length_le_digits h
  have hvalue := ofDigits_digitsOf n
  rw [hrest, ofDigits_cons] at hvalue
  rw [hrest, List.length_cons, Nat.add_sub_cancel] at hlower
  have hzero : digitValue '0' = 0 := rfl
  have hupper := ofDigits_lt_pow_length hdigits
  rw [hzero] at hvalue
  omega

end Decimal

namespace Json

open Decimal

/-! ### Numerals -/

/-- The exponent of a numeral: a letter, possibly a sign, and digits. -/
structure ExponentPart where
  /-- Whether the letter is a capital. -/
  capital : Bool
  /-- The sign, `true` for a minus. -/
  sign? : Option Bool
  /-- The digits. -/
  digits : List Char
  digits_ne_nil : digits ≠ []
  isDigit_digits : ∀ c ∈ digits, c.isDigit = true

namespace ExponentPart

/-- The sign of an exponent. -/
def signText : Option Bool → List Char
  | none => []
  | some negative => if negative then ['-'] else ['+']

theorem mem_signText {sign? : Option Bool} {c : Char} (h : c ∈ signText sign?) :
    c = '-' ∨ c = '+' := by
  cases sign? with
  | none => cases h
  | some negative => cases negative <;> simp_all [signText]

theorem signText_injective {s t : Option Bool} (h : signText s = signText t) : s = t := by
  cases s with
  | none => cases t with
    | none => rfl
    | some b => cases b <;> cases h
  | some a => cases t with
    | none => cases a <;> cases h
    | some b => cases a <;> cases b <;> first | rfl | cases h

/-- The characters of an exponent. -/
def text (x : ExponentPart) : List Char :=
  (if x.capital then 'E' else 'e') :: (signText x.sign? ++ x.digits)

/-- The power of ten. -/
def value (x : ExponentPart) : Int :=
  if x.sign? = some true then -(ofDigits x.digits : Int) else ofDigits x.digits

end ExponentPart

/-- A numeral of JSON. -/
structure Numeral where
  /-- Whether there is a minus sign. -/
  negative : Bool
  /-- The digits, and possibly a point and more digits. -/
  mantissa : SchoolAlgebra.Numeral
  /-- The exponent, if there is one. -/
  exponent? : Option ExponentPart
  /-- No zero stands before other digits. -/
  whole_eq_of_zero : mantissa.whole.head? = some '0' → mantissa.whole = ['0']

namespace Numeral

/-- The minus sign. -/
def signText (n : Numeral) : List Char := if n.negative then ['-'] else []

theorem mem_signText {n : Numeral} {c : Char} (h : c ∈ n.signText) : c = '-' := by
  rw [signText] at h
  split at h
  · exact List.mem_singleton.mp h
  · cases h

/-- The characters of the exponent. -/
def exponentText (n : Numeral) : List Char := (n.exponent?.map ExponentPart.text).getD []

/-- The characters of a numeral. -/
def text (n : Numeral) : List Char := n.signText ++ (n.mantissa.text ++ n.exponentText)

/-- The integer that a numeral denotes if it has neither a fraction nor an exponent. -/
def integer? (n : Numeral) : Option Int :=
  if n.mantissa.fraction = [] ∧ n.exponent? = none then
    some (if n.negative then -(ofDigits n.mantissa.whole : Int) else ofDigits n.mantissa.whole)
  else none

/-- The decimal that is written, without its sign. -/
def decimal (n : Numeral) : Decimal :=
  ⟨n.mantissa.decimal.digits,
    (n.exponent?.map ExponentPart.value).getD 0 + n.mantissa.decimal.exponent⟩

/-- The number nearest to what is written. -/
def number (n : Numeral) : Binary64 :=
  if n.negative then n.decimal.toBinary64.neg else n.decimal.toBinary64

/-! ### What stands in a numeral

A numeral has digits, a point, signs and a letter, and of these only digits and the point stand
before the exponent. Where the digits begin is told from the sign. -/

/-- Whether a character can stand in a numeral. -/
def isNumeric (c : Char) : Bool := c.isDigit || c ∈ ['-', '+', '.', 'e', 'E']

/-- Whether a character can stand before the exponent of a numeral without its sign. -/
def isMantissa (c : Char) : Bool := c.isDigit || c = '.'

theorem forall_isMantissa (m : SchoolAlgebra.Numeral) : ∀ c ∈ m.text, isMantissa c = true := by
  intro c hc
  rcases List.mem_append.mp hc with hc | hc
  · simp [isMantissa, m.isDigit_whole c hc]
  · split at hc
    · cases hc
    · rcases List.mem_cons.mp hc with rfl | hc
      · rfl
      · simp [isMantissa, m.isDigit_fraction c hc]

theorem forall_isNumeric_exponentText (n : Numeral) : ∀ c ∈ n.exponentText, isNumeric c = true := by
  rw [exponentText]
  cases n.exponent? with
  | none => simp
  | some x =>
    intro c hc
    rcases List.mem_cons.mp hc with rfl | hc
    · cases x.capital <;> rfl
    · rcases List.mem_append.mp hc with hc | hc
      · rcases ExponentPart.mem_signText hc with rfl | rfl <;> rfl
      · simp [isNumeric, x.isDigit_digits c hc]

theorem forall_isNumeric (n : Numeral) : ∀ c ∈ n.text, isNumeric c = true := by
  intro c hc
  rcases List.mem_append.mp hc with hc | hc
  · rw [mem_signText hc]
    rfl
  · rcases List.mem_append.mp hc with hc | hc
    · have hmantissa := forall_isMantissa n.mantissa c hc
      simp only [isMantissa, isNumeric, Bool.or_eq_true, decide_eq_true_eq] at hmantissa ⊢
      exact hmantissa.imp_right fun h => by simp [h]
    · exact forall_isNumeric_exponentText n c hc

/-- An exponent begins with its letter. -/
theorem isMantissa_head?_exponentText (n : Numeral) :
    ∀ c ∈ n.exponentText.head?, isMantissa c = false := by
  rw [exponentText]
  cases n.exponent? with
  | none => simp
  | some x => cases hx : x.capital <;> simp [ExponentPart.text, hx, isMantissa]

/-- A text begins with a digit. -/
def BeginsWithDigit (chars : List Char) : Prop := ∃ c rest, chars = c :: rest ∧ c.isDigit = true

theorem beginsWithDigit_of_forall {digits : List Char} (hne : digits ≠ [])
    (h : ∀ c ∈ digits, c.isDigit = true) : BeginsWithDigit digits := by
  obtain ⟨c, rest, rfl⟩ := List.exists_cons_of_ne_nil hne
  exact ⟨c, rest, rfl, h c List.mem_cons_self⟩

/-- Behind signs, digits begin where the signs end. -/
theorem signed_inj {a b r s : List Char} (ha : ∀ c ∈ a, c = '-' ∨ c = '+')
    (hb : ∀ c ∈ b, c = '-' ∨ c = '+') (hr : BeginsWithDigit r) (hs : BeginsWithDigit s)
    (h : a ++ r = b ++ s) : a = b ∧ r = s := by
  have hsign {c : Char} (hc : c = '-' ∨ c = '+') : (!c.isDigit) = true := by
    rcases hc with rfl | rfl <;> rfl
  have hdigit {chars : List Char} (hchars : BeginsWithDigit chars) :
      ∀ c ∈ chars.head?, (!c.isDigit) = false := by
    obtain ⟨c, rest, rfl, hc⟩ := hchars
    simp [hc]
  exact append_inj_of_forall (fun c => !c.isDigit) (fun c hc => hsign (ha c hc))
    (fun c hc => hsign (hb c hc)) (hdigit hr) (hdigit hs) h

/-- What follows the sign begins with a digit. -/
theorem beginsWithDigit_mantissa (n : Numeral) :
    BeginsWithDigit (n.mantissa.text ++ n.exponentText) := by
  obtain ⟨c, whole, hwhole⟩ := List.exists_cons_of_ne_nil n.mantissa.whole_ne_nil
  have hdigit := n.mantissa.isDigit_whole c (hwhole ▸ List.mem_cons_self)
  rw [SchoolAlgebra.Numeral.text, hwhole, List.cons_append, List.cons_append]
  exact ⟨c, _, rfl, hdigit⟩

/-- A numeral begins with a minus sign or a digit. -/
theorem exists_text_eq_cons (n : Numeral) :
    ∃ c rest, n.text = c :: rest ∧ (c = '-' ∨ c.isDigit = true) := by
  obtain ⟨c, rest, hrest, hc⟩ := n.beginsWithDigit_mantissa
  rw [text, hrest, signText]
  cases n.negative with
  | false => exact ⟨c, rest, rfl, .inr hc⟩
  | true => exact ⟨'-', c :: rest, rfl, .inl rfl⟩

/-! ### A text is one numeral

The parts are told apart from left to right: the sign, the digits before the point, those behind it,
and the exponent. Where one part ends a character stands that it cannot have. -/

/-- The digits and the point determine the parts before the exponent. -/
theorem mantissa_text_injective {m k : SchoolAlgebra.Numeral} (h : m.text = k.text) : m = k := by
  have hwhole : m.whole = k.whole := by
    rw [← m.takeWhile_isDigit_text, h, k.takeWhile_isDigit_text]
  have hfraction : m.fraction = k.fraction := by
    have hrest := m.dropWhile_isDigit_text
    rw [h, k.dropWhile_isDigit_text] at hrest
    split at hrest <;> split at hrest <;> simp_all
  cases m
  cases k
  subst hwhole hfraction
  rfl

theorem exponentPart_text_injective {x y : ExponentPart} (h : x.text = y.text) : x = y := by
  obtain ⟨hletter, hrest⟩ := List.cons.inj h
  have hcapital : x.capital = y.capital := by
    revert hletter
    cases x.capital <;> cases y.capital <;> simp
  obtain ⟨hsign, hdigits⟩ := signed_inj (fun _ => ExponentPart.mem_signText)
    (fun _ => ExponentPart.mem_signText)
    (beginsWithDigit_of_forall x.digits_ne_nil x.isDigit_digits)
    (beginsWithDigit_of_forall y.digits_ne_nil y.isDigit_digits)
    hrest
  have hsign := ExponentPart.signText_injective hsign
  cases x
  cases y
  subst hcapital hsign hdigits
  rfl

/-- The characters determine the numeral. -/
theorem text_injective {n m : Numeral} (h : n.text = m.text) : n = m := by
  obtain ⟨hsign, hrest⟩ := signed_inj (fun _ hc => .inl (mem_signText hc))
    (fun _ hc => .inl (mem_signText hc)) n.beginsWithDigit_mantissa m.beginsWithDigit_mantissa h
  obtain ⟨hmantissa, hexponent⟩ := append_inj_of_forall isMantissa (forall_isMantissa _)
    (forall_isMantissa _) n.isMantissa_head?_exponentText m.isMantissa_head?_exponentText hrest
  have hnegative : n.negative = m.negative := by
    revert hsign
    rw [signText, signText]
    cases n.negative <;> cases m.negative <;> simp
  have hmantissa := mantissa_text_injective hmantissa
  have hexponent : n.exponent? = m.exponent? := by
    revert hexponent
    rw [exponentText, exponentText]
    cases n.exponent? <;> cases m.exponent?
    · intro _
      rfl
    · intro h
      cases h
    · intro h
      cases h
    · intro h
      exact congrArg some (exponentPart_text_injective h)
  cases n
  cases m
  subst hnegative hmantissa hexponent
  rfl

/-- **A text begins with one numeral only**, if the numeral ends where no character of numerals
follows. -/
theorem eq_of_text_append_eq {n m : Numeral} {r s : List Char}
    (hr : ∀ c ∈ r.head?, isNumeric c = false) (hs : ∀ c ∈ s.head?, isNumeric c = false)
    (h : n.text ++ r = m.text ++ s) : n = m ∧ r = s := by
  obtain ⟨htext, hrest⟩ :=
    append_inj_of_forall isNumeric n.forall_isNumeric m.forall_isNumeric hr hs h
  exact ⟨text_injective htext, hrest⟩

end Numeral

/-! ### Integers and numbers are written as numerals

A number is written with a point among its digits, or else with an exponent behind them. In both
cases the numeral has the value of the shortest decimal, which reads as the number. -/

/-- An integer is written as a numeral that denotes it. -/
theorem exists_numeral_toString (n : Int) :
    ∃ m : Numeral, m.text = (toString n).toList ∧ m.integer? = some n := by
  refine ⟨⟨decide (n < 0), .ofNat n.natAbs, none, fun hzero => ?_⟩, ?_, ?_⟩
  · by_cases hn : n.natAbs = 0
    · rw [hn]
      rfl
    · exact absurd hzero (head?_digitsOf hn)
  · rw [Int.toString_eq_repr, Int.repr_eq_if]
    by_cases hn : n < 0
    · have habs : (-n).toNat = n.natAbs := by omega
      simp [Numeral.text, Numeral.signText, Numeral.exponentText, hn, digitsOf, not_le.mpr hn, habs]
    · have habs : n.toNat = n.natAbs := by omega
      simp [Numeral.text, Numeral.signText, Numeral.exponentText, hn, digitsOf, not_lt.mp hn, habs]
  · simp only [Numeral.integer?, SchoolAlgebra.Numeral.ofNat, ofDigits_digitsOf, and_self, if_true,
      decide_eq_true_eq]
    congr 1
    split <;> omega

/-- The sign goes to the number that is read. -/
theorem Numeral.number_eq_finite {m : Numeral} {x : Number} (hsign : m.negative = x.negative)
    (h : m.decimal.toBinary64 = .finite { x with negative := false }) :
    m.number = .finite x := by
  rw [number, h, hsign]
  cases x with
  | mk negative mantissa scale canonical => cases negative <;> rfl

theorem Numeral.signText_eq {m : Numeral} {x : Number} (hsign : m.negative = x.negative) :
    m.signText = x.signText := by
  rw [signText, Number.signText, hsign]

/-- A numeral without an exponent has the decimal of what stands before it. -/
theorem Numeral.decimal_of_exponent?_eq_none {m : Numeral} (h : m.exponent? = none) :
    m.decimal = m.mantissa.decimal := by
  rw [decimal, h]
  simp

variable {x : Number}

/-- Zero is written as a numeral that denotes it, with its sign. -/
theorem exists_numeral_of_isZero (hx : x.isZero = true) :
    ∃ m : Numeral, m.text = x.fullText.toList ∧ m.integer? = none ∧ m.number = .finite x := by
  refine ⟨⟨x.negative, ⟨['0'], ['0'], by simp, by simp, by simp⟩, none, fun _ => rfl⟩, ?_, rfl,
    Numeral.number_eq_finite rfl ?_⟩
  · rw [Numeral.text, Numeral.signText_eq (x := x) rfl, Number.fullText, if_pos hx,
      String.toList_ofList]
    rfl
  · rw [Numeral.decimal_of_exponent?_eq_none rfl]
    apply Decimal.toBinary64_of_value_eq
    have hdigits : ofDigits ['0', '0'] = 0 := rfl
    rw [(Number.isZero_iff_magnitude x).mp hx, SchoolAlgebra.Numeral.value_decimal]
    simp only [List.singleton_append, hdigits, Nat.cast_zero, zero_div, zero_mul]

/-- Digits that a numeral can begin with. -/
structure Leading (digits : List Char) : Prop where
  isDigit : ∀ c ∈ digits, c.isDigit = true
  ne_nil : digits ≠ []
  head?_ne : digits.head? ≠ some '0'

/-- Significant digits do not begin with a zero. -/
theorem leading_significantDigits (h : x.magnitude ≠ 0) : Leading x.significantDigits := by
  obtain ⟨k, hk⟩ : ∃ k, digitsOf x.shortestDecimal.digits = x.significantDigits ++ zeros k :=
    exists_dropTrailingZeros_append _
  have hne := Number.significantDigits_ne_nil h
  have hhead := head?_digitsOf (Number.digits_shortestDecimal_ne_zero h)
  rw [hk, List.head?_append_of_ne_nil _ hne] at hhead
  exact ⟨fun _ => Number.isDigit_of_mem_significantDigits, hne, hhead⟩

variable {digits : List Char}

/-- A zero that stands before the point stands there alone. -/
theorem whole_positional_of_zero (h : Leading digits) (point : Int)
    (hzero : (SchoolAlgebra.Numeral.positional digits h.isDigit point).whole.head? = some '0') :
    (SchoolAlgebra.Numeral.positional digits h.isDigit point).whole = ['0'] := by
  simp only [SchoolAlgebra.Numeral.positional] at hzero ⊢
  split at hzero
  · next hpoint => rw [if_pos hpoint]
  · next hpoint =>
    split at hzero
    · rw [List.head?_append_of_ne_nil _ h.ne_nil] at hzero
      exact absurd hzero h.head?_ne
    · rw [List.head?_take, if_neg (by omega)] at hzero
      exact absurd hzero h.head?_ne

/-- The numeral of digits with a point among them. -/
def positionalNumeral (negative : Bool) (h : Leading digits) (point : Int) : Numeral where
  negative := negative
  mantissa := .positional digits h.isDigit point
  exponent? := none
  whole_eq_of_zero := whole_positional_of_zero h point

theorem text_positionalNumeral (negative : Bool) (h : Leading digits) (point : Int) :
    (positionalNumeral negative h point).text =
      (if negative then ['-'] else []) ++ positionalText numberLayout digits point := by
  rw [Numeral.text, positionalNumeral, SchoolAlgebra.Numeral.text_positional h.isDigit h.ne_nil]
  simp [Numeral.signText, Numeral.exponentText]

theorem integer?_positionalNumeral (negative : Bool) (h : Leading digits) (point : Int) :
    (positionalNumeral negative h point).integer? = none := by
  refine if_neg fun hinteger => ?_
  have hfraction : (SchoolAlgebra.Numeral.positional digits h.isDigit point).fraction = [] :=
    hinteger.1
  simp only [SchoolAlgebra.Numeral.positional] at hfraction
  split at hfraction
  · exact List.append_ne_nil_of_right_ne_nil _ h.ne_nil hfraction
  · split at hfraction
    · cases hfraction
    · rw [List.drop_eq_nil_iff] at hfraction
      omega

theorem value_positionalNumeral (negative : Bool) (h : Leading digits) (point : Int) :
    (positionalNumeral negative h point).decimal.value =
      ofDigits digits * 10 ^ (point - digits.length) := by
  rw [Numeral.decimal_of_exponent?_eq_none rfl, positionalNumeral,
    SchoolAlgebra.Numeral.value_positional]

/-- The exponent part that a number is written with. -/
def exponentPart (exponent : Int) : ExponentPart where
  capital := false
  sign? := some (decide (exponent < 0))
  digits := padLeft numberLayout.exponentWidth (digitsOf exponent.natAbs)
  digits_ne_nil := List.append_ne_nil_of_right_ne_nil _ (digitsOf_ne_nil _)
  isDigit_digits _ := isDigit_of_mem_padLeft fun _ => isDigit_of_mem_digitsOf

theorem text_exponentPart (exponent : Int) :
    (exponentPart exponent).text = Decimal.exponentText numberLayout exponent := by
  rw [ExponentPart.text, Decimal.exponentText, exponentPart]
  by_cases h : exponent < 0
  · simp [ExponentPart.signText, h]
  · simp [ExponentPart.signText, h]

theorem value_exponentPart (exponent : Int) : (exponentPart exponent).value = exponent := by
  rw [ExponentPart.value, exponentPart]
  simp only [ofDigits_padLeft, ofDigits_digitsOf, Option.some.injEq, decide_eq_true_eq]
  split <;> omega

/-- The numeral of digits with a point after the first one, and an exponent. -/
def scientificNumeral (negative : Bool) (h : Leading digits) (exponent : Int) : Numeral where
  negative := negative
  mantissa :=
    { whole := digits.take 1
      fraction := digits.drop 1
      whole_ne_nil := by simpa using h.ne_nil
      isDigit_whole := fun c hc => h.isDigit c (List.mem_of_mem_take hc)
      isDigit_fraction := fun c hc => h.isDigit c (List.mem_of_mem_drop hc) }
  exponent? := some (exponentPart exponent)
  whole_eq_of_zero hzero := by
    rw [List.head?_take, if_neg (by decide)] at hzero
    exact absurd hzero h.head?_ne

theorem text_scientificNumeral (negative : Bool) (h : Leading digits) (exponent : Int) :
    (scientificNumeral negative h exponent).text =
      (if negative then ['-'] else []) ++ scientificText numberLayout digits exponent := by
  obtain ⟨c, rest, rfl⟩ := List.exists_cons_of_ne_nil h.ne_nil
  cases rest <;>
    simp [Numeral.text, scientificNumeral, scientificText, Numeral.signText, Numeral.exponentText,
      SchoolAlgebra.Numeral.text, text_exponentPart]

theorem integer?_scientificNumeral (negative : Bool) (h : Leading digits) (exponent : Int) :
    (scientificNumeral negative h exponent).integer? = none :=
  if_neg fun hinteger => nomatch hinteger.2

theorem value_scientificNumeral (negative : Bool) (h : Leading digits) (exponent : Int) :
    (scientificNumeral negative h exponent).decimal.value =
      ofDigits digits * 10 ^ (exponent + 1 - digits.length) := by
  have hlength : 0 < digits.length := List.length_pos_iff.mpr h.ne_nil
  simp only [Numeral.decimal, Decimal.value, scientificNumeral, Option.map_some, Option.getD_some,
    value_exponentPart, SchoolAlgebra.Numeral.decimal, List.take_append_drop, List.length_drop]
  congr 2
  omega

/-- **A number is written as a numeral that denotes it**, and not an integer. -/
theorem exists_numeral_fullText (x : Number) :
    ∃ m : Numeral, m.text = x.fullText.toList ∧ m.integer? = none ∧ m.number = .finite x := by
  by_cases hx : x.isZero = true
  · exact exists_numeral_of_isZero hx
  have h : x.magnitude ≠ 0 := fun hzero => hx ((Number.isZero_iff_magnitude x).mpr hzero)
  have hleading := leading_significantDigits h
  have htext : x.fullText.toList = x.signText ++ x.shortestDecimal.toText numberLayout := by
    rw [Number.fullText, if_neg hx, String.toList_ofList]
  rw [htext, toText]
  -- either numeral has the value of the shortest decimal, which reads as the number
  split
  · refine ⟨positionalNumeral x.negative hleading x.shortestDecimal.point,
      text_positionalNumeral .., integer?_positionalNumeral .., Numeral.number_eq_finite rfl ?_⟩
    rw [← Number.toBinary64_shortestDecimal]
    apply Decimal.toBinary64_congr
    rw [value_positionalNumeral, Number.value_significantDigits]
  · refine ⟨scientificNumeral x.negative hleading (x.shortestDecimal.point - 1),
      text_scientificNumeral .., integer?_scientificNumeral ..,
      Numeral.number_eq_finite rfl ?_⟩
    rw [← Number.toBinary64_shortestDecimal]
    apply Decimal.toBinary64_congr
    rw [value_scientificNumeral, sub_add_cancel, Number.value_significantDigits]

end Json

end SchoolAlgebra
