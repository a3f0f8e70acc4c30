import SchoolAlgebra.Toml.Reader

/-!
# TOML numbers and dates

Each function finds the longest number, or date and time, at the front of a text. An underscore may
stand between two digits.
-/

namespace SchoolAlgebra

namespace Toml

/-! ### Digits -/

/-- Digits of a class and single underscores between them, after a first digit. -/
def moreDigits (p : Char → Bool) : List Char → List Char × List Char
  | '_' :: c :: rest =>
    if p c then
      let (digits, rest) := moreDigits p rest
      (c :: digits, rest)
    else ([], '_' :: c :: rest)
  | c :: rest =>
    if p c then
      let (digits, rest) := moreDigits p rest
      (c :: digits, rest)
    else ([], c :: rest)
  | [] => ([], [])

/-- Digits of a class and single underscores between them, without the underscores. -/
def digits? (p : Char → Bool) : List Char → Option (List Char × List Char)
  | c :: rest =>
    if p c then
      let (digits, rest) := moreDigits p rest
      some (c :: digits, rest)
    else none
  | [] => none

/-- The number that digits spell in a base. -/
def valueIn (base : Nat) (digits : List Char) : Nat :=
  digits.foldl (fun n c => base * n + (hexValue? c).getD 0) 0

/-- A sign, and whether it is a minus. -/
def sign : List Char → Bool × List Char
  | '-' :: rest => (true, rest)
  | '+' :: rest => (false, rest)
  | chars => (false, chars)

/-! ### Numbers -/

/-- A natural number with a base mark: hexadecimal, binary or octal. -/
def basedInteger? : List Char → Option (Value × List Char)
  | '0' :: 'x' :: rest => (digits? (fun c => (hexValue? c).isSome) rest).map (answer 16)
  | '0' :: 'b' :: rest => (digits? (fun c => c = '0' || c = '1') rest).map (answer 2)
  | '0' :: 'o' :: rest => (digits? (fun c => '0' ≤ c && c ≤ '7') rest).map (answer 8)
  | _ => none
where
  /-- The value of the digits found. -/
  answer (base : Nat) (found : List Char × List Char) : Value × List Char :=
    (.integer (valueIn base found.1), found.2)

/-- The digits before the point: a zero, or digits that do not start with one. -/
def wholeDigits? : List Char → Option (List Char × List Char)
  | '0' :: rest => some (['0'], rest)
  | chars => digits? Char.isDigit chars

/-- The digits after a point, if there are any. -/
def fractionDigits : List Char → List Char × List Char
  | '.' :: rest => (digits? Char.isDigit rest).getD ([], '.' :: rest)
  | chars => ([], chars)

/-- The power of ten after an exponent mark, if there is one. -/
def exponent? : List Char → Option (Int × List Char)
  | c :: rest =>
    if c = 'e' ∨ c = 'E' then
      let (negative, rest) := sign rest
      (digits? Char.isDigit rest).map fun found =>
        let n : Int := (valueIn 10 found.1 : Nat)
        (if negative then -n else n, found.2)
    else none
  | [] => none

/-- The largest power of ten, beyond the digits there are, that makes a difference to a float. -/
def largestExponent : Nat := 2000

/-- The float of digits, of which some stand after the point, and a power of ten. An exponent far
out of range is brought in, which does not change the float. -/
def floatOf (negative : Bool) (whole fraction : List Char) (exponent : Int) : Binary64 :=
  let digits := whole ++ fraction
  let bound : Int := (largestExponent + digits.length : Nat)
  let near := max (-bound) (min bound (exponent - fraction.length))
  let x := Decimal.toBinary64 ⟨valueIn 10 digits, near⟩
  if negative then x.neg else x

/-- A decimal number: a float if it has a fraction or an exponent, else an integer. -/
def decimalNumber? (chars : List Char) : Option (Value × List Char) := do
  let (negative, rest) := sign chars
  let (whole, rest) ← wholeDigits? rest
  let (fraction, rest) := fractionDigits rest
  match exponent? rest with
  | some (e, rest) => return (.float (floatOf negative whole fraction e), rest)
  | none =>
    if fraction.isEmpty then
      let n : Int := (valueIn 10 whole : Nat)
      return (.integer (if negative then -n else n), rest)
    else
      return (.float (floatOf negative whole fraction 0), rest)

/-- A float that is named: infinity, or not a number. -/
def namedFloat? (chars : List Char) : Option (Value × List Char) :=
  let (negative, rest) := sign chars
  match rest with
  | 'i' :: 'n' :: 'f' :: rest => some (.float (.infinite negative), rest)
  | 'n' :: 'a' :: 'n' :: rest => some (.notANumber, rest)
  | _ => none

/-- A number. -/
def number? (chars : List Char) : Option (Value × List Char) :=
  ((basedInteger? chars).or (decimalNumber? chars)).or (namedFloat? chars)

/-! ### Dates and times -/

/-- A number of exactly `count` digits, between two bounds. -/
def fixed? (count low high : Nat) (chars : List Char) : Option (Nat × List Char) :=
  let digits := chars.take count
  let n := valueIn 10 digits
  if digits.length = count ∧ digits.all Char.isDigit ∧ low ≤ n ∧ n ≤ high then
    some (n, chars.drop count)
  else none

/-- The text after a given character. -/
def after? (c : Char) : List Char → Option (List Char)
  | d :: rest => if c = d then some rest else none
  | [] => none

/-- A date, whether or not the calendar has it. -/
def date? (chars : List Char) : Option (Date × List Char) := do
  let (year, rest) ← fixed? 4 0 9999 chars
  let (month, rest) ← fixed? 2 1 12 (← after? '-' rest)
  let (day, rest) ← fixed? 2 1 31 (← after? '-' rest)
  return (⟨year, month, day⟩, rest)

/-- A time of day. Fractions of a second are kept to the sixth place. -/
def time? (chars : List Char) : Option (TimeOfDay × List Char) := do
  let (hour, rest) ← fixed? 2 0 23 chars
  let (minute, rest) ← fixed? 2 0 59 (← after? ':' rest)
  let (second, rest) ← fixed? 2 0 59 (← after? ':' rest)
  let fraction := ((after? '.' rest).getD []).takeWhile Char.isDigit
  if fraction.isEmpty then return (⟨hour, minute, second, 0⟩, rest)
  let places := (fraction ++ Decimal.zeros 6).take 6
  return (⟨hour, minute, second, valueIn 10 places⟩, rest.drop (fraction.length + 1))

/-- An offset from universal time. -/
def zone? (chars : List Char) : Option (Zone × List Char) :=
  match chars with
  | 'Z' :: rest | 'z' :: rest => some (⟨false, 0⟩, rest)
  | c :: rest => do
    if c ≠ '+' ∧ c ≠ '-' then failure
    let (hour, rest) ← fixed? 2 0 23 rest
    let (minute, rest) ← fixed? 2 0 59 (← after? ':' rest)
    return (⟨c = '-', 60 * hour + minute⟩, rest)
  | [] => none

/-- A time of day after the mark that separates it from a date. -/
def timeAfterDate? : List Char → Option (TimeOfDay × List Char)
  | c :: rest => if c = 'T' ∨ c = 't' ∨ c = ' ' then time? rest else none
  | [] => none

/-- A date, a time of day or both. The time must have its seconds, and only a time with a date has
an offset. -/
def moment? (chars : List Char) : Option (Moment × List Char) :=
  match date? chars with
  | some (date, rest) =>
    match timeAfterDate? rest with
    | some (time, rest) =>
      match zone? rest with
      | some (zone, rest) => some (.both date time (some zone), rest)
      | none => some (.both date time none, rest)
    | none => some (.date date, rest)
  | none => (time? chars).map fun found => (.time found.1, found.2)

end Toml

end SchoolAlgebra
