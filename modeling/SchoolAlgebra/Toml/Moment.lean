import SchoolAlgebra.Decimal.Text

/-!
# Dates and times

A moment is a day, a time of day, or a day and a time that may have an offset from universal time.

It has two texts. By itself it is written in the usual notation, largest unit first. Inside another
value it is written as the call that makes it, its parts in full; seconds and their fractions are
left out there if they are zero.
-/

namespace SchoolAlgebra

namespace Toml

/-- A day of the calendar. -/
structure Date where
  /-- The year, up to four digits. -/
  year : Nat
  /-- The month, from one. -/
  month : Nat
  /-- The day of the month, from one. -/
  day : Nat
  deriving DecidableEq

/-- A time of day. -/
structure TimeOfDay where
  hour : Nat
  minute : Nat
  second : Nat
  /-- The fraction of the second, in millionths. -/
  millionths : Nat
  deriving DecidableEq

/-- An offset from universal time. -/
structure Zone where
  /-- Whether clocks are behind universal time. -/
  behind : Bool
  /-- The distance from universal time, in minutes. -/
  minutes : Nat
  deriving DecidableEq

/-- A day, a time of day, or both. -/
inductive Moment where
  | date (date : Date)
  | time (time : TimeOfDay)
  | both (date : Date) (time : TimeOfDay) (zone? : Option Zone)
  deriving DecidableEq

/-- A number with leading zeros. -/
def padded (width n : Nat) : String := String.ofList (Decimal.padLeft width (Decimal.digitsOf n))

namespace Date

/-- The number of days of a month. -/
def daysIn (year month : Nat) : Nat :=
  if month = 2 then
    if year % 4 = 0 ∧ (year % 100 ≠ 0 ∨ year % 400 = 0) then 29 else 28
  else if [4, 6, 9, 11].contains month then 30
  else 31

/-- Whether the calendar has the day, given that it has the month. -/
def exists? (d : Date) : Bool := 1 ≤ d.year && d.day ≤ daysIn d.year d.month

/-- The usual notation. -/
def text (d : Date) : String := padded 4 d.year ++ "-" ++ padded 2 d.month ++ "-" ++ padded 2 d.day

/-- The parts of a date. -/
def parts (d : Date) : List Nat := [d.year, d.month, d.day]

end Date

namespace TimeOfDay

/-- The usual notation, with six places if there is a fraction. -/
def text (t : TimeOfDay) : String :=
  padded 2 t.hour ++ ":" ++ padded 2 t.minute ++ ":" ++ padded 2 t.second ++
    if t.millionths = 0 then "" else "." ++ padded 6 t.millionths

/-- The parts of a time, without zeros that can be left out. -/
def parts (t : TimeOfDay) : List Nat :=
  if t.millionths ≠ 0 then [t.hour, t.minute, t.second, t.millionths]
  else if t.second ≠ 0 then [t.hour, t.minute, t.second]
  else [t.hour, t.minute]

end TimeOfDay

namespace Zone

/-- The usual notation; universal time has a plus. -/
def text (z : Zone) : String :=
  (if z.behind && z.minutes != 0 then "-" else "+") ++ padded 2 (z.minutes / 60) ++ ":" ++
    padded 2 (z.minutes % 60)

/-- The call that makes an offset. One behind universal time is counted from the day before. -/
def call (z : Zone) : String :=
  if z.minutes = 0 then "datetime.timezone.utc"
  else
    "datetime.timezone(datetime.timedelta(" ++
      (if z.behind then "days=-1, seconds=" ++ toString (86400 - 60 * z.minutes)
        else "seconds=" ++ toString (60 * z.minutes)) ++
      "))"

end Zone

namespace Moment

/-- Whether the calendar has the day of the moment. -/
def exists? : Moment → Bool
  | .date d | .both d _ _ => d.exists?
  | .time _ => true

/-- The usual notation. -/
def text : Moment → String
  | .date d => d.text
  | .time t => t.text
  | .both d t zone? => d.text ++ " " ++ t.text ++ (zone?.map Zone.text).getD ""

/-- Numbers between commas. -/
def listed (parts : List Nat) : String := ", ".intercalate (parts.map toString)

/-- The call that makes a moment. -/
def call : Moment → String
  | .date d => "datetime.date(" ++ listed d.parts ++ ")"
  | .time t => "datetime.time(" ++ listed t.parts ++ ")"
  | .both d t zone? =>
    "datetime.datetime(" ++ listed (d.parts ++ t.parts) ++
      (zone?.map fun z => ", tzinfo=" ++ z.call).getD "" ++ ")"

end Moment

end Toml

end SchoolAlgebra
