import QueryTree.Calendar.Scan
import QueryTree.Decimal.Printed

/-! Days of the proleptic Gregorian calendar, in which the year 0 exists.  `Date.ofText` reads a
text in the form year, month, day; `Date.text` writes one, with a sign only for years that do not
have four digits. -/

namespace QueryTree.Calendar

open QueryTree.Decimal (zeros)
open QueryTree.Text (dropBlank)

/-- A leap year is divisible by 4, but by 100 only if also by 400. -/
def isLeap (year : Int) : Bool := year % 4 == 0 && (year % 100 != 0 || year % 400 == 0)

/-- The number of days of a month; zero for what is no month. -/
def daysInMonth (year : Int) (month : Nat) : Nat :=
  match month with
  | 1 | 3 | 5 | 7 | 8 | 10 | 12 => 31
  | 4 | 6 | 9 | 11 => 30
  | 2 => if isLeap year then 29 else 28
  | _ => 0

/-- Whether a day exists in the calendar, whose years run from -262143 to 262142. -/
def IsDay (year : Int) (month day : Nat) : Prop :=
  -262143 ≤ year ∧ year ≤ 262142 ∧ 1 ≤ day ∧ day ≤ daysInMonth year month

instance (year : Int) (month day : Nat) : Decidable (IsDay year month day) :=
  inferInstanceAs (Decidable (_ ∧ _ ∧ _ ∧ _))

structure Date where
  year : Int
  month : Nat
  day : Nat
  exists_day : IsDay year month day
deriving DecidableEq

/-- The day with the given numbers, if it exists. -/
def Date.ofNumbers (year : Int) (month day : Nat) : Except ScanError Date :=
  if h : IsDay year month day then .ok ⟨year, month, day, h⟩ else .error .outOfRange

/-- The year of a date text: after a sign as many digits as there are, without one at most four. -/
def scanYear (text : List Char) : Except ScanError (Int × List Char) :=
  match dropBlank text with
  | '-' :: rest => (number rest.length rest).map fun (n, rest) => (-(n : Int), rest)
  | '+' :: rest => (number rest.length rest).map fun (n, rest) => ((n : Int), rest)
  | rest => (number 4 rest).map fun (n, rest) => ((n : Int), rest)

/-- A number of at most two digits between 1 and `high`, after optional blanks. -/
def scanPart (high : Nat) (text : List Char) : Except ScanError (Nat × List Char) := do
  let (n, rest) ← number 2 (dropBlank text)
  require (1 ≤ n ∧ n ≤ high) .outOfRange
  .ok (n, rest)

/-- Reads year, month and day with hyphens between them.  Each number may follow blanks and is held
to its range as soon as it is read; the day itself is checked last. -/
def Date.scan (text : List Char) : Except ScanError Date := do
  let (year, rest) ← scanYear text
  require (-0x80000000 ≤ year ∧ year < 0x80000000) .outOfRange
  let rest ← literal '-' rest
  let (month, rest) ← scanPart 12 rest
  let rest ← literal '-' rest
  let (day, rest) ← scanPart 31 rest
  require (rest = []) .trailing
  Date.ofNumbers year month day

/-- The day that a text denotes. -/
def Date.ofText (text : String) : Except ScanError Date := Date.scan text.toList

/-- A number with at least `width` digits. -/
def padded (width n : Nat) : String :=
  let digits := Nat.toDigits 10 n
  zeros (width - digits.length) ++ String.ofList digits

/-- Years from 0 to 9999 have four digits; others have a sign and at least four digits. -/
def yearText (year : Int) : String :=
  if 0 ≤ year ∧ year ≤ 9999 then padded 4 year.toNat
  else (if year < 0 then "-" else "+") ++ padded 4 year.natAbs

def Date.text (d : Date) : String :=
  yearText d.year ++ "-" ++ padded 2 d.month ++ "-" ++ padded 2 d.day

/-- The days from 1 January 1970 to the given day, counted in years that start in March. -/
def Date.daysSinceEpoch (d : Date) : Int :=
  let year := if d.month ≤ 2 then d.year - 1 else d.year
  let era := year.fdiv 400
  let yearOfEra := year - era * 400
  let month : Int := (d.month + 9) % 12
  let dayOfYear : Int := (153 * month + 2) / 5 + d.day - 1
  let dayOfEra : Int := yearOfEra * 365 + yearOfEra / 4 - yearOfEra / 100 + dayOfYear
  era * 146097 + dayOfEra - 719468

end QueryTree.Calendar
