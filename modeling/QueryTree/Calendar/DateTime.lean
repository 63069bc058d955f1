import QueryTree.Calendar.Date

/-! Points in time with their local clock and offset from UTC.  `DateTime.ofText` reads the
profile of ISO 8601 that internet protocols use; `DateTime.text` writes the same form with the
shortest fraction of three, six or nine digits. -/

namespace QueryTree.Calendar

open QueryTree.Decimal (isDigit natOfDigits)
open QueryTree.Text (utf8Size)

/-- A local date and time with its offset from UTC.  Second 60 is a leap second. -/
structure DateTime where
  date : Date
  hour : Nat
  minute : Nat
  second : Nat
  nanosecond : Nat
  /-- Minutes east of UTC. -/
  offset : Int
  hour_lt : hour < 24
  minute_lt : minute < 60
  second_le : second ≤ 60
  nanosecond_lt : nanosecond < 1000000000
  offset_bound : -1440 < offset ∧ offset < 1440
deriving DecidableEq

/-- The seconds since 1 January 1970 in UTC; a leap second counts as the second before it. -/
def DateTime.unixSeconds (t : DateTime) : Int :=
  t.date.daysSinceEpoch * 86400 + t.hour * 3600 + t.minute * 60 + min t.second 59 - t.offset * 60

/-- The nanoseconds within the second, from a full second upward in a leap second. -/
def DateTime.subsecond (t : DateTime) : Nat :=
  if t.second = 60 then 1000000000 + t.nanosecond else t.nanosecond

/-- The value of a fraction in units of its ninth digit: it is filled up with zeros, and later
digits are dropped. -/
def nanoseconds (digits : List Char) : Nat :=
  natOfDigits ((digits ++ List.replicate 9 '0').take 9)

/-- An optional fraction: a point and at least one digit. -/
def scanFraction : List Char → Except ScanError (List Char × List Char)
  | '.' :: rest =>
    let digits := rest.takeWhile isDigit
    if digits.isEmpty then .error (if rest.isEmpty then .tooShort else .invalid)
    else .ok (digits, rest.dropWhile isDigit)
  | text => .ok ([], text)

/-- The hours and minutes of an offset, after its sign. -/
def scanOffsetClock (text : List Char) : Except ScanError ((Nat × Nat) × List Char) := do
  let (hours, rest) ← twoDigits text
  let rest ← literal ':' rest
  let (minutes, rest) ← twoDigits rest
  require (minutes ≤ 59) .outOfRange
  .ok ((hours, minutes), rest)

/-- An offset from UTC: `Z`, or a sign with hours and minutes.  The true minus sign is a sign too.
The first component says whether the offset lies west of UTC. -/
def scanOffset : List Char → Except ScanError ((Bool × Nat × Nat) × List Char)
  | [] => .error .tooShort
  | c :: rest =>
    if c == 'Z' || c == 'z' then .ok ((false, 0, 0), rest)
    else if c == '+' then (scanOffsetClock rest).map fun (clock, rest) => ((false, clock), rest)
    else if c == '-' || c == '\u2212' then
      (scanOffsetClock rest).map fun (clock, rest) => ((true, clock), rest)
    else .error .invalid

/-- Date and time from numbers that were read, with the ranges that the scanners leave open. -/
def DateTime.ofNumbers (date : Date) (clock : Nat × Nat × Nat) (fraction : List Char)
    (west : Bool) (offset : Nat × Nat) : Except ScanError DateTime :=
  let (hour, minute, second) := clock
  let minutes : Int := offset.1 * 60 + offset.2
  if h : hour < 24 ∧ minute < 60 ∧ second ≤ 60 ∧ nanoseconds fraction < 1000000000 ∧
      -1440 < minutes ∧ minutes < 1440 then
    .ok {
      date, hour, minute, second
      nanosecond := nanoseconds fraction
      offset := if west then -minutes else minutes
      hour_lt := h.1
      minute_lt := h.2.1
      second_le := h.2.2.1
      nanosecond_lt := h.2.2.2.1
      offset_bound := by split <;> omega }
  else .error .outOfRange

/-- Reads date, separator, time, optional fraction and offset, in this order.  The day is checked
before the separator, the clock before the offset, and the offset's hours last. -/
def DateTime.scan (text : List Char) : Except ScanError DateTime := do
  require (19 ≤ utf8Size text) .tooShort
  let (year, rest) ← fixedDigits 4 text
  let rest ← expect (· == '-') rest
  let (month, rest) ← fixedDigits 2 rest
  let rest ← expect (· == '-') rest
  let (day, rest) ← fixedDigits 2 rest
  let date ← Date.ofNumbers year month day
  let rest ← expect (fun c => c == 'T' || c == 't' || c == ' ') rest
  let (hour, rest) ← fixedDigits 2 rest
  let rest ← expect (· == ':') rest
  let (minute, rest) ← fixedDigits 2 rest
  let rest ← expect (· == ':') rest
  let (second, rest) ← fixedDigits 2 rest
  let (fraction, rest) ← scanFraction rest
  require (hour ≤ 23 ∧ minute ≤ 59 ∧ second ≤ 60) .outOfRange
  let ((west, offset), rest) ← scanOffset rest
  require (rest = []) .trailing
  DateTime.ofNumbers date (hour, minute, second) fraction west offset

/-- The point in time that a text denotes. -/
def DateTime.ofText (text : String) : Except ScanError DateTime := DateTime.scan text.toList

/-- The fraction of a second, with a point: nothing, or the fewest of three, six and nine digits.
-/
def fractionText (nanosecond : Nat) : String :=
  if nanosecond = 0 then ""
  else if nanosecond % 1000000 = 0 then "." ++ padded 3 (nanosecond / 1000000)
  else if nanosecond % 1000 = 0 then "." ++ padded 6 (nanosecond / 1000)
  else "." ++ padded 9 nanosecond

def offsetText (offset : Int) : String :=
  (if offset < 0 then "-" else "+") ++ padded 2 (offset.natAbs / 60) ++ ":"
    ++ padded 2 (offset.natAbs % 60)

def DateTime.text (t : DateTime) : String :=
  t.date.text ++ "T" ++ padded 2 t.hour ++ ":" ++ padded 2 t.minute ++ ":" ++ padded 2 t.second
    ++ fractionText t.nanosecond ++ offsetText t.offset

end QueryTree.Calendar
