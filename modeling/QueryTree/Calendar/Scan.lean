import QueryTree.Decimal.Read
import QueryTree.Text.Blank

/-! The scanners that dates and timestamps share.  Each takes the text that is left and gives back
what it read together with the rest, or the reason why it stopped. -/

namespace QueryTree.Calendar

open QueryTree.Decimal (isDigit digitValue natOfDigits)
open QueryTree.Text (dropBlank utf8Size)

inductive ScanError where
  /-- The text ended where more was needed. -/
  | tooShort
  /-- A character does not belong where it stands. -/
  | invalid
  /-- A number is outside its range, or the day does not exist. -/
  | outOfRange
  /-- Something follows a complete text. -/
  | trailing
deriving DecidableEq, Repr

def ScanError.message : ScanError → String
  | .tooShort => "premature end of input"
  | .invalid => "input contains invalid characters"
  | .outOfRange => "input is out of range"
  | .trailing => "trailing input"

/-- Fails with `e` unless `p` holds. -/
def require (p : Prop) [Decidable p] (e : ScanError) : Except ScanError Unit :=
  if p then .ok () else .error e

/-- Exactly `count` digits; anything else there is invalid. -/
def fixedDigits (count : Nat) (text : List Char) : Except ScanError (Nat × List Char) :=
  let digits := text.take count
  if digits.length == count && digits.all isDigit then .ok (natOfDigits digits, text.drop count)
  else .error .invalid

/-- One character of those that `accepts` holds for; anything else there is invalid. -/
def expect (accepts : Char → Bool) : List Char → Except ScanError (List Char)
  | [] => .error .invalid
  | c :: rest => if accepts c then .ok rest else .error .invalid

/-- The character `mark`, which must not be missing at the end of the text. -/
def literal (mark : Char) : List Char → Except ScanError (List Char)
  | [] => .error .tooShort
  | c :: rest => if c == mark then .ok rest else .error .invalid

/-- At most `limit` digits and at least one, whose value must fit a signed 64-bit word. -/
def number (limit : Nat) (text : List Char) : Except ScanError (Nat × List Char) :=
  match text with
  | [] => .error .tooShort
  | c :: _ =>
    if !isDigit c then .error .invalid
    else
      let digits := (text.take limit).takeWhile isDigit
      let value := natOfDigits digits
      if value < 0x8000000000000000 then .ok (value, text.drop digits.length) else .error .outOfRange

/-- Two digits of which the text may not run out. -/
def twoDigits (text : List Char) : Except ScanError (Nat × List Char) :=
  if utf8Size text < 2 then .error .tooShort else fixedDigits 2 text

end QueryTree.Calendar
