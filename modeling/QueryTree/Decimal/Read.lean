/-! From decimal text to a double.  `scaled` multiplies or divides a 64-bit significand by a power
of ten, rounding after each step, and refuses what is too large.  `ofText?` reads a whole text and
rounds once, to nearest. -/

namespace QueryTree.Decimal

/-- Whether a character is one of the ten ASCII digits. -/
def isDigit (c : Char) : Bool := '0' ≤ c && c ≤ '9'

def digitValue (c : Char) : Nat := c.toNat - '0'.toNat

/-- The number that a run of digits denotes. -/
def natOfDigits (digits : List Char) : Nat :=
  digits.foldl (fun n c => n * 10 + digitValue c) 0

/-- The double next to `10^n`. -/
def powerOfTen (n : Nat) : Float := Float.ofScientific 1 false n

/-- A significand below `2^64` times `10^exponent`, or `none` when that exceeds every finite
double.  The significand, the power and their product or quotient are each rounded; division by
more than `10^308` takes two steps, and what is divided by more than `10^616` is zero. -/
def scaled (significand : UInt64) (exponent : Int) : Option Float :=
  let x := significand.toFloat
  if 0 ≤ exponent then
    if significand == 0 then some x
    else if 308 < exponent then none
    else
      let y := x * powerOfTen exponent.toNat
      if y.isInf then none else some y
  else
    let places := exponent.natAbs
    if places ≤ 308 then some (x / powerOfTen places)
    else if places ≤ 616 then some (x / powerOfTen 308 / powerOfTen (places - 308))
    else some 0

/-- `significand * 10^exponent` rounded once, to nearest; exponents far outside the range of
doubles are cut off first. -/
def nearest (significand : Nat) (exponent : Int) : Float :=
  if significand == 0 then 0
  else if 400 < exponent then Float.ofScientific 1 false 400
  else if exponent < -400 - ((Nat.toDigits 10 significand).length : Int) then 0
  else Float.ofScientific significand (exponent < 0) exponent.natAbs

/-- The value of an optional exponent `e±digits` that must fill the rest of the text. -/
def exponentPart? : List Char → Option Int
  | [] => some 0
  | mark :: rest =>
    if mark == 'e' || mark == 'E' then
      let (negative, digits) := match rest with
        | '-' :: digits => (true, digits)
        | '+' :: digits => (false, digits)
        | digits => (false, digits)
      if digits.isEmpty || !digits.all isDigit then none
      else
        let n := natOfDigits digits
        some (if negative then -(n : Int) else n)
    else none

/-- The double that an unsigned decimal text denotes. -/
def unsigned? (text : List Char) : Option Float :=
  let lower := text.map Char.toLower
  if lower == "inf".toList || lower == "infinity".toList then some (1 / 0)
  else if lower == "nan".toList then some (0 / 0)
  else
    let whole := text.takeWhile isDigit
    let (fraction, rest) := match text.dropWhile isDigit with
      | '.' :: rest => (rest.takeWhile isDigit, rest.dropWhile isDigit)
      | rest => ([], rest)
    if whole.isEmpty && fraction.isEmpty then none
    else do
      let exponent ← exponentPart? rest
      some (nearest (natOfDigits (whole ++ fraction)) (exponent - fraction.length))

/-- The double that a decimal text denotes: an optional sign, then digits with an optional point
and exponent, or a word for infinity or for what is not a number. -/
def ofText? (text : String) : Option Float :=
  match text.toList with
  | '-' :: rest => (unsigned? rest).map (- ·)
  | '+' :: rest => unsigned? rest
  | rest => unsigned? rest

end QueryTree.Decimal
