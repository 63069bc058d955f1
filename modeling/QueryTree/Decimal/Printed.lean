import QueryTree.Decimal.Shortest

/-! The text of a double.  A `Style` holds the decisions of one output format: which numbers are
written positionally, whether a whole number keeps a point, which way ties go, and the words for
what is not a number.  `Style.print` writes the shortest digits in that style. -/

namespace QueryTree.Decimal

/-- The decisions of one way to write doubles. -/
structure Style where
  /-- Numbers whose first digit has this decimal exponent are written without an exponent. -/
  positional : Int → Bool
  /-- A whole number is written with `.0`. -/
  pointZero : Bool
  /-- Which of two equally short and equally near decimals is written. -/
  tie : Tie
  notANumber : String
  infinity : String

def zeros (n : Nat) : String := String.ofList (List.replicate n '0')

/-- Digits with the point put where the exponent says. -/
def Digits.positional (pointZero : Bool) (d : Digits) : String :=
  let text := Nat.toDigits 10 d.significand
  if 0 ≤ d.exponent then
    String.ofList text ++ zeros d.exponent.toNat ++ (if pointZero then ".0" else "")
  else
    let places := d.exponent.natAbs
    if places < text.length then
      String.ofList (text.take (text.length - places)) ++ "."
        ++ String.ofList (text.drop (text.length - places))
    else
      "0." ++ zeros (places - text.length) ++ String.ofList text

/-- Digits with one digit before the point and a signed exponent after `e`. -/
def Digits.scientific (d : Digits) : String :=
  let text := Nat.toDigits 10 d.significand
  let leading := d.exponent + text.length - 1
  let mantissa := match text with
    | [] => ""
    | [c] => c.toString
    | c :: rest => c.toString ++ "." ++ String.ofList rest
  mantissa ++ (if 0 ≤ leading then "e+" else "e-") ++ toString leading.natAbs

def Style.printDigits (style : Style) (d : Digits) : String :=
  let leading := d.exponent + digitCount d.significand - 1
  if style.positional leading then d.positional style.pointZero else d.scientific

/-- The text of a double. -/
def Style.print (style : Style) (x : Float) : String :=
  match Shape.ofFloat x with
  | .notANumber => style.notANumber
  | .infinite negative => (if negative then "-" else "") ++ style.infinity
  | .finite negative magnitude =>
    (if negative then "-" else "") ++ style.printDigits (magnitude.shortest style.tie)

end QueryTree.Decimal
