/-! The fewest decimal digits that identify a double.  A finite nonzero double is `m * 2^q`; the
reals that round to it form an interval around it, whose ends belong to it exactly when `m` is
even.  `Binary.shortest` looks at the decimal grids with one digit, two digits, and so on, and
takes the first grid on which one of the two neighbours of the value lies in that interval.  All
comparisons are between natural numbers. -/

namespace QueryTree.Decimal

/-- The magnitude `significand * 2^exponent` of a finite double; `narrow` says that the next double
below is only half as far away as the next one above. -/
structure Binary where
  significand : Nat
  exponent : Int
  narrow : Bool
deriving DecidableEq

/-- The decimal number `significand * 10^exponent`. -/
structure Digits where
  significand : Nat
  exponent : Int
deriving DecidableEq

/-- Which of two equally near decimals is taken. -/
inductive Tie where
  | toEven
  | away
deriving DecidableEq

/-- A double, as far as its text depends on it. -/
inductive Shape where
  | notANumber
  | infinite (negative : Bool)
  | finite (negative : Bool) (magnitude : Binary)
deriving DecidableEq

/-- The shape of a double, read from its sign, exponent and fraction bits. -/
def Shape.ofFloat (x : Float) : Shape :=
  let bits : Nat := x.toBits.toNat
  let negative := bits / 0x8000000000000000 % 2 == 1
  let biased : Nat := bits / 0x10000000000000 % 0x800
  let fraction : Nat := bits % 0x10000000000000
  if biased == 0x7FF then
    if fraction == 0 then .infinite negative else .notANumber
  else if biased == 0 then
    .finite negative ⟨fraction, -1074, false⟩
  else
    .finite negative ⟨0x10000000000000 + fraction, (biased : Int) - 1075, fraction == 0 && 1 < biased⟩

/-- The number of decimal digits of `n`; zero has one. -/
def digitCount (n : Nat) : Nat := (Nat.toDigits 10 n).length

/-- `base^e` for `e ≥ 0`, else `1`. -/
def upperPower (base : Nat) (e : Int) : Nat := Nat.pow base e.toNat

/-- The decimal exponent of the first digit of the positive fraction `num / den`. -/
def leadingExponent (num den : Nat) : Int :=
  if den ≤ num then (digitCount (num / den) : Int) - 1
  else -(digitCount ((den + num - 1) / num - 1) : Int)

/-- Four times the magnitude and the ends of its rounding interval, in quarters of a unit in the
last place. -/
structure Interval where
  low : Nat
  value : Nat
  high : Nat
  closed : Bool

/-- The interval of the reals that round to a magnitude. -/
def Binary.interval (b : Binary) : Interval where
  low := 4 * b.significand - (if b.narrow then 1 else 2)
  value := 4 * b.significand
  high := 4 * b.significand + 2
  closed := b.significand % 2 == 0

/-- Whether `low ≤ x ≤ high`, with the ends left out of an open interval. -/
def Interval.holds (i : Interval) (low x high : Nat) : Bool :=
  if i.closed then low ≤ x && x ≤ high else low < x && x < high

/-- The nearest of the value's two neighbours on the grid of multiples of `10^grid`, provided that
it rounds back to the value. -/
def Binary.onGrid (tie : Tie) (b : Binary) (grid : Int) : Option Nat :=
  let i := b.interval
  -- everything is compared after multiplication with `step`, which makes it whole
  let unit := upperPower 2 (b.exponent - 2) * upperPower 10 (-grid)
  let step := upperPower 10 grid * upperPower 2 (2 - b.exponent)
  let below := i.value * unit / step
  let above := below + 1
  let fits (n : Nat) := i.holds (i.low * unit) (n * step) (i.high * unit)
  let toBelow := i.value * unit - below * step
  let toAbove := above * step - i.value * unit
  match fits below && below != 0, fits above with
  | true, true =>
    if toBelow < toAbove then some below
    else if toAbove < toBelow then some above
    else match tie with
      | .toEven => some (if below % 2 == 0 then below else above)
      | .away => some above
  | true, false => some below
  | false, true => some above
  | false, false => none

/-- A decimal without trailing zeros in its significand; `fuel` bounds their number. -/
def Digits.trim : Nat → Digits → Digits
  | 0, d => d
  | fuel + 1, d =>
    if d.significand % 10 == 0 && d.significand != 0 then
      trim fuel ⟨d.significand / 10, d.exponent + 1⟩
    else d

/-- Tries the grids on which the value has `count`, `count + 1`, … digits, `fuel` of them;
seventeen digits always suffice for a double. -/
def Binary.search (tie : Tie) (b : Binary) (leading : Int) : Nat → Nat → Digits
  | 0, count => ⟨0, leading - count⟩
  | fuel + 1, count =>
    let grid := leading - count + 1
    match b.onGrid tie grid with
    | some n => Digits.trim 20 ⟨n, grid⟩
    | none => search tie b leading fuel (count + 1)

/-- The shortest decimal that rounds to the magnitude, and of those the nearest; a tie goes as
`tie` says. -/
def Binary.shortest (tie : Tie) (b : Binary) : Digits :=
  if b.significand == 0 then ⟨0, 0⟩
  else
    let leading := leadingExponent (b.significand * upperPower 2 b.exponent)
      (upperPower 2 (-b.exponent))
    b.search tie leading 17 1

end QueryTree.Decimal
