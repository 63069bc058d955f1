import QueryTree.Calendar.DateTime
import QueryTree.Decimal.Printed

/-! Scalars: what a statement binds to its placeholders.  Dates and timestamps keep the text that
they were written with.  `Scalar.display` is the text for people to read, and `Scalar.typeName`
names the sort of a scalar. -/

namespace QueryTree

open QueryTree.Calendar (Date DateTime ScanError)

/-- A value bound to a placeholder. -/
inductive Scalar where
  | null
  | bool (b : Bool)
  | int (n : Int64)
  /-- An unsigned integer; needed above the signed range. -/
  | uint (n : UInt64)
  | float (x : Float)
  /-- A text that denotes a point in time, as written. -/
  | timestamp (text : String)
  /-- A text that denotes a day, as written. -/
  | date (text : String)
  | string (text : String)
  | bytes (octets : List UInt8)
deriving DecidableEq

namespace Scalar

def typeName : Scalar → String
  | .null => "null"
  | .bool _ => "bool"
  | .int _ => "int"
  | .uint _ => "uint"
  | .float _ => "float"
  | .timestamp _ => "timestamp"
  | .date _ => "date"
  | .string _ => "string"
  | .bytes _ => "bytes"

/-- Doubles are displayed without an exponent, whole ones without a point. -/
def displayStyle : Decimal.Style where
  positional _ := true
  pointZero := false
  tie := .away
  notANumber := "NaN"
  infinity := "inf"

/-- The two hexadecimal digits of an octet, in lower case. -/
def hexPair (octet : UInt8) : List Char :=
  [Nat.digitChar (octet.toNat / 16), Nat.digitChar (octet.toNat % 16)]

/-- The text of a scalar for people to read: words and numbers bare, texts between apostrophes,
bytes in hexadecimal. -/
def display : Scalar → String
  | .null => "NULL"
  | .bool true => "true"
  | .bool false => "false"
  | .int n => toString n.toInt
  | .uint n => toString n.toNat
  | .float x => displayStyle.print x
  | .timestamp text => "'" ++ text ++ "'"
  | .date text => "'" ++ text ++ "'"
  | .string text => "'" ++ text ++ "'"
  | .bytes octets => "'\\x" ++ String.ofList (octets.flatMap hexPair) ++ "'"

/-- Equality of scalars: numbers of different sorts differ, doubles compare as numbers, and texts
by their characters. -/
def same : Scalar → Scalar → Bool
  | .null, .null => true
  | .bool a, .bool b => a == b
  | .int a, .int b => a == b
  | .uint a, .uint b => a == b
  | .float a, .float b => a == b
  | .timestamp a, .timestamp b => a == b
  | .date a, .date b => a == b
  | .string a, .string b => a == b
  | .bytes a, .bytes b => a == b
  | _, _ => false

/-- An unsigned integer is signed as long as it fits. -/
def ofUInt64 (n : UInt64) : Scalar :=
  if n.toNat < 0x8000000000000000 then .int (Int64.ofInt n.toNat) else .uint n

def ofOption {α : Type} (scalar : α → Scalar) : Option α → Scalar
  | none => .null
  | some a => scalar a

/-- The scalar of a day is its text. -/
def ofDate (d : Date) : Scalar := .date d.text

/-- The scalar of a point in time is its text. -/
def ofDateTime (t : DateTime) : Scalar := .timestamp t.text

/-- A text that denotes a day becomes a date scalar, unchanged. -/
def dateOfText (text : String) : Except ScanError Scalar :=
  (Date.ofText text).map fun _ => .date text

/-- A text that denotes a point in time becomes a timestamp scalar, unchanged. -/
def timestampOfText (text : String) : Except ScanError Scalar :=
  (DateTime.ofText text).map fun _ => .timestamp text

/-- The scalar of a text whose sort is not known: a timestamp if it is one, else a date if it is
one, else a plain text. -/
def ofText (text : String) : Scalar :=
  match timestampOfText text with
  | .ok scalar => scalar
  | .error _ =>
    match dateOfText text with
    | .ok scalar => scalar
    | .error _ => .string text

end Scalar

end QueryTree
