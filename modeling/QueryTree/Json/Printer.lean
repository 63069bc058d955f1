import QueryTree.Decimal.Printed
import QueryTree.Json.Basic

/-! Writing JSON documents: `Json.compact` without any white space, `Json.indented` with one item
or member a line. -/

namespace QueryTree.Json

/-- Doubles are written positionally from a hundred-thousandth up to `10^16`, always with a point
or an exponent. -/
def realStyle : Decimal.Style where
  positional e := -5 ≤ e && e < 16
  pointZero := true
  tie := .toEven
  notANumber := "null"
  infinity := "null"

/-- A number; what is not finite has no number and is written as `null`. -/
def numberText : Number → String
  | .integer n => toString n
  | .real x => if x.isFinite then realStyle.print x else "null"

/-- A character within a string: quotes, backslashes and control characters are escaped. -/
def escaped (c : Char) : List Char :=
  if c = '"' then ['\\', '"']
  else if c = '\\' then ['\\', '\\']
  else if c = '\n' then ['\\', 'n']
  else if c = '\r' then ['\\', 'r']
  else if c = '\t' then ['\\', 't']
  else if c.toNat = 8 then ['\\', 'b']
  else if c.toNat = 12 then ['\\', 'f']
  else if c.toNat < 32 then
    ['\\', 'u', '0', '0', Nat.digitChar (c.toNat / 16), Nat.digitChar (c.toNat % 16)]
  else [c]

def quoted (s : String) : String := "\"" ++ String.ofList (s.toList.flatMap escaped) ++ "\""

mutual

/-- The text of a document without white space. -/
def compact : Json → String
  | .null => "null"
  | .bool true => "true"
  | .bool false => "false"
  | .number n => numberText n
  | .string s => quoted s
  | .array items => "[" ++ compactItems items ++ "]"
  | .object members => "\x7b" ++ compactMembers members ++ "\x7d"

def compactItems : List Json → String
  | [] => ""
  | [item] => compact item
  | item :: rest => compact item ++ "," ++ compactItems rest

def compactMembers : List (String × Json) → String
  | [] => ""
  | [(name, value)] => quoted name ++ ":" ++ compact value
  | (name, value) :: rest => quoted name ++ ":" ++ compact value ++ "," ++ compactMembers rest

end

/-- The start of a line at the given depth, two spaces a level. -/
def lineStart (depth : Nat) : String := "\n" ++ String.ofList (List.replicate (2 * depth) ' ')

mutual

/-- The text of a document with each item and member on a line of its own, indented by its depth;
an empty array or object stays on one line. -/
def indented (depth : Nat) : Json → String
  | .array [] => "[]"
  | .array (item :: rest) =>
    "[" ++ indentedItems (depth + 1) (item :: rest) ++ lineStart depth ++ "]"
  | .object [] => "\x7b\x7d"
  | .object (member :: rest) =>
    "\x7b" ++ indentedMembers (depth + 1) (member :: rest) ++ lineStart depth ++ "\x7d"
  | .null => "null"
  | .bool true => "true"
  | .bool false => "false"
  | .number n => numberText n
  | .string s => quoted s

/-- Items, each on a line of its own. -/
def indentedItems (depth : Nat) : List Json → String
  | [] => ""
  | [item] => lineStart depth ++ indented depth item
  | item :: rest =>
    lineStart depth ++ indented depth item ++ "," ++ indentedItems depth rest

/-- Members, each on a line of its own. -/
def indentedMembers (depth : Nat) : List (String × Json) → String
  | [] => ""
  | [(name, value)] => lineStart depth ++ quoted name ++ ": " ++ indented depth value
  | (name, value) :: rest =>
    lineStart depth ++ quoted name ++ ": " ++ indented depth value ++ ","
      ++ indentedMembers depth rest

end

end QueryTree.Json
