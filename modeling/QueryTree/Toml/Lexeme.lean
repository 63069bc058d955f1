import QueryTree.Calendar.Date
import QueryTree.Text.Hex
import QueryTree.Toml.Basic

/-! The words of TOML: white space and comments, strings in their four forms, numbers, and dates
and times.  Each reader takes the text that is left and gives what it read with the rest, or
nothing. -/

namespace QueryTree.Toml

open QueryTree.Decimal (isDigit digitValue natOfDigits)
open QueryTree.Text (hexValue? hexQuad?)

def isSpace (c : Char) : Bool := c = ' ' || c = '\t'

def skipSpace (text : List Char) : List Char := text.dropWhile isSpace

/-- The characters of comments and literal strings: no control character but the tab. -/
def isPlain (c : Char) : Bool := c = '\t' || (32 ≤ c.toNat && c.toNat ≠ 127)

/-- The text after a line break. -/
def newline? : List Char → Option (List Char)
  | '\n' :: rest => some rest
  | '\r' :: '\n' :: rest => some rest
  | _ => none

/-- The text after an optional comment. -/
def skipComment : List Char → List Char
  | '#' :: rest => rest.dropWhile isPlain
  | text => text

/-- The rest of a line may hold only spaces and a comment. -/
def endOfLine? (text : List Char) : Option (List Char) :=
  match skipComment (skipSpace text) with
  | [] => some []
  | rest => newline? rest

/-- Spaces, comments and line breaks between the items of an array.  `fuel` bounds their number. -/
def skipLines : Nat → List Char → List Char
  | 0, text => text
  | fuel + 1, text =>
    let here := skipSpace text
    match newline? (skipComment here) with
    | some rest => skipLines fuel rest
    | none => here

/-! ### Strings -/

/-- The character with a given code point, if it is a Unicode scalar value. -/
def scalarChar? (n : Nat) : Option Char :=
  if h : n.isValidChar then some (Char.ofNatAux n h) else none

/-- The character that a one-letter escape stands for. -/
def escape? (c : Char) : Option Char :=
  if c = '"' then some '"'
  else if c = '\\' then some '\\'
  else if c = 'b' then some (Char.ofNat 8)
  else if c = 'f' then some (Char.ofNat 12)
  else if c = 'n' then some '\n'
  else if c = 'r' then some '\r'
  else if c = 't' then some '\t'
  else none

def consChar (c : Char) (r : Option (List Char × List Char)) : Option (List Char × List Char) :=
  r.map fun (s, rest) => (c :: s, rest)

/-- A basic string after its opening quote. -/
def basicString : List Char → Option (List Char × List Char)
  | [] => none
  | '"' :: rest => some ([], rest)
  | '\\' :: 'u' :: a :: b :: c :: d :: rest => do
    let char ← scalarChar? (← hexQuad? a b c d)
    consChar char (basicString rest)
  | '\\' :: 'U' :: a :: b :: c :: d :: e :: f :: g :: h :: rest => do
    let char ← scalarChar? ((← hexQuad? a b c d) * 65536 + (← hexQuad? e f g h))
    consChar char (basicString rest)
  | '\\' :: c :: rest => do
    let char ← escape? c
    consChar char (basicString rest)
  | c :: rest => if isPlain c && c ≠ '\\' then consChar c (basicString rest) else none

/-- A literal string after its opening apostrophe. -/
def literalString : List Char → Option (List Char × List Char)
  | [] => none
  | c :: rest =>
    if c = '\'' then some ([], rest)
    else if isPlain c then consChar c (literalString rest)
    else none

/-- A basic string of several lines after its opening quotes.  Up to two quotes may stand directly
before the closing three.  After a backslash at the end of a line, `skipping` holds until something
other than white space comes. -/
def longBasicString (skipping : Bool) : List Char → Option (List Char × List Char)
  | [] => none
  | '"' :: '"' :: '"' :: '"' :: '"' :: rest => some (['"', '"'], rest)
  | '"' :: '"' :: '"' :: '"' :: rest => some (['"'], rest)
  | '"' :: '"' :: '"' :: rest => some ([], rest)
  | '\\' :: 'u' :: a :: b :: c :: d :: rest => do
    let char ← scalarChar? (← hexQuad? a b c d)
    consChar char (longBasicString false rest)
  | '\\' :: 'U' :: a :: b :: c :: d :: e :: f :: g :: h :: rest => do
    let char ← scalarChar? ((← hexQuad? a b c d) * 65536 + (← hexQuad? e f g h))
    consChar char (longBasicString false rest)
  | '\\' :: c :: rest =>
    match escape? c with
    | some char => consChar char (longBasicString false rest)
    | none =>
      if (newline? (skipSpace (c :: rest))).isSome then longBasicString true (c :: rest) else none
  | '\r' :: '\n' :: rest =>
    if skipping then longBasicString true rest
    else consChar '\n' (longBasicString false rest)
  | c :: rest =>
    if c = '\n' then
      if skipping then longBasicString true rest
      else consChar '\n' (longBasicString false rest)
    else if isPlain c && c ≠ '\\' then
      if skipping && isSpace c then longBasicString true rest
      else consChar c (longBasicString false rest)
    else none

/-- A literal string of several lines after its opening apostrophes. -/
def longLiteralString : List Char → Option (List Char × List Char)
  | [] => none
  | '\'' :: '\'' :: '\'' :: '\'' :: '\'' :: rest => some (['\'', '\''], rest)
  | '\'' :: '\'' :: '\'' :: '\'' :: rest => some (['\''], rest)
  | '\'' :: '\'' :: '\'' :: rest => some ([], rest)
  | '\r' :: '\n' :: rest => consChar '\n' (longLiteralString rest)
  | c :: rest =>
    if c = '\n' || isPlain c then consChar c (longLiteralString rest) else none

/-- A line break directly after the opening quotes of a long string does not count. -/
def dropNewline (text : List Char) : List Char := (newline? text).getD text

def string? (text : List Char) : Option (String × List Char) :=
  let chars := match text with
    | '"' :: '"' :: '"' :: rest => longBasicString false (dropNewline rest)
    | '"' :: rest => basicString rest
    | '\'' :: '\'' :: '\'' :: rest => longLiteralString (dropNewline rest)
    | '\'' :: rest => literalString rest
    | _ => none
  chars.map fun (s, rest) => (String.ofList s, rest)

/-! ### Numbers -/

/-- Digits with single underscores between them, which are dropped. -/
def digitRun (accepts : Char → Bool) : List Char → List Char × List Char
  | [] => ([], [])
  | '_' :: c :: rest =>
    if accepts c then
      let (ds, after) := digitRun accepts rest
      (c :: ds, after)
    else ([], '_' :: c :: rest)
  | c :: rest =>
    if accepts c then
      let (ds, after) := digitRun accepts rest
      (c :: ds, after)
    else ([], c :: rest)

/-- One or more digits with single underscores between them. -/
def digits? (accepts : Char → Bool) : List Char → Option (List Char × List Char)
  | [] => none
  | c :: rest => if accepts c then some (digitRun accepts (c :: rest)) else none

/-- An optional sign; the first component says whether it is a minus. -/
def sign : List Char → Bool × List Char
  | '-' :: rest => (true, rest)
  | '+' :: rest => (false, rest)
  | text => (false, text)

/-- The digits of a decimal integer; a leading zero stands alone. -/
def wholeDigits? : List Char → Option (List Char × List Char)
  | '0' :: rest => some (['0'], rest)
  | text => digits? isDigit text

/-- An integer that fits a signed 64-bit word. -/
def integerItem? (n : Int) (rest : List Char) : Option (Item × List Char) :=
  if -0x8000000000000000 ≤ n ∧ n < 0x8000000000000000 then some (.integer n, rest) else none

/-- The number that digits denote in a base. -/
def valueIn (base : Nat) (digits : List Char) : Nat :=
  digits.foldl (fun n c => n * base + (hexValue? c).getD 0) 0

/-- An integer in another base, after its mark. -/
def basedInteger? (base : Nat) (text : List Char) : Option (Item × List Char) := do
  let (ds, rest) ← digits? (fun c => (hexValue? c).any (· < base)) text
  integerItem? (valueIn base ds) rest

def integer? : List Char → Option (Item × List Char)
  | '0' :: 'x' :: rest => basedInteger? 16 rest
  | '0' :: 'o' :: rest => basedInteger? 8 rest
  | '0' :: 'b' :: rest => basedInteger? 2 rest
  | text => do
    let (negative, rest) := sign text
    let (ds, rest) ← wholeDigits? rest
    let n := natOfDigits ds
    integerItem? (if negative then -(n : Int) else n) rest

/-- An exponent with its mark. -/
def exponent? : List Char → Option (Int × List Char)
  | c :: rest => do
    guard (c = 'e' ∨ c = 'E')
    let (negative, rest) := sign rest
    let (ds, rest) ← digits? isDigit rest
    let n := natOfDigits ds
    some (if negative then -(n : Int) else n, rest)
  | [] => none

/-- A number with a fraction, an exponent or both; it must not exceed the doubles. -/
def real? (text : List Char) : Option (Item × List Char) := do
  let (negative, rest) := sign text
  let (whole, rest) ← wholeDigits? rest
  let (fraction, exponent, rest) ← match rest with
    | '.' :: rest => do
      let (fraction, rest) ← digits? isDigit rest
      match exponent? rest with
      | some (e, rest) => some (fraction, e, rest)
      | none => some (fraction, 0, rest)
    | rest => do
      let (e, rest) ← exponent? rest
      some ([], e, rest)
  let x := Decimal.nearest (natOfDigits (whole ++ fraction)) (exponent - fraction.length)
  guard (negative || !x.isInf)
  some (.real, rest)

/-- The text after a word that it starts with. -/
def word? : List Char → List Char → Option (List Char)
  | [], text => some text
  | _ :: _, [] => none
  | w :: ws, c :: text => if w = c then word? ws text else none

/-- Infinity, or what is not a number, with an optional sign. -/
def specialReal? (text : List Char) : Option (Item × List Char) := do
  let (_, rest) := sign text
  let rest ← (word? ['i', 'n', 'f'] rest).or (word? ['n', 'a', 'n'] rest)
  some (.real, rest)

/-! ### Dates and times -/

/-- A number of exactly `count` digits. -/
def fixed? (count : Nat) (text : List Char) : Option (Nat × List Char) :=
  let ds := text.take count
  if ds.length = count && ds.all isDigit then some (natOfDigits ds, text.drop count) else none

def day? (text : List Char) : Option (List Char) := do
  let (year, rest) ← fixed? 4 text
  let rest ← word? ['-'] rest
  let (month, rest) ← fixed? 2 rest
  let rest ← word? ['-'] rest
  let (day, rest) ← fixed? 2 rest
  guard (1 ≤ day ∧ day ≤ Calendar.daysInMonth year month)
  some rest

/-- A time of day with an optional fraction. -/
def clock? (text : List Char) : Option (List Char) := do
  let (hour, rest) ← fixed? 2 text
  let rest ← word? [':'] rest
  let (minute, rest) ← fixed? 2 rest
  let rest ← word? [':'] rest
  let (second, rest) ← fixed? 2 rest
  guard (hour ≤ 23 ∧ minute ≤ 59 ∧ second ≤ 60)
  match rest with
  | '.' :: rest => if rest.head?.any isDigit then some (rest.dropWhile isDigit) else none
  | rest => some rest

/-- An offset from UTC, which may be missing. -/
def skipOffset? : List Char → Option (List Char)
  | [] => some []
  | c :: rest =>
    if c = 'Z' ∨ c = 'z' then some rest
    else if c = '+' ∨ c = '-' then do
      let (hour, rest) ← fixed? 2 rest
      let rest ← word? [':'] rest
      let (minute, rest) ← fixed? 2 rest
      guard (hour ≤ 23 ∧ minute ≤ 59)
      some rest
    else some (c :: rest)

/-- What may follow a day: a time of day with an optional offset. -/
def afterDay? : List Char → Option (List Char)
  | [] => some []
  | c :: rest =>
    if c = 'T' ∨ c = 't' ∨ c = ' ' then
      match clock? rest with
      | some rest => skipOffset? rest
      | none => some (c :: rest)
    else some (c :: rest)

/-- A date, a time of day, or both. -/
def moment? (text : List Char) : Option (Item × List Char) :=
  match day? text with
  | some rest => (afterDay? rest).map fun rest => (.moment, rest)
  | none => (clock? text).map fun rest => (.moment, rest)

/-- A value that starts with a digit or a sign. -/
def numeric? (text : List Char) : Option (Item × List Char) :=
  (moment? text).or <| (real? text).or <| (specialReal? text).or <| integer? text

/-! ### Keys -/

/-- The characters of a key without quotes. -/
def isBare (c : Char) : Bool := c.isAlphanum || c = '_' || c = '-'

def keyPart? : List Char → Option (String × List Char)
  | '"' :: rest => (basicString rest).map fun (s, rest) => (String.ofList s, rest)
  | '\'' :: rest => (literalString rest).map fun (s, rest) => (String.ofList s, rest)
  | text =>
    let s := text.takeWhile isBare
    if s.isEmpty then none else some (String.ofList s, text.dropWhile isBare)

/-- The parts of a dotted key, with optional spaces around them.  `fuel` bounds their number. -/
def keyParts? : Nat → List Char → Option (List String × List Char)
  | 0, _ => none
  | fuel + 1, text => do
    let (part, rest) ← keyPart? (skipSpace text)
    match skipSpace rest with
    | '.' :: rest => do
      let (parts, rest) ← keyParts? fuel rest
      some (part :: parts, rest)
    | rest => some ([part], rest)

/-- Keys have fewer parts than this. -/
def keyLimit : Nat := 80

/-- A dotted key as the path before its last part and that part. -/
def key? (text : List Char) : Option ((List String × String) × List Char) := do
  let (parts, rest) ← keyParts? (keyLimit - 1) text
  some ((parts.dropLast, parts.getLastD ""), rest)

end QueryTree.Toml
