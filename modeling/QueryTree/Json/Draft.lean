import QueryTree.Decimal.Read
import QueryTree.Json.Basic
import QueryTree.Text.Blank
import QueryTree.Text.Hex

/-! Reading JSON text.  A text that is not JSON can still be JSON up to some place, and a decoder
may find fault with the part before that place first.  So reading never fails: it gives a `Draft`,
the document as far as it could be read, with the fault in the place where it was met.

Two ways of going through a text differ in what they refuse.  One keeps what it reads; the other
only skims over it, and then neither the range of numbers, nor unpaired surrogates, nor the depth
of nesting matter.  A draft serves both: `Draft.refusal?` is the first way, `Draft.skimRefusal?`
the second. -/

namespace QueryTree

open QueryTree.Decimal (isDigit digitValue natOfDigits scaled)

/-- How a text fails to be JSON. -/
inductive Refusal where
  /-- Something stands where it must not stand. -/
  | malformed
  /-- The text ends too early. -/
  | truncated
deriving DecidableEq, Repr

/-- A place that cannot be read: how it is refused when it is kept, and how when it is skimmed. -/
structure Fault where
  kept : Refusal
  skimmed : Refusal
deriving DecidableEq

/-- A fault that both ways of reading refuse alike. -/
def Fault.plain (r : Refusal) : Fault := ⟨r, r⟩

/-- What was begun in the place of a fault. -/
inductive Begun where
  | nothing
  | null
  | boolean
  | number
  | string
deriving DecidableEq

/-- How an array or object ends. -/
inductive Ending where
  /-- With its closing bracket. -/
  | closed
  /-- After an item or member, or after the opening bracket, where the text cannot go on. -/
  | cut (fault : Fault)
  /-- In an object, where a name is due and cannot be read. -/
  | unnamed (fault : Fault)
deriving DecidableEq

/-- A document as far as it could be read.  A faulty item or member is the last of its list. -/
inductive Draft where
  | null
  | bool (b : Bool)
  | number (n : Number)
  | string (s : String)
  /-- A number beyond the range of doubles, or a string with an unpaired surrogate. -/
  | flawed
  | array (items : List Draft) (ending : Ending)
  /-- An object; a name is missing if it has an unpaired surrogate. -/
  | object (members : List (Option String × Draft)) (ending : Ending)
  | broken (begun : Begun) (fault : Fault)

/-- The refusal of an ending by a reader that keeps what it reads. -/
def Ending.refusal? : Ending → Option Refusal
  | .closed => none
  | .cut fault => some fault.kept
  | .unnamed fault => some fault.kept

/-- The refusal of an ending by a reader that skims. -/
def Ending.skimRefusal? : Ending → Option Refusal
  | .closed => none
  | .cut fault => some fault.skimmed
  | .unnamed fault => some fault.skimmed

namespace Draft

mutual

/-- The first refusal of a reader that keeps the document, with `room` levels of nesting left. -/
def refusal? (room : Nat) : Draft → Option Refusal
  | .null => none
  | .bool _ => none
  | .number _ => none
  | .string _ => none
  | .flawed => some .malformed
  | .broken _ fault => some fault.kept
  | .array items ending =>
    if room = 0 then some .malformed
    else (itemsRefusal? (room - 1) items).or ending.refusal?
  | .object members ending =>
    if room = 0 then some .malformed
    else (membersRefusal? (room - 1) members).or ending.refusal?

def itemsRefusal? (room : Nat) : List Draft → Option Refusal
  | [] => none
  | item :: rest => (refusal? room item).or (itemsRefusal? room rest)

def membersRefusal? (room : Nat) : List (Option String × Draft) → Option Refusal
  | [] => none
  | (none, _) :: _ => some .malformed
  | (some _, value) :: rest => (refusal? room value).or (membersRefusal? room rest)

end

mutual

/-- The first refusal of a reader that skims over the document. -/
def skimRefusal? : Draft → Option Refusal
  | .null => none
  | .bool _ => none
  | .number _ => none
  | .string _ => none
  | .flawed => none
  | .broken _ fault => some fault.skimmed
  | .array items ending => (itemsSkimRefusal? items).or ending.skimRefusal?
  | .object members ending => (membersSkimRefusal? members).or ending.skimRefusal?

def itemsSkimRefusal? : List Draft → Option Refusal
  | [] => none
  | item :: rest => (skimRefusal? item).or (itemsSkimRefusal? rest)

def membersSkimRefusal? : List (Option String × Draft) → Option Refusal
  | [] => none
  | (_, value) :: rest => (skimRefusal? value).or (membersSkimRefusal? rest)

end

end Draft

namespace Json.Read

/-- The rest of a text, or the fault after which there is none. -/
abbrev Rest := Except Fault (List Char)

/-- The white space of JSON. -/
def isSpace (c : Char) : Bool := c = ' ' || c = '\n' || c = '\r' || c = '\t'

def skipSpace (text : List Char) : List Char := text.dropWhile isSpace

/-- A draft that cannot be continued. -/
def stop (begun : Begun) (fault : Fault) : Draft × Rest := (.broken begun fault, .error fault)

/-- The rest of a word after its first letter. -/
def word (begun : Begun) (draft : Draft) : List Char → List Char → Draft × Rest
  | [], text => (draft, .ok text)
  | _ :: _, [] => stop begun (.plain .truncated)
  | w :: ws, c :: text =>
    if w = c then word begun draft ws text else stop begun (.plain .malformed)

/-- Digits are taken into a significand as long as it stays below `2^64`; the second component
counts them. -/
def absorb (significand : Nat) : List Char → Nat × Nat
  | [] => (significand, 0)
  | c :: rest =>
    let next := significand * 10 + digitValue c
    if next < 0x10000000000000000 then
      let (n, count) := absorb next rest
      (n, count + 1)
    else (significand, 0)

/-- An integer as a number: doubles stand in for what no 64-bit word holds, and for minus zero. -/
def integer (negative : Bool) (significand : Nat) : Number :=
  if negative then
    if 0 < significand ∧ significand ≤ 0x8000000000000000 then .integer (-significand)
    else .real (-significand.toUInt64.toFloat)
  else .integer significand

structure Numeral where
  negative : Bool
  whole : List Char
  fraction : List Char
  /-- The power of ten, if one is written. -/
  exponent : Option Int

/-- The value of a numeral, or `none` if it exceeds every finite double. -/
def Numeral.value (n : Numeral) : Option Number :=
  let (first, wholeCount) := absorb 0 n.whole
  let dropped := n.whole.length - wholeCount
  if n.fraction.isEmpty && n.exponent.isNone && dropped == 0 then some (integer n.negative first)
  else
    let (significand, fractionCount) := absorb first n.fraction
    let exponent := (dropped : Int) - fractionCount + n.exponent.getD 0
    (scaled significand.toUInt64 exponent).map fun x => .real (if n.negative then -x else x)

/-- A numeral that was read whole. -/
def numeral (n : Numeral) (rest : List Char) : Draft × Rest :=
  match n.value with
  | some value => (.number value, .ok rest)
  | none => (.flawed, .ok rest)

/-- Where a digit is due and none stands. -/
def noDigit : List Char → Draft × Rest
  | [] => stop .number ⟨.truncated, .malformed⟩
  | _ :: _ => stop .number (.plain .malformed)

/-- The exponent of a number, after its mark. -/
def exponent (n : Numeral) (text : List Char) : Draft × Rest :=
  let (negative, digits) := match text with
    | '-' :: rest => (true, rest)
    | '+' :: rest => (false, rest)
    | rest => (false, rest)
  match digits.takeWhile isDigit with
  | [] => noDigit digits
  | ds =>
    let e := natOfDigits ds
    numeral { n with exponent := some (if negative then -(e : Int) else e) }
      (digits.dropWhile isDigit)

/-- What may follow the digits of a number: an exponent, or nothing of it. -/
def afterDigits (n : Numeral) : List Char → Draft × Rest
  | 'e' :: rest => exponent n rest
  | 'E' :: rest => exponent n rest
  | rest => numeral n rest

/-- What may follow the whole part of a number: a fraction, an exponent, or nothing of it. -/
def afterWhole (n : Numeral) : List Char → Draft × Rest
  | '.' :: rest =>
    match rest.takeWhile isDigit with
    | [] => noDigit rest
    | ds => afterDigits { n with fraction := ds } (rest.dropWhile isDigit)
  | rest => afterDigits n rest

/-- A number after its sign; a leading zero stands alone. -/
def unsigned (negative : Bool) (text : List Char) : Draft × Rest :=
  match text.takeWhile isDigit with
  | [] => noDigit text
  | '0' :: _ :: _ => stop .number (.plain .malformed)
  | ds => afterWhole ⟨negative, ds, [], none⟩ (text.dropWhile isDigit)

/-- A unit of a string: a character, or a number that is written in hexadecimal and may be half of
a character. -/
inductive TextUnit where
  | char (c : Char)
  | code (n : Nat)

/-- The character that a one-letter escape stands for. -/
def simpleEscape? (c : Char) : Option Char :=
  if c = '"' then some '"'
  else if c = '\\' then some '\\'
  else if c = '/' then some '/'
  else if c = 'b' then some (Char.ofNat 8)
  else if c = 'f' then some (Char.ofNat 12)
  else if c = 'n' then some '\n'
  else if c = 'r' then some '\r'
  else if c = 't' then some '\t'
  else none

/-- Puts a unit before those that follow. -/
def before (u : TextUnit) (r : List TextUnit × Rest) : List TextUnit × Rest := (u :: r.1, r.2)

/-- The units of a string after its opening quote, as far as it can be read, and the text after its
closing quote.  Four octets must follow an escaped `u`. -/
def units : List Char → List TextUnit × Rest
  | [] => ([], .error (.plain .truncated))
  | '"' :: rest => ([], .ok rest)
  | '\\' :: 'u' :: a :: b :: c :: d :: rest =>
    match Text.hexQuad? a b c d with
    | some n => before (.code n) (units rest)
    | none => ([], .error (.plain .malformed))
  | '\\' :: 'u' :: rest =>
    ([], .error (.plain (if Text.utf8Size rest < 4 then .truncated else .malformed)))
  | ['\\'] => ([], .error (.plain .truncated))
  | '\\' :: c :: rest =>
    match simpleEscape? c with
    | some e => before (.char e) (units rest)
    | none => ([], .error (.plain .malformed))
  | c :: rest =>
    if c.toNat < 32 then ([], .error (.plain .malformed)) else before (.char c) (units rest)

/-- Whether a unit is the first half of a surrogate pair. -/
def isHigh (n : Nat) : Bool := 0xD800 ≤ n && n ≤ 0xDBFF

/-- Whether a unit is the second half of a surrogate pair. -/
def isLow (n : Nat) : Bool := 0xDC00 ≤ n && n ≤ 0xDFFF

/-- What the units of a string stand for. -/
inductive Joined where
  | whole (text : List Char)
  /-- A surrogate has no partner; `last` says that it is the last unit, and a first half. -/
  | unpaired (last : Bool)

/-- Puts a character before the text of the units that follow. -/
def Joined.after (c : Char) : Joined → Joined
  | .whole text => .whole (c :: text)
  | .unpaired last => .unpaired last

def join : List TextUnit → Joined
  | [] => .whole []
  | .char c :: rest => (join rest).after c
  | .code n :: rest =>
    if isLow n then .unpaired false
    else if isHigh n then
      match rest with
      | [] => .unpaired true
      | .code m :: rest =>
        if isLow m then
          (join rest).after (Char.ofNat (0x10000 + (n - 0xD800) * 0x400 + (m - 0xDC00)))
        else .unpaired false
      | .char _ :: _ => .unpaired false
    else (join rest).after (Char.ofNat n)

/-- The text of a string after its opening quote, missing if a surrogate is unpaired. -/
def stringText (text : List Char) : Option String × Rest :=
  match units text with
  | (us, .ok rest) =>
    match join us with
    | .whole s => (some (String.ofList s), .ok rest)
    | .unpaired _ => (none, .ok rest)
  | (us, .error fault) =>
    match join us with
    | .unpaired false => (none, .error ⟨.malformed, fault.skimmed⟩)
    | _ => (none, .error fault)

/-- A string after its opening quote. -/
def string (text : List Char) : Draft × Rest :=
  match stringText text with
  | (some s, .ok rest) => (.string s, .ok rest)
  | (none, .ok rest) => (.flawed, .ok rest)
  | (_, .error fault) => stop .string fault

/-- A value that is neither an array nor an object, from its first character on. -/
def scalar : List Char → Draft × Rest
  | [] => stop .nothing (.plain .truncated)
  | 'n' :: rest => word .null .null ['u', 'l', 'l'] rest
  | 't' :: rest => word .boolean (.bool true) ['r', 'u', 'e'] rest
  | 'f' :: rest => word .boolean (.bool false) ['a', 'l', 's', 'e'] rest
  | '"' :: rest => string rest
  | '-' :: rest => unsigned true rest
  | c :: rest =>
    if isDigit c then unsigned false (c :: rest) else stop .nothing (.plain .malformed)

mutual

/-- A value after optional white space.  `fuel` bounds the number of steps. -/
def value : Nat → List Char → Draft × Rest
  | 0, _ => stop .nothing (.plain .malformed)
  | fuel + 1, text =>
    match skipSpace text with
    | '[' :: rest =>
      match skipSpace rest with
      | [] => (.array [] (.cut (.plain .truncated)), .error (.plain .truncated))
      | ']' :: rest => (.array [] .closed, .ok rest)
      | rest =>
        let (items, ending, rest) := items fuel rest
        (.array items ending, rest)
    | '\x7b' :: rest =>
      match skipSpace rest with
      | [] => (.object [] (.cut (.plain .truncated)), .error (.plain .truncated))
      | '\x7d' :: rest => (.object [] .closed, .ok rest)
      | rest =>
        let (members, ending, rest) := members fuel rest
        (.object members ending, rest)
    | rest => scalar rest

/-- One or more items with commas between them, up to the closing bracket. -/
def items : Nat → List Char → List Draft × Ending × Rest
  | 0, _ => ([], .cut (.plain .malformed), .error (.plain .malformed))
  | fuel + 1, text =>
    match value fuel text with
    | (item, .error fault) => ([item], .cut fault, .error fault)
    | (item, .ok rest) =>
      match skipSpace rest with
      | [] => ([item], .cut (.plain .truncated), .error (.plain .truncated))
      | ']' :: rest => ([item], .closed, .ok rest)
      | ',' :: rest =>
        let (more, ending, rest) := items fuel rest
        (item :: more, ending, rest)
      | _ :: _ => ([item], .cut (.plain .malformed), .error (.plain .malformed))

/-- One or more members with commas between them, up to the closing bracket. -/
def members : Nat → List Char → List (Option String × Draft) × Ending × Rest
  | 0, _ => ([], .cut (.plain .malformed), .error (.plain .malformed))
  | fuel + 1, text =>
    match skipSpace text with
    | '"' :: rest =>
      match stringText rest with
      | (_, .error fault) => ([], .unnamed fault, .error fault)
      | (name, .ok rest) =>
        match skipSpace rest with
        | [] =>
          let fault := Fault.plain .truncated
          ([(name, .broken .nothing fault)], .cut fault, .error fault)
        | ':' :: rest =>
          match value fuel rest with
          | (item, .error fault) => ([(name, item)], .cut fault, .error fault)
          | (item, .ok rest) =>
            match skipSpace rest with
            | [] => ([(name, item)], .cut (.plain .truncated), .error (.plain .truncated))
            | '\x7d' :: rest => ([(name, item)], .closed, .ok rest)
            | ',' :: rest =>
              let (more, ending, rest) := members fuel rest
              ((name, item) :: more, ending, rest)
            | _ :: _ => ([(name, item)], .cut (.plain .malformed), .error (.plain .malformed))
        | _ :: _ =>
          let fault := Fault.plain .malformed
          ([(name, .broken .nothing fault)], .cut fault, .error fault)
    | rest =>
      let fault := Fault.plain (if rest.isEmpty then .truncated else .malformed)
      ([], .unnamed fault, .error fault)

end

end Json.Read

/-- The document at the start of a text, as far as it can be read, and the text after it. -/
def Draft.ofText (text : List Char) : Draft × Json.Read.Rest :=
  Json.Read.value (2 * text.length + 2) text

end QueryTree
