import QueryTree.Json.Draft

/-! Decoding drafts.  A `Reader` takes a draft to a value of some type.  It works in one of two
modes: `streaming`, in which the text is read while it is decoded, so that the first fault of
either sort counts; and `buffered`, in which the whole of the draft is known to be readable.

Records are decoded by a `Layout`, the list of their fields in order.  A record is written as an
object, with its members in any order and others among them, or as the array of its fields. -/

namespace QueryTree

/-- Why a document cannot be decoded. -/
inductive DecodeError where
  /-- The text is not JSON. -/
  | refused (r : Refusal)
  | missingField (name : String)
  | duplicateField (name : String)
  | unknownVariant (name : String) (known : List String)
  /-- No sort of scalar fits. -/
  | noScalar
  | invalidType
  | invalidValue
  | invalidLength
deriving DecidableEq

def backquoted (s : String) : String := "`" ++ s ++ "`"

/-- The wording of a cause.  It is abridged: no line or column of the text is named, nor which type,
value or length was found. -/
def DecodeError.message : DecodeError → String
  | .refused .malformed => "the text is not JSON"
  | .refused .truncated => "the text ends too early"
  | .missingField name => "missing field " ++ backquoted name
  | .duplicateField name => "duplicate field " ++ backquoted name
  | .unknownVariant name known =>
    "unknown variant " ++ backquoted name ++ ", expected " ++
      match known with
      | [only] => backquoted only
      | known => "one of " ++ ", ".intercalate (known.map backquoted)
  | .noScalar => "data did not match any variant of untagged enum Value"
  | .invalidType => "invalid type"
  | .invalidValue => "invalid value"
  | .invalidLength => "invalid length"

/-- The two modes of decoding; `room` is the number of levels of nesting that are left. -/
inductive Mode where
  | streaming (room : Nat)
  | buffered
deriving DecidableEq

/-- The deepest nesting of a document, its outermost array or object included. -/
def nestingLimit : Nat := 127

/-- The mode in which a document is decoded from its start. -/
def Mode.start : Mode := .streaming nestingLimit

abbrev Decoded := Except DecodeError

/-- Fails with a refusal if there is one. -/
def refuse? : Option Refusal → Decoded Unit
  | none => .ok ()
  | some r => .error (.refused r)

/-- The mode within an array or object. -/
def Mode.enter : Mode → Decoded Mode
  | .streaming 0 => .error (.refused .malformed)
  | .streaming (room + 1) => .ok (.streaming room)
  | .buffered => .ok .buffered

/-- Makes sure that the whole of a draft can be read and kept. -/
def Mode.keep (mode : Mode) (d : Draft) : Decoded Unit :=
  match mode with
  | .streaming room => refuse? (d.refusal? room)
  | .buffered => .ok ()

/-- Makes sure that a draft can be skimmed. -/
def Mode.skim (mode : Mode) (d : Draft) : Decoded Unit :=
  match mode with
  | .streaming _ => refuse? d.skimRefusal?
  | .buffered => .ok ()

/-- A decoder of values of one type. -/
abbrev Reader (α : Type) := Mode → Draft → Decoded α

/-- The error for a draft of the wrong type.  A scalar is read whole before it is refused. -/
def wrongType {α : Type} : Draft → Decoded α
  | .flawed => .error (.refused .malformed)
  | .broken _ fault => .error (.refused fault.kept)
  | _ => .error .invalidType

namespace Reader

def text : Reader String
  | _, .string s => .ok s
  | _, d => wrongType d

/-- A value or `null`. -/
def option {α : Type} (r : Reader α) : Reader (Option α)
  | _, .null => .ok none
  | _, .broken .null fault => .error (.refused fault.kept)
  | mode, d => (r mode d).map some

def items {α : Type} (r : Reader α) (mode : Mode) : List Draft → Decoded (List α)
  | [] => .ok []
  | d :: rest => do
    let a ← r mode d
    let as ← items r mode rest
    .ok (a :: as)

def list {α : Type} (r : Reader α) : Reader (List α)
  | mode, .array ds ending => do
    let inner ← mode.enter
    let as ← items r inner ds
    refuse? ending.refusal?
    .ok as
  | _, d => wrongType d

/-- Nothing: `null`, or in a buffered document also an empty object. -/
def nothing : Reader Unit
  | _, .null => .ok ()
  | .buffered, .object [] _ => .ok ()
  | _, d => wrongType d

def named {α : Type} (all : List α) (name : α → String) (s : String) : Decoded α :=
  match all.find? fun a => name a == s with
  | some a => .ok a
  | none => .error (.unknownVariant s (all.map name))

/-- A choice by name in a streamed document: a string, or an object whose only member has that name
and no content. -/
def streamedChoice {α : Type} (all : List α) (name : α → String) (mode : Mode) :
    Draft → Decoded α
  | .string s => named all name s
  | .broken .nothing fault => .error (.refused fault.kept)
  | .broken .string fault => .error (.refused fault.kept)
  | .object [] .closed => .error (.refused .malformed)
  | .object [] (.cut fault) => .error (.refused fault.kept)
  | .object [] (.unnamed fault) => .error (.refused fault.kept)
  | .object ((none, _) :: _) _ => .error (.refused .malformed)
  | .object ((some s, content) :: more) ending => do
    let inner ← mode.enter
    let a ← named all name s
    nothing inner content
    match more, ending with
    | [], .closed => .ok a
    | [], .cut fault => .error (.refused fault.kept)
    | _, _ => .error (.refused .malformed)
  | _ => .error (.refused .malformed)

/-- A choice by name in a buffered document. -/
def bufferedChoice {α : Type} (all : List α) (name : α → String) : Draft → Decoded α
  | .string s => named all name s
  | .object [(some s, content)] _ => do
    let a ← named all name s
    nothing .buffered content
    .ok a
  | .object _ _ => .error .invalidValue
  | _ => .error .invalidType

def choice {α : Type} (all : List α) (name : α → String) : Reader α
  | .streaming room, d => streamedChoice all name (.streaming room) d
  | .buffered, d => bufferedChoice all name d

end Reader

structure Field (α : Type) where
  name : String
  read : Reader α
  /-- The value of a field that is left out, if it may be. -/
  absent : Option α := none

/-- The fields of a record in order.  The first index is the type of their values together, the
second that of the values found so far. -/
inductive Layout : Type → Type → Type 1 where
  | done : Layout Unit Unit
  | field {α β σ : Type} (f : Field α) (rest : Layout β σ) : Layout (α × β) (Option α × σ)

namespace Layout

/-- No value was found yet. -/
def empty {ρ σ : Type} : Layout ρ σ → σ
  | .done => ()
  | .field _ rest => (none, rest.empty)

/-- Takes in the member with a given name.  A field must not come twice, and a member that is no
field is skimmed. -/
def put {ρ σ : Type} (mode : Mode) (name : String) (d : Draft) : Layout ρ σ → σ → Decoded σ
  | .done, found => do
    mode.skim d
    .ok found
  | .field f rest, (found, more) =>
    if f.name == name then
      match found with
      | some _ => .error (.duplicateField name)
      | none => do
        let a ← f.read mode d
        .ok (some a, more)
    else do
      let more ← rest.put mode name d more
      .ok (found, more)

/-- Takes in the members of an object, in turn. -/
def putAll {ρ σ : Type} (layout : Layout ρ σ) (mode : Mode) :
    List (Option String × Draft) → σ → Decoded σ
  | [], found => .ok found
  | (none, _) :: _, _ => .error (.refused .malformed)
  | (some name, d) :: rest, found => do
    let found ← layout.put mode name d found
    layout.putAll mode rest found

/-- The values of all fields; the first field that is missing and may not be left out is an error.
-/
def finish {ρ σ : Type} : Layout ρ σ → σ → Decoded ρ
  | .done, () => .ok ()
  | .field f rest, (found, more) => do
    let a ← match found.or f.absent with
      | some a => .ok a
      | none => .error (.missingField f.name)
    let as ← rest.finish more
    .ok (a, as)

/-- The fields written as the items of an array.  Fields at the end may be left out if each of them
may be; surplus items are refused. -/
def positional {ρ σ : Type} (mode : Mode) : Layout ρ σ → List Draft → Ending → Decoded ρ
  | .done, [], ending => refuse? ending.refusal?
  | .done, _ :: _, _ =>
    match mode with
    | .streaming _ => .error (.refused .malformed)
    | .buffered => .error .invalidLength
  | .field f rest, [], ending => do
    refuse? ending.refusal?
    match f.absent with
    | none => .error .invalidLength
    | some a =>
      let as ← rest.positional mode [] ending
      .ok (a, as)
  | .field f rest, d :: ds, ending => do
    let a ← f.read mode d
    let as ← rest.positional mode ds ending
    .ok (a, as)

def read {ρ σ : Type} (layout : Layout ρ σ) : Reader ρ
  | mode, .object members ending => do
    let inner ← mode.enter
    let found ← layout.putAll inner members layout.empty
    refuse? ending.refusal?
    layout.finish found
  | mode, .array ds ending => do
    let inner ← mode.enter
    layout.positional inner ds ending
  | _, d => wrongType d

end Layout

/-- Decodes a whole text; nothing but white space may follow the document. -/
def Reader.ofText {α : Type} (r : Reader α) (text : String) : Decoded α := do
  let (draft, rest) := Draft.ofText text.toList
  let a ← r .start draft
  match rest with
  | .error fault => .error (.refused fault.kept)
  | .ok rest =>
    if (Json.Read.skipSpace rest).isEmpty then .ok a else .error (.refused .malformed)

end QueryTree
