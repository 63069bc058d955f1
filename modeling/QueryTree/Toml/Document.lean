import QueryTree.Toml.Lexeme

/-! Whole TOML documents: values, lines and headers.  `Toml.ofText?` gives the root table of a
document, or nothing if the text is no TOML. -/

namespace QueryTree.Toml

/-- Arrays and inline tables are nested less deeply than this. -/
def nestingLimit : Nat := 80

mutual

/-- A value; `room` levels of nesting and `fuel` steps are left. -/
def value? (room : Nat) : Nat → List Char → Option (Item × List Char)
  | 0, _ => none
  | fuel + 1, text =>
    match text with
    | [] => none
    | '[' :: rest =>
      if room = 0 then none
      else do
        let (items, rest) ← items? (room - 1) fuel rest
        some (.array items, rest)
    | '\x7b' :: rest =>
      if room = 0 then none
      else
        match skipSpace rest with
        | '\x7d' :: rest => some (.table .inline [], rest)
        | rest => do
          let (entries, rest) ← entries? (room - 1) fuel rest []
          some (.table .inline entries, rest)
    | c :: rest =>
      if c = '"' ∨ c = '\'' then (string? (c :: rest)).map fun (s, rest) => (.string s, rest)
      else if c = 't' then (word? ['r', 'u', 'e'] rest).map fun rest => (.bool true, rest)
      else if c = 'f' then (word? ['a', 'l', 's', 'e'] rest).map fun rest => (.bool false, rest)
      else numeric? (c :: rest)

/-- The items of an array up to its closing bracket; a comma may follow the last. -/
def items? (room : Nat) : Nat → List Char → Option (List Item × List Char)
  | 0, _ => none
  | fuel + 1, text =>
    match skipLines text.length text with
    | ']' :: rest => some ([], rest)
    | rest => do
      let (item, rest) ← value? room fuel rest
      match skipLines rest.length rest with
      | ']' :: rest => some ([item], rest)
      | ',' :: rest => do
        let (items, rest) ← items? room fuel rest
        some (item :: items, rest)
      | _ => none

/-- The entries of an inline table up to its closing brace, on one line. -/
def entries? (room : Nat) : Nat → List Char → Entries → Option (Entries × List Char)
  | 0, _, _ => none
  | fuel + 1, text, found => do
    let ((path, key), rest) ← key? text
    let rest ← word? ['='] rest
    let (item, rest) ← value? room fuel (skipSpace rest)
    let found ← Entries.put key item path found
    match skipSpace rest with
    | '\x7d' :: rest => some (found, rest)
    | ',' :: rest => entries? room fuel rest found
    | _ => none

end

/-- A line `key = value`. -/
def assignment? (text : List Char) : Option ((List String × String × Item) × List Char) := do
  let ((path, key), rest) ← key? text
  let rest ← word? ['='] rest
  let rest := skipSpace rest
  let (item, rest) ← value? (nestingLimit - 1) (2 * rest.length + 2) rest
  let rest ← endOfLine? rest
  some ((path, key, item), rest)

/-- A header between the given closing brackets, after its opening ones. -/
def header? (closing text : List Char) : Option ((List String × String) × List Char) := do
  let (key, rest) ← key? text
  let rest ← word? closing rest
  let rest ← endOfLine? rest
  some (key, rest)

/-- Goes through the lines of a document.  `place` is the path of the header that the lines stand
under, and `fuel` bounds their number. -/
def lines? : Nat → List Char → List String → Entries → Option Entries
  | 0, _, _, _ => none
  | fuel + 1, text, place, root =>
    match skipSpace text with
    | [] => some root
    | '#' :: rest => do
      let rest ← endOfLine? ('#' :: rest)
      lines? fuel rest place root
    | '[' :: '[' :: rest => do
      let ((path, key), rest) ← header? [']', ']'] rest
      let root ← Entries.changeAt (Entries.openElement key) path root
      lines? fuel rest (path ++ [key]) root
    | '[' :: rest => do
      let ((path, key), rest) ← header? [']'] rest
      let root ← Entries.changeAt (Entries.openTable key) path root
      lines? fuel rest (path ++ [key]) root
    | rest =>
      match newline? rest with
      | some rest => lines? fuel rest place root
      | none => do
        let ((path, key, item), rest) ← assignment? rest
        let root ← Entries.changeAt (Entries.put key item path) place root
        lines? fuel rest place root

/-- The root table of a document; a byte order mark may stand before it. -/
def ofText? (text : String) : Option Entries :=
  let chars := match text.toList with
    | '\uFEFF' :: rest => rest
    | chars => chars
  lines? (chars.length + 1) chars [] []

end QueryTree.Toml
