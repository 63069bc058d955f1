/-! TOML documents as tables.  An entry of a table remembers how it came about, because that
decides whether later lines of the document may add to it.  `Entries.put` enters a value under a
dotted key, `Entries.openTable` and `Entries.openElement` act on the two sorts of header. -/

namespace QueryTree.Toml

/-- How a table came about. -/
inductive Origin where
  /-- It is written between braces; nothing can be added to it. -/
  | inline
  /-- A header names it. -/
  | header
  /-- The header of a table below it names it on the way. -/
  | implied
  /-- A dotted key names it on the way. -/
  | dotted
deriving DecidableEq

/-- What a key of a table stands for. -/
inductive Item where
  | string (s : String)
  | integer (n : Int)
  | bool (b : Bool)
  /-- A number with a fraction or an exponent, which no setting takes. -/
  | real
  /-- A date, a time or both, which no setting takes. -/
  | moment
  | array (items : List Item)
  | table (origin : Origin) (entries : List (String × Item))
  /-- The tables of a repeated header. -/
  | tables (elements : List (List (String × Item)))

/-- The entries of a table, in the order in which their keys first come. -/
abbrev Entries := List (String × Item)

namespace Entries

def find? (entries : Entries) (key : String) : Option Item := entries.lookup key

/-- The entries with another item under a key that they have. -/
def replace (entries : Entries) (key : String) (item : Item) : Entries :=
  entries.map fun (k, old) => if k == key then (k, item) else (k, old)

/-- The entries with an item under a key that they do not have yet. -/
def add (entries : Entries) (key : String) (item : Item) : Option Entries :=
  match entries.find? key with
  | some _ => none
  | none => some (entries ++ [(key, item)])

/-- Changes the last of a list of elements. -/
def changeLast (change : Entries → Option Entries) : List Entries → Option (List Entries)
  | [] => none
  | [element] => (change element).map ([·])
  | element :: rest => (changeLast change rest).map (element :: ·)

/-- Enters a value under a dotted key, given as the path before its last part and that part.  The
tables on the way are made as needed.  A table that a header names stays closed to dotted keys, and
one that headers only imply is open for passing through, not for a new key of its own. -/
def put (key : String) (value : Item) : List String → Entries → Option Entries
  | [], entries => entries.add key value
  | part :: path, entries =>
    match entries.find? part with
    | none => do
      let inner ← put key value path []
      entries.add part (.table .dotted inner)
    | some (.table .dotted inner) => do
      let inner ← put key value path inner
      some (entries.replace part (.table .dotted inner))
    | some (.table .implied inner) =>
      if path.isEmpty then none
      else do
        let inner ← put key value path inner
        some (entries.replace part (.table .implied inner))
    | some (.tables elements) =>
      if path.isEmpty then none
      else do
        let elements ← changeLast (put key value path) elements
        some (entries.replace part (.tables elements))
    | some _ => none

/-- Changes the table that a header's path leads to.  Tables on the way are made as needed; of a
repeated table the last element is meant. -/
def changeAt (change : Entries → Option Entries) : List String → Entries → Option Entries
  | [], entries => change entries
  | part :: path, entries =>
    match entries.find? part with
    | none => do
      let inner ← changeAt change path []
      entries.add part (.table .implied inner)
    | some (.table .inline _) => none
    | some (.table origin inner) => do
      let inner ← changeAt change path inner
      some (entries.replace part (.table origin inner))
    | some (.tables elements) => do
      let elements ← changeLast (changeAt change path) elements
      some (entries.replace part (.tables elements))
    | some _ => none

/-- A header names a table that is new, or that other headers only implied. -/
def openTable (key : String) (entries : Entries) : Option Entries :=
  match entries.find? key with
  | none => entries.add key (.table .header [])
  | some (.table .implied inner) => some (entries.replace key (.table .header inner))
  | some _ => none

/-- A repeated header starts a further element. -/
def openElement (key : String) (entries : Entries) : Option Entries :=
  match entries.find? key with
  | none => entries.add key (.tables [[]])
  | some (.tables elements) => some (entries.replace key (.tables (elements ++ [[]])))
  | some _ => none

end Entries

end QueryTree.Toml
