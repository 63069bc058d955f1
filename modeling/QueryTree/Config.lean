import QueryTree.Dialect
import QueryTree.Error
import QueryTree.Text.Blank
import QueryTree.Toml.Document

/-! Settings from a TOML document.  They stand in the table `compiler`, or in an array of that
name in their order; what is left out keeps its default, and other keys are ignored. -/

namespace QueryTree.Settings

open QueryTree.Toml (Item Entries)

/-- A quote is a text of one character. -/
def quoteOf? : Item → Option Char
  | .string s =>
    match s.toList with
    | [c] => some c
    | _ => none
  | _ => none

/-- A lead is any text. -/
def leadOf? : Item → Option String
  | .string s => some s
  | _ => none

/-- A base is an integer that is not negative. -/
def baseOf? : Item → Option Nat
  | .integer n => if 0 ≤ n then some n.toNat else none
  | _ => none

/-- A setting from an item that may be missing. -/
def orDefault {α : Type} (read : Item → Option α) (default : α) : Option Item → Option α
  | none => some default
  | some item => read item

def ofItems? (quote lead base : Option Item) : Option Settings := do
  let defaults : Settings := {}
  some {
    identifierQuote := ← orDefault quoteOf? defaults.identifierQuote quote
    placeholderLead := ← orDefault leadOf? defaults.placeholderLead lead
    placeholderBase := ← orDefault baseOf? defaults.placeholderBase base }

def ofEntries? (entries : Entries) : Option Settings :=
  ofItems? (entries.find? "identifier_quote") (entries.find? "placeholder_prefix")
    (entries.find? "placeholder_base")

/-- Settings from an item: a table, or the array of their values in order.  A date or time counts
as a table that has none of them. -/
def ofItem? : Item → Option Settings
  | .table _ entries => ofEntries? entries
  | .array items => ofItems? items[0]? items[1]? items[2]?
  | .tables elements =>
    let items := elements.map (Item.table .header)
    ofItems? items[0]? items[1]? items[2]?
  | .moment => some {}
  | _ => none

def ofRoot? (root : Entries) : Option Settings :=
  match root.find? "compiler" with
  | none => some {}
  | some item => ofItem? item

/-- Why settings are refused, if they are: an empty lead comes before an invisible quote. -/
def problem? (s : Settings) : Option String :=
  if s.placeholderLead.isEmpty then some "placeholder_prefix must not be empty"
  else if Text.isBlank s.identifierQuote then some "identifier_quote must be a visible character"
  else none

/-- The settings of a document.  The reason for which a document is refused is abridged where it is
no TOML or has an item of the wrong type: no line, column or detail is named. -/
def ofToml (text : String) : Except Error Settings :=
  match (Toml.ofText? text).bind ofRoot? with
  | none => .error (.config "TOML parse error")
  | some s =>
    match s.problem? with
    | some reason => .error (.config reason)
    | none => .ok s

end QueryTree.Settings
