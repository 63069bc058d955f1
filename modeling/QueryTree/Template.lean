import QueryTree.Error
import QueryTree.Text.Quoted

/-! Templates of raw statement text: a question mark is a hole for a parameter, and two of them
stand for one in the text.  `Template.parse` cuts a template at its holes, fragment by fragment, and
a fragment is taken piece by piece. -/

namespace QueryTree.Template

/-- Takes one thing after the other from a text, as long as there is one, and gives what is left.
A thing that takes up no text is refused, with the text where it stands: it would never end. -/
def many {α : Type} (take? : List Char → Option (α × List Char)) (text : List Char) :
    Except (List Char) (List α × List Char) :=
  match take? text with
  | none => .ok ([], text)
  | some (a, rest) =>
    if _h : rest.length < text.length then
      (many take? rest).map fun (more, left) => (a :: more, left)
    else .error text
termination_by text.length

/-- A question mark for a pair of them, or all text up to the next question mark. -/
def piece? : List Char → Option (List Char × List Char)
  | '?' :: '?' :: rest => some (['?'], rest)
  | text =>
    let plain := text.takeWhile (· != '?')
    if plain.isEmpty then none else some (plain, text.dropWhile (· != '?'))

/-- The text up to the next lone question mark, and what is left from there on. -/
def fragment (text : List Char) : Except (List Char) (List Char × List Char) :=
  (many piece? text).map fun (pieces, left) => (pieces.flatten, left)

/-- A question mark and the fragment after it. -/
def following? : List Char → Option (List Char × List Char)
  | '?' :: rest => (fragment rest).toOption
  | _ => none

/-- The fragments at the start of a text, and what is left after the last. -/
def cut (text : List Char) : Except (List Char) (List (List Char) × List Char) := do
  let (first, left) ← fragment text
  let (more, left) ← many following? left
  return (first :: more, left)

/-- The fragments of a template, one more than it has holes.  They must make up the template. -/
def parse (template : String) : Except Error (List String) :=
  match cut template.toList with
  | .ok (fragments, []) => .ok (fragments.map String.ofList)
  | .ok (_, left) =>
    .error (.template (template.utf8ByteSize - (String.ofList left).utf8ByteSize)
      ("Unexpected trailing content: '" ++ String.ofList left ++ "'"))
  | .error text =>
    .error (.template 0 ("Parse failed: Error(Error \x7b input: " ++
      Text.quoted (String.ofList text) ++ ", code: Many0 \x7d)"))

end QueryTree.Template
