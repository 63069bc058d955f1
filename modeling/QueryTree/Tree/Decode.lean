import QueryTree.Scalar.Codec
import QueryTree.Tree.Basic

/-! Reading trees from documents.  Each record has a layout, which takes the reader of nodes as a
parameter; `Node.read` ties the knot, one level of nodes at a time.

A node's document is read whole before it is decoded, except that the kind of an outermost node is
looked at as soon as it comes. -/

namespace QueryTree

/-- A field that must be there. -/
def required {α : Type} (name : String) (read : Reader α) : Field α := ⟨name, read, none⟩

/-- A field that may be left out or `null`. -/
def optional {α : Type} (name : String) (read : Reader α) : Field (Option α) :=
  ⟨name, read.option, some none⟩

/-- A list that may be left out, but not `null`. -/
def defaulted {α : Type} (name : String) (read : Reader α) : Field (List α) :=
  ⟨name, read.list, some []⟩

/-- Reads a record of one field. -/
def readOne {α : Type} (f : Field α) : Reader α := fun mode d => do
  let (a, _) ← (Layout.field f .done).read mode d
  .ok a

/-- Reads a record of two fields. -/
def readTwo {α β : Type} (f : Field α) (g : Field β) : Reader (α × β) := fun mode d => do
  let (a, b, _) ← (Layout.field f <| .field g .done).read mode d
  .ok (a, b)

/-- Reads a name in a place where only a name can stand. -/
def readName : Reader String := readOne (required "identifier" Reader.text)

/-- Reads the select modifier, of which there is one. -/
def readDistinct : Reader Unit := Reader.choice [()] fun _ => "Distinct"

def Lock.read : Reader Lock := Reader.choice Lock.all Lock.name

def JoinKind.read : Reader JoinKind := Reader.choice JoinKind.all JoinKind.name

def Select.readWith (node : Reader Node) : Reader Select := fun mode d => do
  let (selections, distinctOn, distinct, _) ←
    (Layout.field (required "selections" node.list) <|
      .field (defaulted "distinct_on_selections" node) <|
      .field (optional "modifier" readDistinct) .done).read mode d
  .ok { selections, distinctOn, distinct := distinct.isSome }

def Join.readWith (node : Reader Node) : Reader Join := fun mode d => do
  let (kind, table, condition, _) ←
    (Layout.field (required "join_type" JoinKind.read) <|
      .field (required "table" node) <|
      .field (optional "on" node) .done).read mode d
  .ok { kind, table, condition }

def Query.readWith (node : Reader Node) : Reader Query := fun mode d => do
  let (select, sources, joins, condition, lock, _) ←
    (Layout.field (optional "select" (Select.readWith node)) <|
      .field (required "from" node.list) <|
      .field (defaulted "joins" (Join.readWith node)) <|
      .field (optional "where" node) <|
      .field (optional "modifier" Lock.read) .done).read mode d
  .ok { select, sources, joins, condition, lock }

/-- Reads a raw node without its kind. -/
def Raw.readWith (node : Reader Node) : Reader Raw := fun mode d => do
  let (fragments, params, _) ←
    (Layout.field (required "sql_fragments" Reader.text.list) <|
      .field (defaulted "params" node) .done).read mode d
  .ok { fragments, params }

def readFilter (node : Reader Node) : Reader Node := fun mode d => do
  let (lhs, operator, rhs, _) ←
    (Layout.field (optional "lhs" node) <|
      .field (required "op" node) <|
      .field (required "rhs" node) .done).read mode d
  .ok (.filter lhs operator rhs)

/-- Reads the content of a node without fields: any object, or an array without items. -/
def readSelectAll : Reader Node
  | _, .array (_ :: _) _ => .error .invalidLength
  | _, _ => .ok .selectAll

/-- Reads the fields of a node of the given kind from a buffered document. -/
def Kind.readContent (node : Reader Node) (kind : Kind) (d : Draft) : Decoded Node :=
  match kind with
  | .identifier => (readOne (required "identifier" Reader.text) .buffered d).map .identifier
  | .reference =>
    (readTwo (required "table" node) (required "column" node) .buffered d).map fun (t, c) =>
      .reference t c
  | .table =>
    (readTwo (optional "schema" readName) (required "table" readName) .buffered d).map
      fun (s, t) => .table s t
  | .aliased =>
    (readTwo (required "node" node) (required "alias" readName) .buffered d).map fun (n, a) =>
      .aliased n a
  | .selection => (readOne (required "selection" node) .buffered d).map .selection
  | .selectAll => readSelectAll .buffered d
  | .select => (Select.readWith node .buffered d).map .select
  | .query => (Query.readWith node .buffered d).map .query
  | .filter => readFilter node .buffered d
  | .and =>
    (readTwo (required "lhs" node) (required "rhs" node) .buffered d).map fun (l, r) => .and l r
  | .or =>
    (readTwo (required "lhs" node) (required "rhs" node) .buffered d).map fun (l, r) => .or l r
  | .parens => (readOne (required "node" node) .buffered d).map .parens
  | .value => (readOne (required "value" Scalar.read) .buffered d).map .value
  | .valueList => (readOne (required "values" node.list) .buffered d).map .valueList
  | .scalarList => (readOne (required "values" Scalar.read.list) .buffered d).map .scalarList
  | .join => (Join.readWith node .buffered d).map .join
  | .operator => (readOne (required "operator" Reader.text) .buffered d).map .operator
  | .raw => (Raw.readWith node .buffered d).map .raw

/-- Reads a kind: its name or, in a buffered document, also its number. -/
def Kind.read : Reader Kind
  | _, .string s => Reader.named Kind.all Kind.name s
  | .buffered, .number (.integer n) =>
    if n < 0 then .error .invalidType
    else match Kind.all[n.toNat]? with
      | some kind => .ok kind
      | none => .error .invalidValue
  | _, d => wrongType d

/-- Goes through the members of a node's document: the kind must come exactly once, and all else
must be readable. -/
def findKind (mode : Mode) : List (Option String × Draft) → Option Kind → Decoded (Option Kind)
  | [], found => .ok found
  | (none, _) :: _, _ => .error (.refused .malformed)
  | (some name, d) :: rest, found =>
    if name == "kind" then
      match found with
      | some _ => .error (.duplicateField "kind")
      | none => do
        let kind ← Kind.read mode d
        findKind mode rest (some kind)
    else do
      mode.keep d
      findKind mode rest found

/-- Makes sure that all items can be read. -/
def keepItems (mode : Mode) : List Draft → Decoded Unit
  | [] => .ok ()
  | d :: rest => do
    mode.keep d
    keepItems mode rest

/-- Reads a node within at most the given number of levels of nodes.  The kind is a member of an
object, or the first item of an array whose other items are the fields. -/
def Node.readWithin : Nat → Reader Node
  | 0, _, _ => .error (.refused .malformed)
  | levels + 1, mode, .object members ending => do
    let inner ← mode.enter
    let found ← findKind inner members none
    refuse? ending.refusal?
    match found with
    | none => .error (.missingField "kind")
    | some kind => kind.readContent (Node.readWithin levels) (.object members .closed)
  | _ + 1, mode, .array [] ending => do
    let _ ← mode.enter
    refuse? ending.refusal?
    .error (.missingField "kind")
  | levels + 1, mode, .array (tag :: items) ending => do
    let inner ← mode.enter
    let kind ← Kind.read inner tag
    keepItems inner items
    refuse? ending.refusal?
    kind.readContent (Node.readWithin levels) (.array items .closed)
  | _ + 1, _, d => wrongType d

def Node.read : Reader Node := Node.readWithin nestingLimit

def Select.read : Reader Select := Select.readWith Node.read

def Join.read : Reader Join := Join.readWith Node.read

def Query.read : Reader Query := Query.readWith Node.read

/-- Reads a raw node without its kind. -/
def Raw.read : Reader Raw := Raw.readWith Node.read

/-- The query that a text denotes. -/
def Query.ofText (text : String) : Decoded Query := Query.read.ofText text

end QueryTree
