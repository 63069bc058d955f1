import QueryTree.Json.Basic
import QueryTree.Scalar.Codec
import QueryTree.Statement

/-! The documents of trees.  A node is an object whose first member tells its kind; fields follow
in a fixed order, and optional ones are left out when they are empty. -/

namespace QueryTree

/-- The document of a name in a place where only a name can stand. -/
def nameJson (name : String) : Json := .object [("identifier", .string name)]

/-- A member that is left out when there is nothing to write. -/
def memberJson? (name : String) : Option Json → List (String × Json)
  | none => []
  | some value => [(name, value)]

/-- A list member that is left out when the list is empty. -/
def membersJson? (name : String) : List Json → List (String × Json)
  | [] => []
  | item :: rest => [(name, .array (item :: rest))]

/-- The document of a node of the given kind. -/
def tagged (kind : Kind) (members : List (String × Json)) : Json :=
  .object (("kind", .string kind.name) :: members)

mutual

/-- The document of a node. -/
def Node.toJson : Node → Json
  | .identifier name => tagged .identifier [("identifier", .string name)]
  | .reference table column =>
    tagged .reference [("table", table.toJson), ("column", column.toJson)]
  | .table schema name =>
    tagged .table (memberJson? "schema" (schema.map nameJson) ++ [("table", nameJson name)])
  | .aliased node name => tagged .aliased [("node", node.toJson), ("alias", nameJson name)]
  | .selection node => tagged .selection [("selection", node.toJson)]
  | .selectAll => tagged .selectAll []
  | .select s => tagged .select s.members
  | .query q => tagged .query q.members
  | .filter lhs operator rhs =>
    tagged .filter
      (memberJson? "lhs" (match lhs with | none => none | some n => some n.toJson)
        ++ [("op", operator.toJson), ("rhs", rhs.toJson)])
  | .and lhs rhs => tagged .and [("lhs", lhs.toJson), ("rhs", rhs.toJson)]
  | .or lhs rhs => tagged .or [("lhs", lhs.toJson), ("rhs", rhs.toJson)]
  | .parens node => tagged .parens [("node", node.toJson)]
  | .value scalar => tagged .value [("value", scalar.toJson)]
  | .valueList nodes => tagged .valueList [("values", .array (nodesJson nodes))]
  | .scalarList scalars =>
    tagged .scalarList [("values", .array (scalars.map Scalar.toJson))]
  | .join j => tagged .join j.members
  | .operator text => tagged .operator [("operator", .string text)]
  | .raw r => tagged .raw r.members

def Select.members : Select → List (String × Json)
  | ⟨selections, distinctOn, distinct⟩ =>
    ("selections", .array (nodesJson selections))
      :: membersJson? "distinct_on_selections" (nodesJson distinctOn)
      ++ memberJson? "modifier" (if distinct then some (.string "Distinct") else none)

def Query.members : Query → List (String × Json)
  | ⟨select, sources, joins, condition, lock⟩ =>
    memberJson? "select" (match select with | none => none | some s => some (.object s.members))
      ++ ("from", .array (nodesJson sources))
      :: membersJson? "joins" (joinsJson joins)
      ++ memberJson? "where" (match condition with | none => none | some n => some n.toJson)
      ++ memberJson? "modifier" (lock.map fun l => .string l.name)

def Join.members : Join → List (String × Json)
  | ⟨kind, table, condition⟩ =>
    [("join_type", .string kind.name), ("table", table.toJson)]
      ++ memberJson? "on" (match condition with | none => none | some n => some n.toJson)

def Raw.members : Raw → List (String × Json)
  | ⟨fragments, params⟩ =>
    [("sql_fragments", .array (fragments.map .string)), ("params", .array (nodesJson params))]

def nodesJson : List Node → List Json
  | [] => []
  | n :: ns => n.toJson :: nodesJson ns

def joinsJson : List Join → List Json
  | [] => []
  | j :: js => .object j.members :: joinsJson js

end

/-- The document of a select list outside a node. -/
def Select.toJson (s : Select) : Json := .object s.members

def Query.toJson (q : Query) : Json := .object q.members

def Join.toJson (j : Join) : Json := .object j.members

def Raw.toJson (r : Raw) : Json := .object r.members

def Statement.toJson (s : Statement) : Json :=
  .object [("sql", .string s.sql), ("bindings", .array (s.bindings.map Scalar.toJson))]

end QueryTree
