import QueryTree.Scalar

/-! Query trees.  A `Query` is a whole statement or a subquery; its parts are `Node`s of eighteen
kinds.  Besides the types this module has the keywords of the statement language and the document
names of kinds, join kinds and locks. -/

namespace QueryTree

/-- The row lock or wait directive at the end of a query. -/
inductive Lock where
  | keyShare
  | noKeyUpdate
  | update
  | share
  | noWait
  | skipLocked
deriving DecidableEq

/-- The locks in the order in which they are listed. -/
def Lock.all : List Lock := [.keyShare, .noKeyUpdate, .update, .share, .noWait, .skipLocked]

def Lock.name : Lock → String
  | .keyShare => "ForKeyShare"
  | .noKeyUpdate => "ForNoKeyUpdate"
  | .update => "ForUpdate"
  | .share => "ForShare"
  | .noWait => "NoWait"
  | .skipLocked => "SkipLocked"

def Lock.keyword : Lock → String
  | .keyShare => "for key share"
  | .noKeyUpdate => "for no key update"
  | .update => "for update"
  | .share => "for share"
  | .noWait => "no wait"
  | .skipLocked => "skip locked"

inductive JoinKind where
  | inner
  | left
  | right
  | full
deriving DecidableEq

/-- The join kinds in the order in which they are listed. -/
def JoinKind.all : List JoinKind := [.inner, .left, .right, .full]

def JoinKind.name : JoinKind → String
  | .inner => "InnerJoin"
  | .left => "LeftJoin"
  | .right => "RightJoin"
  | .full => "FullJoin"

def JoinKind.keyword : JoinKind → String
  | .inner => "inner join"
  | .left => "left join"
  | .right => "right join"
  | .full => "full join"

/-- The word of the select modifier in a statement. -/
def distinctKeyword : String := "distinct"

mutual

/-- A fragment of a query. -/
inductive Node where
  /-- A name, quoted in the statement. -/
  | identifier (name : String)
  /-- A column of a table. -/
  | reference (table column : Node)
  /-- A table, optionally within a schema. -/
  | table (schema : Option String) (name : String)
  /-- A fragment under another name. -/
  | aliased (node : Node) (name : String)
  /-- One entry of a select list. -/
  | selection (node : Node)
  | selectAll
  | select (select : Select)
  | query (query : Query)
  /-- An operator between two operands, or before one. -/
  | filter (lhs : Option Node) (operator rhs : Node)
  | and (lhs rhs : Node)
  | or (lhs rhs : Node)
  | parens (node : Node)
  | value (scalar : Scalar)
  /-- A list of fragments between parentheses. -/
  | valueList (nodes : List Node)
  /-- A list of bound scalars between parentheses. -/
  | scalarList (scalars : List Scalar)
  | join (join : Join)
  /-- Operator text, written as it is. -/
  | operator (text : String)
  | raw (raw : Raw)

/-- A select list with its duplicate rules. -/
structure Select where
  selections : List Node
  distinctOn : List Node := []
  distinct : Bool := false

/-- A statement or subquery. -/
structure Query where
  select : Option Select := none
  sources : List Node
  joins : List Join := []
  condition : Option Node := none
  lock : Option Lock := none

/-- A joined table with its optional condition. -/
structure Join where
  kind : JoinKind
  table : Node
  condition : Option Node := none

/-- Statement text with a parameter between each two fragments. -/
structure Raw where
  fragments : List String
  params : List Node

end

inductive Kind where
  | identifier
  | reference
  | table
  | aliased
  | selection
  | selectAll
  | select
  | query
  | filter
  | and
  | or
  | parens
  | value
  | valueList
  | scalarList
  | join
  | operator
  | raw
deriving DecidableEq

/-- The kinds in the order in which they are numbered. -/
def Kind.all : List Kind :=
  [.identifier, .reference, .table, .aliased, .selection, .selectAll, .select, .query, .filter,
    .and, .or, .parens, .value, .valueList, .scalarList, .join, .operator, .raw]

def Kind.name : Kind → String
  | .identifier => "Identifier"
  | .reference => "Reference"
  | .table => "Table"
  | .aliased => "Alias"
  | .selection => "Selection"
  | .selectAll => "SelectAll"
  | .select => "Select"
  | .query => "Query"
  | .filter => "Filter"
  | .and => "And"
  | .or => "Or"
  | .parens => "Parens"
  | .value => "Value"
  | .valueList => "ValueList"
  | .scalarList => "PrimitiveValueList"
  | .join => "Join"
  | .operator => "Operator"
  | .raw => "Raw"

def Node.kind : Node → Kind
  | .identifier _ => .identifier
  | .reference _ _ => .reference
  | .table _ _ => .table
  | .aliased _ _ => .aliased
  | .selection _ => .selection
  | .selectAll => .selectAll
  | .select _ => .select
  | .query _ => .query
  | .filter _ _ _ => .filter
  | .and _ _ => .and
  | .or _ _ => .or
  | .parens _ => .parens
  | .value _ => .value
  | .valueList _ => .valueList
  | .scalarList _ => .scalarList
  | .join _ => .join
  | .operator _ => .operator
  | .raw _ => .raw

end QueryTree
