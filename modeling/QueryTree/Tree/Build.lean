import QueryTree.Error
import QueryTree.Template
import QueryTree.Tree.Basic

/-! Building trees: short forms for common nodes, and the steps that add a clause to a select
list, a query or a join. -/

namespace QueryTree

namespace Raw

/-- The arity error of a raw node, if it has one: there is one more fragment than parameters. -/
def arityError? (raw : Raw) : Option Error :=
  if raw.fragments.length = raw.params.length + 1 then none
  else some (.rawArity raw.fragments.length raw.params.length)

/-- A raw node whose fragments and parameters alternate. -/
def ofFragments (fragments : List String) (params : List Node) : Except Error Raw :=
  let raw : Raw := { fragments, params }
  match raw.arityError? with
  | none => .ok raw
  | some e => .error e

/-- A raw node whose fragments are those of a template. -/
def ofTemplate (template : String) (params : List Node) : Except Error Raw := do
  let fragments ← Template.parse template
  ofFragments fragments params

end Raw

namespace Select

/-- The select list without duplicate rows. -/
def withDistinct (s : Select) : Select := { s with distinct := true }

/-- The select list with one row for each value of the given fragments. -/
def withDistinctOn (s : Select) (nodes : List Node) : Select := { s with distinctOn := nodes }

end Select

namespace Query

def withSelect (q : Query) (s : Select) : Query := { q with select := some s }

/-- The query with one more join after the others. -/
def withJoin (q : Query) (j : Join) : Query := { q with joins := q.joins ++ [j] }

def withCondition (q : Query) (n : Node) : Query := { q with condition := some n }

def withLock (q : Query) (l : Lock) : Query := { q with lock := some l }

end Query

def Join.withCondition (j : Join) (n : Node) : Join := { j with condition := some n }

namespace Node

/-- A column of a table, both given by name. -/
def column (table column : String) : Node := .reference (.table none table) (.identifier column)

/-- An operator, given by its text, between two operands. -/
def binaryFilter (lhs : Node) (operator : String) (rhs : Node) : Node :=
  .filter (some lhs) (.operator operator) rhs

/-- An operator, given by its text, before its operand. -/
def unaryFilter (operator : String) (rhs : Node) : Node := .filter none (.operator operator) rhs

end Node

end QueryTree
