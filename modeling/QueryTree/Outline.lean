import QueryTree.Terminal
import QueryTree.Text.Quoted
import QueryTree.Tree.Basic

/-! The outline of a tree: a line for each node, and one for each clause that introduces a node,
indented by their depth.  Entries of a select list have no line of their own, and a subquery
stands at the depth of its node. -/

namespace QueryTree.Outline

/-- What a line of an outline shows. -/
inductive Label where
  | kind (k : Kind)
  | named (k : Kind) (name : String)
  | operator (text : String)
  | value (v : Scalar)
  | scalars (vs : List Scalar)
  /-- A select list without duplicate rows. -/
  | distinctSelect
  | raw (fragments : List String)
  /-- The clause that the next node belongs to. -/
  | clause (word : String)
  | lock (l : Lock)

structure Entry where
  depth : Nat
  label : Label

def tableName (schema : Option String) (name : String) : String :=
  match schema with
  | some s => s ++ "." ++ name
  | none => name

mutual

/-- The outline of a node at the given depth. -/
def node (depth : Nat) : Node → List Entry
  | .identifier name => [⟨depth, .named .identifier name⟩]
  | .reference table column =>
    ⟨depth, .kind .reference⟩ :: node (depth + 1) table ++ node (depth + 1) column
  | .table schema name => [⟨depth, .named .table (tableName schema name)⟩]
  | .aliased n name => ⟨depth, .named .aliased name⟩ :: node (depth + 1) n
  | .selection n => node depth n
  | .selectAll => [⟨depth, .kind .selectAll⟩]
  | .select s => select depth s
  | .query q => query depth q
  | .filter lhs operator rhs =>
    ⟨depth, .kind .filter⟩ :: (match lhs with | none => [] | some n => node (depth + 1) n)
      ++ node (depth + 1) operator ++ node (depth + 1) rhs
  | .and lhs rhs => ⟨depth, .kind .and⟩ :: node (depth + 1) lhs ++ node (depth + 1) rhs
  | .or lhs rhs => ⟨depth, .kind .or⟩ :: node (depth + 1) lhs ++ node (depth + 1) rhs
  | .parens n => ⟨depth, .kind .parens⟩ :: node (depth + 1) n
  | .value v => [⟨depth, .value v⟩]
  | .valueList ns => ⟨depth, .kind .valueList⟩ :: nodes (depth + 1) ns
  | .scalarList vs => [⟨depth, .scalars vs⟩]
  | .join j => join depth j
  | .operator text => [⟨depth, .operator text⟩]
  | .raw r => raw depth r

def select (depth : Nat) : Select → List Entry
  | ⟨selections, distinctOn, distinct⟩ =>
    ⟨depth, if distinct then .distinctSelect else .kind .select⟩
      :: clauses "distinct on" (depth + 1) distinctOn ++ nodes (depth + 1) selections

def query (depth : Nat) : Query → List Entry
  | ⟨s, sources, js, condition, lock⟩ =>
    ⟨depth, .kind .query⟩ :: (match s with | none => [] | some s => select (depth + 1) s)
      ++ clauses "from" (depth + 1) sources ++ joins (depth + 1) js
      ++ (match condition with
        | none => []
        | some n => ⟨depth + 1, .clause "where"⟩ :: node (depth + 2) n)
      ++ (match lock with | none => [] | some l => [⟨depth + 1, .lock l⟩])

def join (depth : Nat) : Join → List Entry
  | ⟨kind, table, condition⟩ =>
    ⟨depth, .named .join kind.keyword⟩ :: node (depth + 1) table
      ++ (match condition with
        | none => []
        | some n => ⟨depth + 1, .clause "on"⟩ :: node (depth + 2) n)

def raw (depth : Nat) : Raw → List Entry
  | ⟨fragments, params⟩ => ⟨depth, .raw fragments⟩ :: nodes (depth + 1) params

/-- The outlines of nodes, one after the other. -/
def nodes (depth : Nat) : List Node → List Entry
  | [] => []
  | n :: ns => node depth n ++ nodes depth ns

/-- The outlines of nodes, each below a line for its clause. -/
def clauses (word : String) (depth : Nat) : List Node → List Entry
  | [] => []
  | n :: ns => ⟨depth, .clause word⟩ :: node (depth + 1) n ++ clauses word depth ns

def joins (depth : Nat) : List Join → List Entry
  | [] => []
  | j :: js => join depth j ++ joins depth js

end

def kindSpan (k : Kind) : Span := .color .cyan k.name

def Label.spans : Label → Line
  | .kind k => [kindSpan k]
  | .named k name => [kindSpan k, .plain " ", .color .white name]
  | .operator text => [kindSpan .operator, .plain " ", .color .yellow text]
  | .value v => [kindSpan .value, .plain " ", .color .yellow v.display]
  | .scalars vs =>
    [kindSpan .scalarList, .plain " (", .color .yellow (", ".intercalate (vs.map Scalar.display)),
      .plain ")"]
  | .distinctSelect => [kindSpan .select, .plain (" " ++ distinctKeyword)]
  | .raw fragments => [kindSpan .raw, .plain (" " ++ Text.quoted ("?".intercalate fragments))]
  | .clause word => [.dimmed word]
  | .lock l => [.dimmed "modifier", .plain (" " ++ l.keyword)]

/-- A line of an outline, indented by two spaces a level. -/
def Entry.line (e : Entry) : Line :=
  .plain (String.ofList (List.replicate (2 * e.depth) ' ')) :: e.label.spans

end QueryTree.Outline
