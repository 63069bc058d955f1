import QueryTree.Proofs.Additions

/-! Conjunctions and disjunctions carry no grouping.  A node is a `Chain` of operands with
connectives between them, found by splitting conjunctions and disjunctions as far down as they go,
and a visit of the node writes its chain (`Node.emit_flat`).  A context is a query with a hole for a
node at any place.  What the whole query writes depends on the node in the hole only through what
that node writes (`QueryContext.emit_congr`), so two nodes with one chain cannot be told apart. -/

namespace QueryTree

inductive Connective where
  | and
  | or
deriving DecidableEq

def Connective.word : Connective → String
  | .and => " and "
  | .or => " or "

/-- Operands with a connective between each two. -/
structure Chain where
  first : Node
  rest : List (Connective × Node)

namespace Chain

/-- One chain after the other, with a connective between them. -/
def link (c : Connective) (left right : Chain) : Chain where
  first := left.first
  rest := left.rest ++ (c, right.first) :: right.rest

theorem link_assoc (c e : Connective) (x y z : Chain) :
    link e (link c x y) z = link c x (link e y z) := by
  simp [link]

def operands (chain : Chain) : List Node := chain.first :: chain.rest.map Prod.snd

/-- The words of the connectives, with a hole for every operand. -/
def stencil (chain : Chain) : Stencil :=
  none :: chain.rest.flatMap fun (c, _) => [some c.word, none]

theorem operands_link (c : Connective) (left right : Chain) :
    (link c left right).operands = left.operands ++ right.operands := by
  simp [operands, link]

theorem stencil_link (c : Connective) (left right : Chain) :
    (link c left right).stencil = left.stencil ++ some c.word :: right.stencil := by
  simp [stencil, link]

theorem holes_stencil (chain : Chain) : chain.stencil.holes = chain.operands.length := by
  rw [stencil, operands, Stencil.holes_none, List.length_cons, List.length_map]
  induction chain.rest with
  | nil => rfl
  | cons x rest ih =>
    rw [List.flatMap_cons, Stencil.holes_append, Nat.add_assoc, ih, Nat.add_comm]
    rfl

theorem emit_link (d : Dialect) (c : Connective) (left right : Chain) :
    (link c left right).stencil.emit d (link c left right).operands =
      left.stencil.emit d left.operands ++ Emission.text c.word ++
        right.stencil.emit d right.operands := by
  rw [stencil_link, operands_link, Stencil.emit_append left.holes_stencil, Stencil.emit,
    Emission.append_assoc]

end Chain

/-- The operands of a node with the connectives between them, in order.  Any node that is neither a
conjunction nor a disjunction is an operand, also one between parentheses. -/
def Node.flat : Node → Chain
  | .and lhs rhs => .link .and lhs.flat rhs.flat
  | .or lhs rhs => .link .or lhs.flat rhs.flat
  | n => ⟨n, []⟩

/-- The visit of a node writes its chain. -/
theorem Node.emit_flat (d : Dialect) (n : Node) :
    n.emit d = n.flat.stencil.emit d n.flat.operands := by
  fun_induction Node.flat n with
  | case1 lhs rhs ihLhs ihRhs => rw [Chain.emit_link, ← ihLhs, ← ihRhs, emit, Connective.word]
  | case2 lhs rhs ihLhs ihRhs => rw [Chain.emit_link, ← ihLhs, ← ihRhs, emit, Connective.word]
  | case3 n => exact (Emission.append_nothing _).symm

/-! ### Contexts -/

mutual

/-- A node with a hole for a node in it. -/
inductive NodeContext where
  | hole
  | referenceTable (table : NodeContext) (column : Node)
  | referenceColumn (table : Node) (column : NodeContext)
  | aliased (node : NodeContext) (name : String)
  | selection (node : NodeContext)
  | select (select : SelectContext)
  | query (query : QueryContext)
  | filterLhs (lhs : NodeContext) (operator rhs : Node)
  | filterOperator (lhs : Option Node) (operator : NodeContext) (rhs : Node)
  | filterRhs (lhs : Option Node) (operator : Node) (rhs : NodeContext)
  | andLhs (lhs : NodeContext) (rhs : Node)
  | andRhs (lhs : Node) (rhs : NodeContext)
  | orLhs (lhs : NodeContext) (rhs : Node)
  | orRhs (lhs : Node) (rhs : NodeContext)
  | parens (node : NodeContext)
  | valueList (before : List Node) (node : NodeContext) (after : List Node)
  | join (join : JoinContext)
  | raw (fragments : List String) (before : List Node) (param : NodeContext) (after : List Node)

/-- A select list with a hole in one of its entries or of the entries that must be distinct. -/
inductive SelectContext where
  | selections (before : List Node) (node : NodeContext) (after distinctOn : List Node)
    (distinct : Bool)
  | distinctOn (selections before : List Node) (node : NodeContext) (after : List Node)
    (distinct : Bool)

/-- A query with a hole in its select list, a source, a join or its condition. -/
inductive QueryContext where
  | select (select : SelectContext) (sources : List Node) (joins : List Join)
    (condition : Option Node) (lock : Option Lock)
  | sources (select : Option Select) (before : List Node) (node : NodeContext) (after : List Node)
    (joins : List Join) (condition : Option Node) (lock : Option Lock)
  | joins (select : Option Select) (sources : List Node) (before : List Join) (join : JoinContext)
    (after : List Join) (condition : Option Node) (lock : Option Lock)
  | condition (select : Option Select) (sources : List Node) (joins : List Join)
    (condition : NodeContext) (lock : Option Lock)

/-- A join with a hole in its table or its condition. -/
inductive JoinContext where
  | table (kind : JoinKind) (table : NodeContext) (condition : Option Node)
  | condition (kind : JoinKind) (table : Node) (condition : NodeContext)

end

mutual

/-- The node with another one in its hole. -/
def NodeContext.fill (n : Node) : NodeContext → Node
  | .hole => n
  | .referenceTable table column => .reference (table.fill n) column
  | .referenceColumn table column => .reference table (column.fill n)
  | .aliased node name => .aliased (node.fill n) name
  | .selection node => .selection (node.fill n)
  | .select select => .select (select.fill n)
  | .query query => .query (query.fill n)
  | .filterLhs lhs operator rhs => .filter (some (lhs.fill n)) operator rhs
  | .filterOperator lhs operator rhs => .filter lhs (operator.fill n) rhs
  | .filterRhs lhs operator rhs => .filter lhs operator (rhs.fill n)
  | .andLhs lhs rhs => .and (lhs.fill n) rhs
  | .andRhs lhs rhs => .and lhs (rhs.fill n)
  | .orLhs lhs rhs => .or (lhs.fill n) rhs
  | .orRhs lhs rhs => .or lhs (rhs.fill n)
  | .parens node => .parens (node.fill n)
  | .valueList before node after => .valueList (before ++ node.fill n :: after)
  | .join join => .join (join.fill n)
  | .raw fragments before param after => .raw ⟨fragments, before ++ param.fill n :: after⟩

def SelectContext.fill (n : Node) : SelectContext → Select
  | .selections before node after distinctOn distinct =>
    ⟨before ++ node.fill n :: after, distinctOn, distinct⟩
  | .distinctOn selections before node after distinct =>
    ⟨selections, before ++ node.fill n :: after, distinct⟩

def QueryContext.fill (n : Node) : QueryContext → Query
  | .select select sources joins condition lock =>
    ⟨some (select.fill n), sources, joins, condition, lock⟩
  | .sources select before node after joins condition lock =>
    ⟨select, before ++ node.fill n :: after, joins, condition, lock⟩
  | .joins select sources before join after condition lock =>
    ⟨select, sources, before ++ join.fill n :: after, condition, lock⟩
  | .condition select sources joins condition lock =>
    ⟨select, sources, joins, some (condition.fill n), lock⟩

def JoinContext.fill (n : Node) : JoinContext → Join
  | .table kind table condition => ⟨kind, table.fill n, condition⟩
  | .condition kind table condition => ⟨kind, table, some (condition.fill n)⟩

end

section Congruence

variable {d : Dialect}

theorem emitList_cons {n : Node} {ns : List Node} (h : ns ≠ []) :
    emitList d (n :: ns) = n.emit d ++ Emission.text ", " ++ emitList d ns := by
  cases ns with
  | nil => exact absurd rfl h
  | cons m ns => rfl

theorem emitList_congr {n m : Node} (h : n.emit d = m.emit d) (before after : List Node) :
    emitList d (before ++ n :: after) = emitList d (before ++ m :: after) := by
  induction before with
  | nil => cases after <;> simp only [List.nil_append, emitList, h]
  | cons x before ih =>
    rw [List.cons_append, List.cons_append, emitList_cons (by simp), emitList_cons (by simp), ih]

theorem emitJoins_congr {j k : Join} (h : j.emit d = k.emit d) (before after : List Join) :
    emitJoins d (before ++ j :: after) = emitJoins d (before ++ k :: after) := by
  induction before with
  | nil => simp only [List.nil_append, emitJoins, h]
  | cons x before ih => rw [List.cons_append, List.cons_append, emitJoins, emitJoins, ih]

theorem emitRaw_congr {n m : Node} (h : n.emit d = m.emit d) (before after : List Node)
    (fragments : List String) :
    emitRaw d (before ++ n :: after) fragments = emitRaw d (before ++ m :: after) fragments := by
  induction before generalizing fragments with
  | nil => cases fragments <;> simp only [List.nil_append, emitRaw, h]
  | cons x before ih => cases fragments <;> simp only [List.cons_append, emitRaw, ih]

variable {n m : Node}

mutual

theorem NodeContext.emit_congr (h : n.emit d = m.emit d) :
    (C : NodeContext) → (C.fill n).emit d = (C.fill m).emit d
  | .hole => h
  | .referenceTable C _ | .referenceColumn _ C | .aliased C _ | .selection C | .andLhs C _
  | .andRhs _ C | .orLhs C _ | .orRhs _ C | .parens C | .filterOperator _ C _
  | .filterRhs _ _ C => by simp only [NodeContext.fill, Node.emit, C.emit_congr h]
  | .filterLhs C _ _ => by simp only [NodeContext.fill, Node.emit, emitOperand, C.emit_congr h]
  | .valueList before C after => by
    simp only [NodeContext.fill, Node.emit, emitList_congr (C.emit_congr h) before after]
  | .select C | .query C | .join C => by simp only [NodeContext.fill, Node.emit, C.emit_congr h]
  | .raw fragments before C after => by
    simp only [NodeContext.fill, Node.emit, Raw.emit, Raw.arityError?, List.length_append,
      List.length_cons, emitRaw_congr (C.emit_congr h) before after]

theorem SelectContext.emit_congr (h : n.emit d = m.emit d) :
    (C : SelectContext) → (C.fill n).emit d = (C.fill m).emit d
  | .selections before C after _ _ | .distinctOn _ before C after _ => by
    simp only [SelectContext.fill, Select.emit, List.isEmpty_iff, List.append_eq_nil_iff,
      reduceCtorEq, emitList_congr (C.emit_congr h) before after]

/-- What a query with a node in its hole writes depends on the node only through what the node
writes. -/
theorem QueryContext.emit_congr (h : n.emit d = m.emit d) :
    (C : QueryContext) → (C.fill n).emit d = (C.fill m).emit d
  | .select C _ _ _ _ => by simp only [QueryContext.fill, Query.emit, emitSelect, C.emit_congr h]
  | .sources _ before C after _ _ _ => by
    simp only [QueryContext.fill, Query.emit, List.isEmpty_iff, List.append_eq_nil_iff,
      reduceCtorEq, emitList_congr (C.emit_congr h) before after]
  | .joins _ _ before C after _ _ => by
    simp only [QueryContext.fill, Query.emit, emitJoins_congr (C.emit_congr h) before after]
  | .condition _ _ _ C _ => by
    simp only [QueryContext.fill, Query.emit, emitClause, C.emit_congr h]

theorem JoinContext.emit_congr (h : n.emit d = m.emit d) :
    (C : JoinContext) → (C.fill n).emit d = (C.fill m).emit d
  | .table _ C _ => by simp only [JoinContext.fill, Join.emit, C.emit_congr h]
  | .condition _ _ C => by simp only [JoinContext.fill, Join.emit, emitClause, C.emit_congr h]

end

end Congruence

theorem QueryContext.compile_congr {n m : Node} (h : n.flat = m.flat) (d : Dialect)
    (C : QueryContext) : (C.fill n).compile d = (C.fill m).compile d := by
  have hEmit : n.emit d = m.emit d := by rw [n.emit_flat, m.emit_flat, h]
  rw [Query.compile, Query.compile, C.emit_congr hEmit]

/-- Nodes with the same operands and connectives in the same order make the same statement, or the
same error, in every place of every query.  The text of a node is the texts of its operands with the
words of the connectives between them, and nothing else. -/
theorem grouping_is_invisible (d : Dialect) :
    (∀ n m : Node, n.flat = m.flat →
      ∀ C : QueryContext, (C.fill n).compile d = (C.fill m).compile d) ∧
    (∀ (a b c : Node) (C : QueryContext),
      (C.fill (.and (.and a b) c)).compile d = (C.fill (.and a (.and b c))).compile d ∧
      (C.fill (.and (.or a b) c)).compile d = (C.fill (.or a (.and b c))).compile d) ∧
    (∀ (n : Node) (p : Progress),
      n.flat.stencil.FilledBy d n.flat.operands (n.emit d) p) := by
  refine ⟨fun n m h C => C.compile_congr h d, fun a b c C => ⟨?_, ?_⟩, fun n p => ?_⟩
  · apply C.compile_congr
    simp only [Node.flat, Chain.link_assoc]
  · apply C.compile_congr
    simp only [Node.flat, Chain.link_assoc]
  · rw [n.emit_flat]
    exact Stencil.emit_filledBy n.flat.holes_stencil p

/-- The orders of goods that meet a condition, still to be filled in. -/
def ordersOfGoods : QueryContext :=
  .condition none [.table none "orders"] []
    (.filterRhs (some (.identifier "id")) (.operator "in")
      (.query (.joins none [.table none "lines"] [] (.condition .left (.table none "goods") .hole)
        [] none none))) (some .update)

theorem grouping_is_invisible_ordersOfGoods :
    let cheap := Node.binaryFilter (.identifier "price") "<" (.value (.int 10))
    let offered := Node.parens (.or (.identifier "sale") (.identifier "gift"))
    let left := Node.binaryFilter (.identifier "stock") ">" (.value (.int 0))
    let n := Node.and (.or cheap offered) left
    let m := Node.or cheap (.and offered left)
    n ≠ m ∧ n.flat = m.flat ∧
      (ordersOfGoods.fill n).compile .standard = (ordersOfGoods.fill m).compile .standard ∧
      (ordersOfGoods.fill n).compile .standard = .ok {
        sql := "from \"orders\" where \"id\" in (from \"lines\" left join \"goods\" on " ++
          "\"price\" < $0 or (\"sale\" or \"gift\") and \"stock\" > $1) for update"
        bindings := [.int 10, .int 0] } := by
  intro cheap offered left n m
  exact ⟨nofun, rfl, (grouping_is_invisible .standard).1 n m rfl ordersOfGoods, by cbv⟩

end QueryTree
