import Mathlib.Data.List.Basic
import QueryTree.Statement

/-! What a compilation visits, one level at a time.  A `Part` is anything that a visit can come to,
from a whole query down to a single scalar.  Its `layout` lists what the visit of the part does, in
order: it writes a `Token`, or visits a smaller part, one of its `children`.  A part either fails by
itself, at once (`Part.emit_of_fault`), or runs its layout (`Part.emit_of_fault_none`), so that later
proofs follow the layout and need not know the eighteen kinds of node. -/

namespace QueryTree

/-- What a statement is made of: text as it is, names, and holes for scalars. -/
inductive Token where
  | text (s : String)
  | name (s : String)
  | hole (v : Scalar)

/-- What a visit can come to. -/
inductive Part where
  | node (n : Node)
  | select (s : Select)
  | query (q : Query)
  | join (j : Join)
  | raw (r : Raw)
  | scalar (v : Scalar)

/-- One entry of a layout. -/
inductive Piece where
  | token (t : Token)
  | part (a : Part)

namespace Piece

abbrev text (s : String) : Piece := .token (.text s)

abbrev name (s : String) : Piece := .token (.name s)

abbrev node (n : Node) : Piece := .part (.node n)

/-- The part of an entry that has one. -/
def part? : Piece → Option Part
  | .token _ => none
  | .part a => some a

/-- Entries with commas between them. -/
def listed (pieces : List Piece) : List Piece := pieces.intersperse (text ", ")

/-- A condition after its keyword, if there is one. -/
def clause (keyword : String) : Option Node → List Piece
  | none => []
  | some n => [text keyword, node n]

/-- Fragments and parameters in turn, and then those that are left over. -/
def alternating : List String → List Node → List Piece
  | [], params => params.map node
  | fragments, [] => fragments.map text
  | f :: fs, n :: ns => text f :: node n :: alternating fs ns

end Piece

open Piece (text name node listed clause alternating)

def Node.layout : Node → List Piece
  | .identifier s => [name s]
  | .reference t c => [node t, text ".", node c]
  | .table none t => [name t]
  | .table (some s) t => [name s, text ".", name t]
  | .aliased n s => [node n, text " as ", name s]
  | .selection n => [node n]
  | .selectAll => [text "*"]
  | .select s => [.part (.select s)]
  | .query q => [.part (.query q)]
  | .filter none o r => [node o, text " ", node r]
  | .filter (some l) o r => [node l, text " ", node o, text " ", node r]
  | .and l r => [node l, text " and ", node r]
  | .or l r => [node l, text " or ", node r]
  | .parens n => [text "(", node n, text ")"]
  | .value v => [.part (.scalar v)]
  | .valueList ns => [text "("] ++ listed (ns.map node) ++ [text ")"]
  | .scalarList vs => [text "("] ++ listed (vs.map fun v => .part (.scalar v)) ++ [text ")"]
  | .join j => [.part (.join j)]
  | .operator s => [text s]
  | .raw r => [.part (.raw r)]

def Select.layout (s : Select) : List Piece :=
  [text "select "]
    ++ (if s.distinctOn.isEmpty then []
      else [text "distinct on ("] ++ listed (s.distinctOn.map node) ++ [text ") "])
    ++ (if s.distinct then [text distinctKeyword, text " "] else [])
    ++ listed (s.selections.map node)

/-- The layout of a query, without the parentheses around a subquery. -/
def Query.layout (q : Query) : List Piece :=
  q.select.toList.flatMap (fun s => [.part (.select s), text " "])
    ++ [text "from "] ++ listed (q.sources.map node)
    ++ q.joins.flatMap (fun j => [text " ", .part (.join j)])
    ++ clause " where " q.condition
    ++ q.lock.toList.flatMap (fun l => [text " ", text l.keyword])

def Join.layout (j : Join) : List Piece :=
  [text j.kind.keyword, text " ", node j.table] ++ clause " on " j.condition

namespace Part

/-- What the visit of a part does, in order. -/
def layout : Part → List Piece
  | .node n => n.layout
  | .select s => s.layout
  | .query q => q.layout
  | .join j => j.layout
  | .raw r => alternating r.fragments r.params
  | .scalar v => [.token (.hole v)]

/-- The parts directly below a part, in the order in which they are visited. -/
def children (a : Part) : List Part := a.layout.filterMap Piece.part?

end Part

namespace Piece

/-- What is in a list but no comma is one of the listed entries. -/
theorem mem_of_mem_listed {x : Piece} : {pieces : List Piece} → x ∈ listed pieces →
    x ≠ text ", " → x ∈ pieces
  | [], h, _ | [_], h, _ => h
  | y :: z :: rest, h, hx => by
    rcases List.mem_cons.mp h with h | h
    · exact List.mem_cons.mpr (.inl h)
    rcases List.mem_cons.mp h with h | h
    · exact absurd h hx
    · exact List.mem_cons.mpr (.inr (mem_of_mem_listed h hx))

@[simp] theorem filterMap_part?_token (t : Token) (rest : List Piece) :
    (.token t :: rest).filterMap part? = rest.filterMap part? := rfl

@[simp] theorem filterMap_part?_part (a : Part) (rest : List Piece) :
    (.part a :: rest).filterMap part? = a :: rest.filterMap part? := rfl

@[simp] theorem filterMap_part?_parts {α : Type} (f : α → Part) (xs : List α) :
    xs.filterMap (fun x => part? (.part (f x))) = xs.map f := by
  rw [← List.filterMap_eq_map]
  rfl

/-- The commas of a list are no parts. -/
@[simp] theorem filterMap_part?_listed : (pieces : List Piece) →
    (listed pieces).filterMap part? = pieces.filterMap part?
  | [] | [_] => rfl
  | x :: y :: rest => by
    have ih := filterMap_part?_listed (y :: rest)
    unfold listed at ih ⊢
    rw [List.intersperse_cons_cons, List.filterMap_cons, List.filterMap_cons, ih,
      List.filterMap_cons (l := y :: rest)]
    rfl

@[simp] theorem filterMap_part?_clause (keyword : String) (condition : Option Node) :
    (clause keyword condition).filterMap part? = condition.toList.map Part.node := by
  cases condition <;> rfl

/-- The parameters are visited also when there are too few fragments. -/
theorem filterMap_part?_alternating : (fs : List String) → (ns : List Node) →
    (alternating fs ns).filterMap part? = ns.map Part.node
  | [], ns => by simp [alternating]
  | _ :: _, [] => by simp [alternating, part?]
  | _ :: fs, n :: ns => by simp [alternating, filterMap_part?_alternating fs ns]

theorem part_mem_iff {b : Part} {pieces : List Piece} :
    .part b ∈ pieces ↔ b ∈ pieces.filterMap part? := by
  rw [List.mem_filterMap]
  constructor
  · intro h
    exact ⟨_, h, rfl⟩
  · rintro ⟨x, hx, hb⟩
    cases x with
    | token t => cases hb
    | part a => exact Option.some.inj hb ▸ hx

@[simp] theorem part_mem_listed {b : Part} {pieces : List Piece} :
    .part b ∈ listed pieces ↔ .part b ∈ pieces := by
  rw [part_mem_iff, filterMap_part?_listed, ← part_mem_iff]

end Piece

/-! ### What stands directly below a part -/

namespace Part

/-- The selections come after those that have to be distinct. -/
theorem children_select (s : Select) :
    (Part.select s).children = s.distinctOn.map node ++ s.selections.map node := by
  obtain ⟨ns, os, d⟩ := s
  unfold children layout Select.layout
  cases os <;> cases d <;> simp

theorem children_query (q : Query) : (Part.query q).children =
    q.select.toList.map select ++ q.sources.map node ++ q.joins.map join
      ++ q.condition.toList.map node := by
  obtain ⟨s, ns, js, c, l⟩ := q
  unfold children layout Query.layout
  have hJoins : (js.flatMap fun j => [Piece.text " ", .part (.join j)]).filterMap Piece.part? =
      js.map join := by
    induction js with
    | nil => rfl
    | cons j js ih => simp [ih]
  cases s <;> cases l <;> simp [hJoins]

theorem children_join (j : Join) :
    (Part.join j).children = node j.table :: j.condition.toList.map node := by
  simp [children, layout, Join.layout]

theorem children_raw (r : Raw) : (Part.raw r).children = r.params.map node :=
  Piece.filterMap_part?_alternating r.fragments r.params

theorem mem_children {a b : Part} : b ∈ a.children ↔ .part b ∈ a.layout :=
  Piece.part_mem_iff.symm

end Part

section Below

variable {b : Part} {P : Part → Prop}

theorem Select.part_mem_layout {s : Select} : .part b ∈ s.layout ↔
    (∃ n ∈ s.distinctOn, .node n = b) ∨ ∃ n ∈ s.selections, .node n = b := by
  rw [← Part.layout, ← Part.mem_children, Part.children_select]
  simp

theorem Query.part_mem_layout {q : Query} : .part b ∈ q.layout ↔
    (∃ s, q.select = some s ∧ .select s = b) ∨ (∃ n ∈ q.sources, .node n = b) ∨
      (∃ j ∈ q.joins, .join j = b) ∨ ∃ n, q.condition = some n ∧ .node n = b := by
  rw [← Part.layout, ← Part.mem_children, Part.children_query]
  simp

theorem Join.part_mem_layout {j : Join} : .part b ∈ j.layout ↔
    .node j.table = b ∨ ∃ n, j.condition = some n ∧ .node n = b := by
  rw [← Part.layout, ← Part.mem_children, Part.children_join]
  simp [eq_comm]

theorem Raw.part_mem_layout {r : Raw} : .part b ∈ alternating r.fragments r.params ↔
    ∃ n ∈ r.params, .node n = b := by
  rw [Piece.part_mem_iff, Piece.filterMap_part?_alternating, List.mem_map]

/-- What holds directly below a select list. -/
theorem Select.forall_layout {s : Select} : (∀ b, .part b ∈ s.layout → P b) ↔
    (∀ n ∈ s.distinctOn, P (.node n)) ∧ ∀ n ∈ s.selections, P (.node n) := by
  simp [part_mem_layout, or_imp, forall_and]

/-- What holds directly below a query. -/
theorem Query.forall_layout {q : Query} : (∀ b, .part b ∈ q.layout → P b) ↔
    (∀ s, q.select = some s → P (.select s)) ∧ (∀ n ∈ q.sources, P (.node n)) ∧
      (∀ j ∈ q.joins, P (.join j)) ∧ ∀ n, q.condition = some n → P (.node n) := by
  simp [part_mem_layout, or_imp, forall_and]

/-- What holds directly below a join. -/
theorem Join.forall_layout {j : Join} : (∀ b, .part b ∈ j.layout → P b) ↔
    P (.node j.table) ∧ ∀ n, j.condition = some n → P (.node n) := by
  simp [part_mem_layout, or_imp, forall_and]

end Below

/-! ### Induction -/

theorem Node.sizeOf_lt_of_part_mem_layout {b : Part} {n : Node} (h : .part b ∈ n.layout) :
    sizeOf b < sizeOf (Part.node n) := by
  rw [Part.node.sizeOf_spec]
  cases n with
  | identifier | selectAll | operator => simp [layout] at h
  | table s => cases s <;> simp [layout] at h
  | selection | parens | aliased =>
    simp [layout] at h
    simp only [h, Part.node.sizeOf_spec, selection.sizeOf_spec, parens.sizeOf_spec,
      aliased.sizeOf_spec]
    omega
  | select | query | value | join | raw =>
    simp [layout] at h
    simp only [h, Part.select.sizeOf_spec, Part.query.sizeOf_spec, Part.scalar.sizeOf_spec,
      Part.join.sizeOf_spec, Part.raw.sizeOf_spec, select.sizeOf_spec, query.sizeOf_spec,
      value.sizeOf_spec, join.sizeOf_spec, raw.sizeOf_spec]
    omega
  | reference | and | or =>
    simp [layout] at h
    rcases h with rfl | rfl
    all_goals
      simp only [Part.node.sizeOf_spec, reference.sizeOf_spec, and.sizeOf_spec, or.sizeOf_spec]
      omega
  | filter l =>
    cases l <;> simp [layout] at h <;> rcases h with rfl | rfl | rfl
    all_goals
      simp only [Part.node.sizeOf_spec, filter.sizeOf_spec, Option.some.sizeOf_spec]
      omega
  | valueList ns =>
    simp [layout] at h
    obtain ⟨n, hn, rfl⟩ := h
    have := List.sizeOf_lt_of_mem hn
    rw [valueList.sizeOf_spec, Part.node.sizeOf_spec]
    omega
  | scalarList vs =>
    simp [layout] at h
    obtain ⟨v, hv, rfl⟩ := h
    have := List.sizeOf_lt_of_mem hv
    rw [scalarList.sizeOf_spec, Part.scalar.sizeOf_spec]
    omega

theorem Select.sizeOf_lt_of_part_mem_layout {b : Part} {s : Select} (h : .part b ∈ s.layout) :
    sizeOf b < sizeOf (Part.select s) := by
  obtain ⟨selections, distinctOn, isDistinct⟩ := s
  rw [Part.select.sizeOf_spec, mk.sizeOf_spec]
  simp only [part_mem_layout] at h
  rcases h with ⟨n, hn, rfl⟩ | ⟨n, hn, rfl⟩
  all_goals
    have := List.sizeOf_lt_of_mem hn
    rw [Part.node.sizeOf_spec]
    omega

theorem Query.sizeOf_lt_of_part_mem_layout {b : Part} {q : Query} (h : .part b ∈ q.layout) :
    sizeOf b < sizeOf (Part.query q) := by
  obtain ⟨select, sources, joins, condition, lock⟩ := q
  rw [Part.query.sizeOf_spec, mk.sizeOf_spec]
  simp only [part_mem_layout] at h
  rcases h with ⟨s, rfl, rfl⟩ | ⟨n, hn, rfl⟩ | ⟨j, hj, rfl⟩ | ⟨n, rfl, rfl⟩
  · rw [Part.select.sizeOf_spec, Option.some.sizeOf_spec]
    omega
  · have := List.sizeOf_lt_of_mem hn
    rw [Part.node.sizeOf_spec]
    omega
  · have := List.sizeOf_lt_of_mem hj
    rw [Part.join.sizeOf_spec]
    omega
  · rw [Part.node.sizeOf_spec, Option.some.sizeOf_spec]
    omega

theorem Join.sizeOf_lt_of_part_mem_layout {b : Part} {j : Join} (h : .part b ∈ j.layout) :
    sizeOf b < sizeOf (Part.join j) := by
  obtain ⟨kind, table, condition⟩ := j
  rw [Part.join.sizeOf_spec, mk.sizeOf_spec]
  simp only [part_mem_layout] at h
  rcases h with rfl | ⟨n, rfl, rfl⟩
  · rw [Part.node.sizeOf_spec]
    omega
  · rw [Part.node.sizeOf_spec, Option.some.sizeOf_spec]
    omega

namespace Part

/-- The parts of a layout are smaller than the part that it belongs to. -/
theorem sizeOf_lt_of_part_mem_layout {a b : Part} (h : .part b ∈ a.layout) :
    sizeOf b < sizeOf a := by
  cases a with
  | node n => exact n.sizeOf_lt_of_part_mem_layout h
  | select s => exact s.sizeOf_lt_of_part_mem_layout h
  | query q => exact q.sizeOf_lt_of_part_mem_layout h
  | join j => exact j.sizeOf_lt_of_part_mem_layout h
  | raw r =>
    obtain ⟨fragments, params⟩ := r
    obtain ⟨n, hn, rfl⟩ := Raw.part_mem_layout.mp h
    have : sizeOf n < sizeOf params := List.sizeOf_lt_of_mem hn
    rw [node.sizeOf_spec, raw.sizeOf_spec, Raw.mk.sizeOf_spec]
    omega
  | scalar v => simp [layout] at h

/-- What holds of a part whenever it holds of the parts directly below it holds of every part. -/
@[elab_as_elim]
theorem induction {motive : Part → Prop}
    (step : ∀ a, (∀ b, .part b ∈ a.layout → motive b) → motive a) (a : Part) : motive a :=
  step a fun b hb =>
    have := sizeOf_lt_of_part_mem_layout hb
    induction step b
termination_by sizeOf a

end Part

/-! ### Emissions -/

def Token.emit (d : Dialect) : Token → Emission
  | .text s => Emission.text s
  | .name s => Emission.name d s
  | .hole v => Emission.bind d v

def Part.emit (d : Dialect) : Part → Emission
  | .node n => n.emit d
  | .select s => s.emit d
  | .query q => q.emit d
  | .join j => j.emit d
  | .raw r => r.emit d
  | .scalar v => Emission.bind d v

/-- Writes tokens and visits parts, one after the other. -/
def emitPieces (d : Dialect) : List Piece → Emission
  | [] => Emission.nothing
  | .token t :: rest => t.emit d ++ emitPieces d rest
  | .part a :: rest => a.emit d ++ emitPieces d rest

section Pieces

variable (d : Dialect)

@[simp] theorem emitPieces_nil : emitPieces d [] = Emission.nothing := rfl

@[simp] theorem emitPieces_token (t : Token) (rest : List Piece) :
    emitPieces d (.token t :: rest) = t.emit d ++ emitPieces d rest := rfl

@[simp] theorem emitPieces_part (a : Part) (rest : List Piece) :
    emitPieces d (.part a :: rest) = a.emit d ++ emitPieces d rest := rfl

@[simp] theorem emitPieces_append (first second : List Piece) :
    emitPieces d (first ++ second) = emitPieces d first ++ emitPieces d second := by
  induction first with
  | nil => rfl
  | cons x rest ih =>
    cases x <;> simp only [List.cons_append, emitPieces, ih, Emission.append_assoc]

theorem emitPieces_listed : (ns : List Node) → emitPieces d (listed (ns.map node)) = emitList d ns
  | [] => by simp [listed, emitList]
  | [n] => by simp [listed, emitList, Part.emit]
  | n :: m :: ns => by
    have ih := emitPieces_listed (m :: ns)
    simp only [listed, List.map_cons] at ih ⊢
    show _ = n.emit d ++ Emission.text ", " ++ emitList d (m :: ns)
    rw [List.intersperse_cons_cons, emitPieces_part, emitPieces_token, ih, Emission.append_assoc]
    rfl

theorem emitPieces_scalars : (vs : List Scalar) →
    emitPieces d (listed (vs.map fun v => .part (.scalar v))) = Emission.bindAll d vs
  | [] => rfl
  | [v] => by simp [listed, Emission.bindAll, Part.emit]
  | v :: w :: vs => by
    have ih := emitPieces_scalars (w :: vs)
    simp only [listed, List.map_cons] at ih ⊢
    show _ = Emission.bind d v ++ Emission.text ", " ++ Emission.bindAll d (w :: vs)
    rw [List.intersperse_cons_cons, emitPieces_part, emitPieces_token, ih, Emission.append_assoc]
    rfl

theorem emitPieces_joins (js : List Join) :
    emitPieces d (js.flatMap fun j => [text " ", .part (.join j)]) = emitJoins d js := by
  induction js with
  | nil => simp [emitJoins]
  | cons j js ih => simp [emitJoins, Part.emit, Token.emit, ih, Emission.append_assoc]

theorem emitPieces_clause (keyword : String) (condition : Option Node) :
    emitPieces d (clause keyword condition) = emitClause d keyword condition := by
  cases condition <;> simp [clause, emitClause, Part.emit, Token.emit]

theorem emitPieces_texts (fs : List String) :
    emitPieces d (fs.map text) = Emission.texts fs := by
  induction fs with
  | nil => rfl
  | cons f fs ih => simp [Emission.texts, Token.emit, ih]

/-- Nothing is left over when there is one more fragment than there are parameters. -/
theorem emitPieces_alternating : (fs : List String) → (ns : List Node) →
    fs.length = ns.length + 1 → emitPieces d (alternating fs ns) = emitRaw d ns fs
  | [], _, h => nomatch h
  | f :: fs, [], _ => by
    rw [alternating, emitPieces_texts, emitRaw]
    nofun
  | f :: fs, n :: ns, h => by
    have ih := emitPieces_alternating fs ns (Nat.succ.inj h)
    rw [alternating, emitPieces_token, emitPieces_part, ih, emitRaw, Emission.append_assoc]
    rfl

theorem Node.emit_eq (n : Node) : n.emit d = emitPieces d n.layout := by
  cases n with
  | table s t =>
    cases s <;> simp [layout, emit, Emission.schema, Token.emit, Emission.append_assoc]
  | filter l o r =>
    cases l <;> simp [layout, emit, emitOperand, Token.emit, Part.emit, Emission.append_assoc]
  | valueList ns => simp [layout, emit, emitPieces_listed, Token.emit, Emission.append_assoc]
  | scalarList vs => simp [layout, emit, emitPieces_scalars, Token.emit, Emission.append_assoc]
  | _ => simp [layout, emit, Token.emit, Part.emit, Emission.append_assoc]

theorem Select.emit_eq {s : Select} (h : s.selections ≠ []) :
    s.emit d = emitPieces d s.layout := by
  obtain ⟨selections, distinctOn, isDistinct⟩ := s
  have hs : selections.isEmpty = false := List.isEmpty_eq_false_iff.mpr h
  simp only [emit, layout, hs, emitPieces_append, emitPieces_listed]
  cases isDistinct <;> cases ho : distinctOn.isEmpty <;>
    simp [Token.emit, Emission.distinct, emitPieces_listed, Emission.append_assoc]

theorem Query.emit_eq {q : Query} (h : q.sources ≠ []) :
    q.emit d = Emission.nested (emitPieces d q.layout) := by
  obtain ⟨select, sources, joins, condition, lock⟩ := q
  have hs : sources.isEmpty = false := List.isEmpty_eq_false_iff.mpr h
  simp only [emit, layout, hs, emitPieces_append, emitPieces_listed, emitPieces_joins,
    emitPieces_clause]
  cases select <;> cases lock <;>
    simp [Token.emit, Part.emit, emitSelect, Emission.lock, Emission.append_assoc]

theorem Join.emit_eq (j : Join) : j.emit d = emitPieces d j.layout := by
  obtain ⟨kind, table, condition⟩ := j
  simp [emit, layout, emitPieces_clause, Token.emit, Part.emit, Emission.append_assoc]

theorem Raw.emit_eq {r : Raw} (h : r.fragments.length = r.params.length + 1) :
    r.emit d = emitPieces d (alternating r.fragments r.params) := by
  obtain ⟨fragments, params⟩ := r
  rw [emitPieces_alternating d _ _ h, emit, arityError?, if_pos h]

end Pieces

namespace Part

/-- The error of a part by itself, whatever stands below it: a query needs a source, a select list
an entry, and raw text one more fragment than it has parameters. -/
def fault? : Part → Option Error
  | .query q => if q.sources = [] then some (.missingChild "Query" "from") else none
  | .select s => if s.selections = [] then some (.missingChild "Select" "selections") else none
  | .raw r =>
    if r.fragments.length = r.params.length + 1 then none
    else some (.rawArity r.fragments.length r.params.length)
  | .node _ | .join _ | .scalar _ => none

/-- The progress from which a part runs its layout: that of a query is one level deeper, and begins
with a parenthesis unless the query is the outermost. -/
def enter : Part → Progress → Progress
  | .query _, p =>
    { p with sql := if 0 < p.depth then p.sql ++ "(" else p.sql, depth := p.depth + 1 }
  | _, p => p

/-- Runs a layout between the start and the end of a part.  Whatever the layout comes to, the end of
a query closes its parenthesis and goes back to the old depth. -/
def around : Part → Emission → Emission
  | .query q, body => fun p =>
    let (after, failure) := body ((Part.query q).enter p)
    ({ after with
        sql := if 0 < p.depth then after.sql ++ ")" else after.sql
        depth := after.depth - 1 }, failure)
  | a, body => fun p => body (a.enter p)

theorem fault?_eq_some {a : Part} {e : Error} (h : a.fault? = some e) :
    (∃ q : Query, a = .query q ∧ q.sources = [] ∧ e = .missingChild "Query" "from") ∨
    (∃ s : Select, a = .select s ∧ s.selections = [] ∧ e = .missingChild "Select" "selections") ∨
    (∃ r : Raw, a = .raw r ∧ r.fragments.length ≠ r.params.length + 1 ∧
      e = .rawArity r.fragments.length r.params.length) := by
  cases a with
  | node | join | scalar => simp [fault?] at h
  | query q =>
    simp only [fault?, Option.ite_none_right_eq_some, Option.some.injEq] at h
    exact .inl ⟨q, rfl, h.1, h.2.symm⟩
  | select s =>
    simp only [fault?, Option.ite_none_right_eq_some, Option.some.injEq] at h
    exact .inr (.inl ⟨s, rfl, h.1, h.2.symm⟩)
  | raw r =>
    simp only [fault?, Option.ite_none_left_eq_some, Option.some.injEq] at h
    exact .inr (.inr ⟨r, rfl, h.1, h.2.symm⟩)

/-- A part with an error of its own fails before it does anything else. -/
theorem emit_of_fault (d : Dialect) {a : Part} {e : Error} (h : a.fault? = some e) :
    a.emit d = Emission.fail e := by
  rcases fault?_eq_some h with ⟨q, rfl, hq, rfl⟩ | ⟨s, rfl, hs, rfl⟩ | ⟨r, rfl, hr, rfl⟩
  · obtain ⟨select, sources, joins, condition, lock⟩ := q
    subst hq
    rfl
  · obtain ⟨selections, distinctOn, isDistinct⟩ := s
    subst hs
    rfl
  · obtain ⟨fragments, params⟩ := r
    simp only [emit, Raw.emit, Raw.arityError?, if_neg hr]

/-- A part with no error of its own runs its layout. -/
theorem emit_of_fault_none (d : Dialect) {a : Part} (h : a.fault? = none) :
    a.emit d = a.around (emitPieces d a.layout) := by
  cases a with
  | node n => exact Node.emit_eq d n
  | select s => exact Select.emit_eq d (by simpa [fault?] using h)
  | query q => exact Query.emit_eq d (by simpa [fault?] using h)
  | join j => exact Join.emit_eq d j
  | raw r => exact Raw.emit_eq d (by simpa [fault?] using h)
  | scalar v => exact (Emission.append_nothing _).symm

end Part

end QueryTree
