import QueryTree.Proofs.Grouping
import QueryTree.Proofs.Tokens

/-! Two kinds of node are short forms.  A list of scalars stands for the list of their value nodes,
and an entry of a select list stands for the node in it.  `Query.unwrapped` writes both out, at
every depth at once; no short form is left, and every visit does what it did before
(`Node.emit_unwrapped`). -/

namespace QueryTree

mutual

/-- The node with every list of scalars as a list of value nodes, and every entry of a select list
as the node in it. -/
def Node.unwrapped : Node → Node
  | .identifier s => .identifier s
  | .reference t c => .reference t.unwrapped c.unwrapped
  | .table s t => .table s t
  | .aliased n s => .aliased n.unwrapped s
  | .selection n => n.unwrapped
  | .selectAll => .selectAll
  | .select s => .select s.unwrapped
  | .query q => .query q.unwrapped
  | .filter l o r => .filter (unwrapOption l) o.unwrapped r.unwrapped
  | .and l r => .and l.unwrapped r.unwrapped
  | .or l r => .or l.unwrapped r.unwrapped
  | .parens n => .parens n.unwrapped
  | .value v => .value v
  | .valueList ns => .valueList (unwrapNodes ns)
  | .scalarList vs => .valueList (vs.map .value)
  | .join j => .join j.unwrapped
  | .operator s => .operator s
  | .raw r => .raw r.unwrapped

def Select.unwrapped : Select → Select
  | ⟨ns, os, d⟩ => ⟨unwrapNodes ns, unwrapNodes os, d⟩

def Query.unwrapped : Query → Query
  | ⟨s, ns, js, c, l⟩ => ⟨unwrapSelect s, unwrapNodes ns, unwrapJoins js, unwrapOption c, l⟩

def Join.unwrapped : Join → Join
  | ⟨k, t, c⟩ => ⟨k, t.unwrapped, unwrapOption c⟩

def Raw.unwrapped : Raw → Raw
  | ⟨fs, ps⟩ => ⟨fs, unwrapNodes ps⟩

def unwrapNodes : List Node → List Node
  | [] => []
  | n :: ns => n.unwrapped :: unwrapNodes ns

def unwrapJoins : List Join → List Join
  | [] => []
  | j :: js => j.unwrapped :: unwrapJoins js

def unwrapOption : Option Node → Option Node
  | none => none
  | some n => some n.unwrapped

def unwrapSelect : Option Select → Option Select
  | none => none
  | some s => some s.unwrapped

end

theorem unwrapNodes_isEmpty (ns : List Node) : (unwrapNodes ns).isEmpty = ns.isEmpty := by
  cases ns <;> rfl

theorem unwrapNodes_length (ns : List Node) : (unwrapNodes ns).length = ns.length := by
  induction ns with
  | nil => rfl
  | cons n ns ih => rw [unwrapNodes, List.length_cons, List.length_cons, ih]

/-! ### Visits -/

section Emissions

variable (d : Dialect)

/-- The two loops over lists write the same separators and number the same scalars. -/
theorem emitList_values : (vs : List Scalar) →
    emitList d (vs.map .value) = Emission.bindAll d vs
  | [] => by simp [emitList, Emission.bindAll]
  | [v] => by simp [emitList, Emission.bindAll, Node.emit]
  | v :: w :: vs => by
    have ih := emitList_values (w :: vs)
    rw [List.map_cons, emitList_cons (by simp), ih, Node.emit]
    rfl

mutual

theorem Node.emit_unwrapped : (n : Node) → n.unwrapped.emit d = n.emit d
  | .identifier _ | .table _ _ | .selectAll | .value _ | .operator _ => rfl
  | .reference l r | .and l r | .or l r => by
    simp only [Node.unwrapped, Node.emit, l.emit_unwrapped, r.emit_unwrapped]
  | .aliased n _ | .selection n | .parens n => by
    simp only [Node.unwrapped, Node.emit, n.emit_unwrapped]
  | .select s => by simp only [Node.unwrapped, Node.emit, s.emit_unwrapped]
  | .query q => by simp only [Node.unwrapped, Node.emit, q.emit_unwrapped]
  | .join j => by simp only [Node.unwrapped, Node.emit, j.emit_unwrapped]
  | .raw r => by simp only [Node.unwrapped, Node.emit, r.emit_unwrapped]
  | .filter l o r => by
    simp only [Node.unwrapped, Node.emit, emitOperand_unwrapped l, o.emit_unwrapped,
      r.emit_unwrapped]
  | .valueList ns => by simp only [Node.unwrapped, Node.emit, emitList_unwrapped ns]
  | .scalarList vs => by simp only [Node.unwrapped, Node.emit, emitList_values]

theorem Select.emit_unwrapped : (s : Select) → s.unwrapped.emit d = s.emit d
  | ⟨ns, os, _⟩ => by
    simp only [Select.unwrapped, Select.emit, unwrapNodes_isEmpty, emitList_unwrapped ns,
      emitList_unwrapped os]

theorem Query.emit_unwrapped : (q : Query) → q.unwrapped.emit d = q.emit d
  | ⟨s, ns, js, c, _⟩ => by
    simp only [Query.unwrapped, Query.emit, unwrapNodes_isEmpty, emitSelect_unwrapped s,
      emitList_unwrapped ns, emitJoins_unwrapped js, emitClause_unwrapped _ c]

theorem Join.emit_unwrapped : (j : Join) → j.unwrapped.emit d = j.emit d
  | ⟨_, t, c⟩ => by
    simp only [Join.unwrapped, Join.emit, t.emit_unwrapped, emitClause_unwrapped _ c]

theorem Raw.emit_unwrapped : (r : Raw) → r.unwrapped.emit d = r.emit d
  | ⟨fs, ps⟩ => by
    simp only [Raw.unwrapped, Raw.emit, Raw.arityError?, unwrapNodes_length,
      emitRaw_unwrapped ps fs]

theorem emitList_unwrapped : (ns : List Node) → emitList d (unwrapNodes ns) = emitList d ns
  | [] => rfl
  | [n] => n.emit_unwrapped
  | n :: m :: ns => by
    have ih := emitList_unwrapped (m :: ns)
    rw [unwrapNodes, emitList_cons (by simp [unwrapNodes]), emitList_cons (by simp), ih,
      n.emit_unwrapped]

theorem emitJoins_unwrapped : (js : List Join) → emitJoins d (unwrapJoins js) = emitJoins d js
  | [] => rfl
  | j :: js => by
    rw [unwrapJoins, emitJoins, emitJoins, j.emit_unwrapped, emitJoins_unwrapped js]

theorem emitRaw_unwrapped : (ns : List Node) → (fs : List String) →
    emitRaw d (unwrapNodes ns) fs = emitRaw d ns fs
  | [], _ => rfl
  | _ :: _, [] => rfl
  | n :: ns, f :: fs => by
    rw [unwrapNodes, emitRaw, emitRaw, n.emit_unwrapped, emitRaw_unwrapped ns fs]

theorem emitSelect_unwrapped : (s : Option Select) → emitSelect d (unwrapSelect s) = emitSelect d s
  | none => rfl
  | some s => by rw [unwrapSelect, emitSelect, emitSelect, s.emit_unwrapped]

theorem emitOperand_unwrapped : (n : Option Node) →
    emitOperand d (unwrapOption n) = emitOperand d n
  | none => rfl
  | some n => by rw [unwrapOption, emitOperand, emitOperand, n.emit_unwrapped]

theorem emitClause_unwrapped (keyword : String) : (n : Option Node) →
    emitClause d keyword (unwrapOption n) = emitClause d keyword n
  | none => rfl
  | some n => by rw [unwrapOption, emitClause, emitClause, n.emit_unwrapped]

end

end Emissions

/-! ### What is left -/

/-- Whether the part is no short form. -/
def Part.IsPlain : Part → Prop
  | .node (.selection _) | .node (.scalarList _) => False
  | _ => True

/-- No short form stands in the part. -/
def Part.Plain (a : Part) : Prop := ∀ b ∈ a.parts, b.IsPlain

theorem Part.Plain.of_layout {a : Part} (ha : a.IsPlain) (h : ∀ b, .part b ∈ a.layout → b.Plain) :
    a.Plain := by
  intro b hb
  rw [parts_eq, List.mem_cons, List.mem_flatMap] at hb
  rcases hb with rfl | ⟨c, hc, hb⟩
  · exact ha
  · exact h c (mem_children.mp hc) b hb

theorem Node.plain_value (v : Scalar) : (Part.node (.value v)).Plain := by
  have hScalar : (Part.scalar v).Plain := .of_layout trivial (by simp [Part.layout])
  exact .of_layout trivial (by simpa [Part.layout, layout] using hScalar)

mutual

theorem Node.plain_unwrapped : (n : Node) → (Part.node n.unwrapped).Plain
  | .identifier _ | .selectAll | .operator _ =>
    .of_layout trivial (by simp [Part.layout, Node.unwrapped, Node.layout])
  | .table s _ =>
    .of_layout trivial (by cases s <;> simp [Part.layout, Node.unwrapped, Node.layout])
  | .value v => Node.plain_value v
  | .selection n => n.plain_unwrapped
  | .aliased n _ | .parens n =>
    .of_layout trivial (by simpa [Part.layout, Node.unwrapped, Node.layout] using n.plain_unwrapped)
  | .reference l r | .and l r | .or l r =>
    .of_layout trivial (by
      simpa [Part.layout, Node.unwrapped, Node.layout] using ⟨l.plain_unwrapped, r.plain_unwrapped⟩)
  | .select s =>
    .of_layout trivial (by simpa [Part.layout, Node.unwrapped, Node.layout] using s.plain_unwrapped)
  | .query q =>
    .of_layout trivial (by simpa [Part.layout, Node.unwrapped, Node.layout] using q.plain_unwrapped)
  | .join j =>
    .of_layout trivial (by simpa [Part.layout, Node.unwrapped, Node.layout] using j.plain_unwrapped)
  | .raw r =>
    .of_layout trivial (by simpa [Part.layout, Node.unwrapped, Node.layout] using r.plain_unwrapped)
  | .filter none o r =>
    .of_layout trivial (by
      simpa [Part.layout, Node.unwrapped, unwrapOption, Node.layout] using
        ⟨o.plain_unwrapped, r.plain_unwrapped⟩)
  | .filter (some l) o r =>
    .of_layout trivial (by
      simpa [Part.layout, Node.unwrapped, unwrapOption, Node.layout] using
        ⟨l.plain_unwrapped, o.plain_unwrapped, r.plain_unwrapped⟩)
  | .valueList ns =>
    .of_layout trivial (by
      simpa [Part.layout, Node.unwrapped, Node.layout] using plain_unwrapNodes ns)
  | .scalarList _ =>
    .of_layout trivial (by
      simpa [Part.layout, Node.unwrapped, Node.layout] using fun v _ => Node.plain_value v)

theorem Select.plain_unwrapped : (s : Select) → (Part.select s.unwrapped).Plain
  | ⟨ns, os, _⟩ =>
    .of_layout trivial (Select.forall_layout.mpr ⟨plain_unwrapNodes os, plain_unwrapNodes ns⟩)

theorem Query.plain_unwrapped : (q : Query) → (Part.query q.unwrapped).Plain
  | ⟨s, ns, js, c, _⟩ =>
    .of_layout trivial (Query.forall_layout.mpr ⟨plain_unwrapSelect s, plain_unwrapNodes ns,
      plain_unwrapJoins js, plain_unwrapOption c⟩)

theorem Join.plain_unwrapped : (j : Join) → (Part.join j.unwrapped).Plain
  | ⟨_, t, c⟩ =>
    .of_layout trivial (Join.forall_layout.mpr ⟨t.plain_unwrapped, plain_unwrapOption c⟩)

theorem Raw.plain_unwrapped : (r : Raw) → (Part.raw r.unwrapped).Plain
  | ⟨fs, ps⟩ => by
    refine .of_layout trivial fun b hb => ?_
    obtain ⟨n, hn, rfl⟩ := Raw.part_mem_layout.mp hb
    exact plain_unwrapNodes ps n hn

theorem plain_unwrapNodes : (ns : List Node) → ∀ n ∈ unwrapNodes ns, (Part.node n).Plain
  | [] => nofun
  | n :: ns => List.forall_mem_cons.mpr ⟨n.plain_unwrapped, plain_unwrapNodes ns⟩

theorem plain_unwrapJoins : (js : List Join) → ∀ j ∈ unwrapJoins js, (Part.join j).Plain
  | [] => nofun
  | j :: js => List.forall_mem_cons.mpr ⟨j.plain_unwrapped, plain_unwrapJoins js⟩

theorem plain_unwrapOption : (o : Option Node) → ∀ n, unwrapOption o = some n → (Part.node n).Plain
  | none => nofun
  | some n => fun _ h => Option.some.inj h ▸ n.plain_unwrapped

theorem plain_unwrapSelect : (o : Option Select) →
    ∀ s, unwrapSelect o = some s → (Part.select s).Plain
  | none => nofun
  | some s => fun _ h => Option.some.inj h ▸ s.plain_unwrapped

end

/-- Short forms can be written out everywhere at once.  None of them is left, and in every dialect
the query has the same statement or the same error as before. -/
theorem Query.short_forms_agree (q : Query) :
    (∀ a ∈ q.unwrapped.parts, a.IsPlain) ∧
    ∀ d : Dialect, q.unwrapped.compile d = q.compile d := by
  refine ⟨q.plain_unwrapped, fun d => ?_⟩
  rw [compile, compile, q.emit_unwrapped]

/-- Orders by number, with short forms within a subquery and without any scalar. -/
def numberedOrders : Query where
  select := some { selections := [.selection (.aliased (.selection (.column "o" "id")) "n")] }
  sources := [.query {
    sources := [.table none "orders"]
    condition := some (.raw ⟨["", " <> all ", ""], [.identifier "id", .scalarList []]⟩) }]
  condition := some (.and (.value (.bool true))
    (.binaryFilter (.identifier "id") "in" (.scalarList [.int 1, .null])))

theorem Query.short_forms_agree_numberedOrders :
    let plain : Query := {
      select := some { selections := [.aliased (.column "o" "id") "n"] }
      sources := [.query {
        sources := [.table none "orders"]
        condition := some (.raw ⟨["", " <> all ", ""], [.identifier "id", .valueList []]⟩) }]
      condition := some (.and (.value (.bool true))
        (.binaryFilter (.identifier "id") "in" (.valueList [.value (.int 1), .value .null]))) }
    numberedOrders.unwrapped = plain ∧ (∀ a ∈ plain.parts, a.IsPlain) ∧
      plain.compile .standard = numberedOrders.compile .standard ∧
      numberedOrders.compile .standard = .ok {
        sql := "select \"o\".\"id\" as \"n\" from (from \"orders\" where \"id\" <> all ()) " ++
          "where $0 and \"id\" in ($1, $2)"
        bindings := [.bool true, .int 1, .null] } := by
  intro plain
  have hPlain : numberedOrders.unwrapped = plain := rfl
  obtain ⟨hLeft, hSame⟩ := short_forms_agree numberedOrders
  rw [hPlain] at hLeft hSame
  exact ⟨hPlain, hLeft, hSame .standard, by cbv⟩

end QueryTree
