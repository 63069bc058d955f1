import QueryTree.Outline
import QueryTree.Proofs.Outcomes
import QueryTree.Proofs.Scalars

/-! What an outline shows.  The outline of a part is made of lines of its own and of the outlines of
the parts directly below it, in the order of a visit (`outline_lists`); lists of scalars are
shown on one line.  So the scalars that an outline shows are those of the tree, in the order in
which a statement binds them (`outline_shows_bindings`). -/

namespace QueryTree

namespace Part

theorem flatMap_leaves_scalar (vs : List Scalar) : (vs.map scalar).flatMap leaves = vs := by
  simp [List.flatMap_map]

end Part

namespace Outline

/-- The scalars that a line stands for, from left to right. -/
def Entry.scalars (e : Entry) : List Scalar :=
  match e.label with
  | .value v => [v]
  | .scalars vs => vs
  | _ => []

/-- A printed line shows some scalars: one after its kind, or a list between parentheses.  Lines of
all other kinds show none. -/
inductive Shows : Line → List Scalar → Prop
  | value (indent : String) (v : Scalar) :
    Shows [.plain indent, .color .cyan "Value", .plain " ", .color .yellow v.display] [v]
  | list (indent : String) (vs : List Scalar) :
    Shows [.plain indent, .color .cyan "PrimitiveValueList", .plain " (",
      .color .yellow (", ".intercalate (vs.map Scalar.display)), .plain ")"] vs
  | other {line : Line} (hValue : .color .cyan "Value" ∉ line)
      (hList : .color .cyan "PrimitiveValueList" ∉ line) : Shows line []

/-- The lines of `entries` show `vs`, each scalar once, from the first line to the last. -/
structure ShowInOrder (entries : List Entry) (vs : List Scalar) : Prop where
  lines : ∀ e ∈ entries, Shows e.line e.scalars
  order : entries.flatMap Entry.scalars = vs

/-- The label of a line names no kind whose lines show scalars without showing some. -/
def Label.Proper : Label → Prop
  | .kind k | .named k _ => k ≠ .value ∧ k ≠ .scalarList
  | .operator _ | .value _ | .scalars _ | .distinctSelect | .raw _ | .clause _ | .lock _ => True

theorem kindName_ne {k : Kind} (h : k ≠ .value ∧ k ≠ .scalarList) :
    k.name ≠ "Value" ∧ k.name ≠ "PrimitiveValueList" := by
  cases k <;> simp_all [Kind.name]

theorem Entry.shows {e : Entry} (h : e.label.Proper) : Shows e.line e.scalars := by
  obtain ⟨depth, label⟩ := e
  cases label with
  | value v => exact .value _ v
  | scalars vs => exact .list _ vs
  | kind k | named k =>
    obtain ⟨hValue, hList⟩ := kindName_ne h
    apply Shows.other
    all_goals simp [line, Label.spans, kindSpan, Span.plain, Span.color, hValue.symm, hList.symm]
  | operator | distinctSelect | raw | clause | lock =>
    apply Shows.other
    all_goals simp [line, Label.spans, kindSpan, Span.plain, Span.color, Span.dimmed, Kind.name]

/-- The outline of a part; a scalar by itself has the line of a value. -/
def outline (depth : Nat) : Part → List Entry
  | .node n => node depth n
  | .select s => select depth s
  | .query q => query depth q
  | .join j => join depth j
  | .raw r => raw depth r
  | .scalar v => [⟨depth, .value v⟩]

/-- The entries are lines of their own and outlines of parts.  The parts are listed in order, the
scalars of a line as parts. -/
inductive Lists : List Entry → List Part → Prop
  | nil : Lists [] []
  | line {e : Entry} (h : e.label.Proper) : Lists [e] (e.scalars.map .scalar)
  | part (depth : Nat) (a : Part) : Lists (outline depth a) [a]
  | append {first second : List Entry} {as bs : List Part} :
    Lists first as → Lists second bs → Lists (first ++ second) (as ++ bs)

namespace Lists

variable {entries : List Entry} {as : List Part}

/-- A line that shows no scalars above the rest. -/
theorem head {e : Entry} (h : e.label.Proper) (hScalars : e.scalars = [])
    (hRest : Lists entries as) : Lists (e :: entries) as := by
  have hLine := Lists.line h
  rw [hScalars] at hLine
  exact hLine.append hRest

theorem nodes (depth : Nat) (ns : List Node) :
    Lists (Outline.nodes depth ns) (ns.map Part.node) := by
  induction ns with
  | nil => exact .nil
  | cons n ns ih => exact (Lists.part depth (.node n)).append ih

theorem clauses (word : String) (depth : Nat) (ns : List Node) :
    Lists (Outline.clauses word depth ns) (ns.map Part.node) := by
  induction ns with
  | nil => exact .nil
  | cons n ns ih => exact .head trivial rfl ((Lists.part (depth + 1) (.node n)).append ih)

theorem joins (depth : Nat) (js : List Join) :
    Lists (Outline.joins depth js) (js.map Part.join) := by
  induction js with
  | nil => exact .nil
  | cons j js ih => exact (Lists.part depth (.join j)).append ih

/-- A condition below the line of its clause, if there is one. -/
theorem condition (word : String) (depth : Nat) (c : Option Node) :
    Lists (match c with
      | none => []
      | some n => ⟨depth + 1, .clause word⟩ :: Outline.node (depth + 2) n)
      (c.toList.map Part.node) := by
  cases c with
  | none => exact .nil
  | some n => exact .head trivial rfl (.part (depth + 2) (.node n))

theorem select? (depth : Nat) (s : Option Select) :
    Lists (match s with | none => [] | some s => Outline.select depth s)
      (s.toList.map Part.select) := by
  cases s with
  | none => exact .nil
  | some s => exact .part depth (.select s)

theorem lock? (depth : Nat) (l : Option Lock) :
    Lists (match l with | none => [] | some l => [⟨depth, .lock l⟩]) [] := by
  cases l with
  | none => exact .nil
  | some l => exact .line (e := ⟨depth, .lock l⟩) trivial

end Lists

theorem node_lists (depth : Nat) (n : Node) :
    Lists (node depth n) (Part.node n).children := by
  have hBelow (m : Node) : Lists (node (depth + 1) m) [.node m] := .part (depth + 1) (.node m)
  cases n with
  | identifier | selectAll => exact .line ⟨by decide, by decide⟩
  | operator => exact .line trivial
  | table s => cases s <;> exact .line ⟨by decide, by decide⟩
  | value v => exact .line (e := ⟨depth, .value v⟩) trivial
  | scalarList vs =>
    have hChildren : (Part.node (.scalarList vs)).children = vs.map Part.scalar := by
      simp [Part.children, Part.layout, Node.layout]
    rw [hChildren]
    exact .line (e := ⟨depth, .scalars vs⟩) trivial
  | selection m => exact .part depth (.node m)
  | select s => exact .part depth (.select s)
  | query q => exact .part depth (.query q)
  | join j => exact .part depth (.join j)
  | raw r => exact .part depth (.raw r)
  | aliased m | parens m => exact .head ⟨by decide, by decide⟩ rfl (hBelow m)
  | reference l r | and l r | or l r =>
    exact .head ⟨by decide, by decide⟩ rfl ((hBelow l).append (hBelow r))
  | filter l o r =>
    cases l with
    | none => exact .head ⟨by decide, by decide⟩ rfl ((hBelow o).append (hBelow r))
    | some l =>
      exact .head ⟨by decide, by decide⟩ rfl (((hBelow l).append (hBelow o)).append (hBelow r))
  | valueList ns =>
    have hChildren : (Part.node (.valueList ns)).children = ns.map Part.node := by
      simp [Part.children, Part.layout, Node.layout]
    rw [hChildren]
    exact .head ⟨by decide, by decide⟩ rfl (.nodes (depth + 1) ns)

theorem select_lists (depth : Nat) (s : Select) :
    Lists (select depth s) (Part.select s).children := by
  rw [Part.children_select]
  obtain ⟨ns, os, d⟩ := s
  have hBelow := (Lists.clauses "distinct on" (depth + 1) os).append (.nodes (depth + 1) ns)
  cases d with
  | false => exact .head ⟨by decide, by decide⟩ rfl hBelow
  | true => exact .head trivial rfl hBelow

theorem join_lists (depth : Nat) (j : Join) : Lists (join depth j) (Part.join j).children := by
  rw [Part.children_join]
  obtain ⟨k, t, c⟩ := j
  rw [join.eq_def]
  have hBelow := (Lists.part (depth + 1) (.node t)).append (.condition "on" depth c)
  exact .head ⟨by decide, by decide⟩ rfl hBelow

theorem query_lists (depth : Nat) (q : Query) :
    Lists (query depth q) (Part.query q).children := by
  rw [Part.children_query]
  obtain ⟨s, ns, js, c, l⟩ := q
  have hBelow := ((((Lists.select? (depth + 1) s).append (.clauses "from" (depth + 1) ns)).append
    (.joins (depth + 1) js)).append (.condition "where" depth c)).append (.lock? (depth + 1) l)
  rw [List.append_nil] at hBelow
  rw [query.eq_def]
  exact .head ⟨by decide, by decide⟩ rfl hBelow

/-- An outline lists the parts directly below its own in the order in which they are visited. -/
theorem outline_lists (depth : Nat) {a : Part} (h : a.scalar? = none) :
    Lists (outline depth a) a.children := by
  cases a with
  | node n => exact node_lists depth n
  | select s => exact select_lists depth s
  | query q => exact query_lists depth q
  | join j => exact join_lists depth j
  | raw r =>
    rw [Part.children_raw]
    obtain ⟨fs, ps⟩ := r
    exact .head trivial rfl (.nodes (depth + 1) ps)
  | scalar v => cases h

theorem ShowInOrder.append {first second : List Entry} {vs ws : List Scalar}
    (h : ShowInOrder first vs) (h' : ShowInOrder second ws) :
    ShowInOrder (first ++ second) (vs ++ ws) := by
  constructor
  · intro e he
    rcases List.mem_append.mp he with he | he
    · exact h.lines e he
    · exact h'.lines e he
  · rw [List.flatMap_append, h.order, h'.order]

theorem showInOrder_line {e : Entry} (h : e.label.Proper) : ShowInOrder [e] e.scalars := by
  constructor
  · intro e' he
    rw [List.mem_singleton.mp he]
    exact e.shows h
  · exact List.flatMap_singleton ..

theorem Lists.showInOrder {entries : List Entry} {as : List Part} (h : Lists entries as)
    (hBelow : ∀ b ∈ as, ∀ depth, ShowInOrder (outline depth b) b.leaves) :
    ShowInOrder entries (as.flatMap Part.leaves) := by
  induction h with
  | nil => exact ⟨nofun, rfl⟩
  | line h =>
    rw [Part.flatMap_leaves_scalar]
    exact showInOrder_line h
  | part depth a =>
    rw [List.flatMap_singleton]
    exact hBelow a List.mem_cons_self depth
  | append _ _ ih ih' =>
    rw [List.flatMap_append]
    apply ShowInOrder.append
    · exact ih fun b hb => hBelow b (List.mem_append_left _ hb)
    · exact ih' fun b hb => hBelow b (List.mem_append_right _ hb)

/-- An outline shows the scalars of its part in the order in which they are visited. -/
theorem outline_showInOrder (a : Part) : ∀ depth, ShowInOrder (outline depth a) a.leaves := by
  induction a using Part.induction with
  | step a ih =>
    intro depth
    cases h : a.scalar? with
    | none =>
      rw [Part.leaves_eq_flatMap h]
      apply (outline_lists depth h).showInOrder
      intro b hb
      exact ih b (Part.mem_children.mp hb)
    | some v =>
      obtain rfl := Part.eq_scalar_of_scalar? h
      rw [Part.leaves_scalar]
      exact showInOrder_line (e := ⟨depth, .value v⟩) trivial

/-- If a tree has a statement, then its outline shows the bindings of the statement, in their order
and each once; and so does the outline of the tree as a subquery, at every depth. -/
theorem outline_shows_bindings {d : Dialect} {q : Query} {s : Statement}
    (h : q.compile d = .ok s) :
    ShowInOrder (query 1 q) s.bindings ∧
    ∀ depth, ShowInOrder (node depth (.query q)) s.bindings := by
  have hBindings : s.bindings = q.leaves := by
    obtain ⟨-, rfl⟩ := Query.compile_eq_ok_iff.mp h
    exact q.leaves_eq.symm
  rw [hBindings]
  constructor
  · exact outline_showInOrder (.query q) 1
  · intro depth
    exact outline_showInOrder (.query q) depth

/-- A tree with a scalar in each of its clauses. -/
def busyVisits : Query where
  select := some {
    selections := [.selection (.aliased (.value (.string "a, b")) "note"), .selectAll]
    distinctOn := [.raw ⟨["coalesce(day, ", ")"], [.value (.date "2024-02-29")]⟩] }
  sources := [.query (Query.visitsIn (.int 7) [.int 1, .null, .string "a, b"])]
  joins := [⟨.left, .table none "rooms",
    some (.filter none (.operator "not") (.value (.bool true)))⟩]
  condition := some (.parens (.valueList [.value (.uint 3), .scalarList [], .value .null]))

theorem outline_shows_bindings_busyVisits :
    ∃ s, busyVisits.compile .standard = .ok s ∧
      s.bindings = [.date "2024-02-29", .string "a, b", .int 1, .null, .string "a, b", .int 7,
        .bool true, .uint 3, .null] ∧
      ShowInOrder (query 1 busyVisits) s.bindings ∧
      ∀ depth, ShowInOrder (node depth (.query busyVisits)) s.bindings := by
  have hBindings : (busyVisits.compile .standard).map Statement.bindings =
      .ok [.date "2024-02-29", .string "a, b", .int 1, .null, .string "a, b", .int 7,
        .bool true, .uint 3, .null] := by cbv
  obtain ⟨s, hs, hEq⟩ := map_ok hBindings
  exact ⟨s, hs, hEq, outline_shows_bindings hs⟩

end Outline

end QueryTree
