import QueryTree.Proofs.Additions

/-! The frame of a visit.  Whatever is visited, and whether or not it fails, the text and the
bindings are only extended, by what the number of bindings and the presence of a query around the
place decide, and the depth comes back (`visits_only_extend`).  For the depth this rests on the body
of a query: it begins one level below the place of the query and ends on the same level, so that
leaving the query undoes the step down that entering it took. -/

namespace QueryTree

open Emission (Framed)

section Visitors

variable (d : Dialect)

theorem emitList_framed (ns : List Node) : Framed (emitList d ns) := by
  rw [← emitPieces_listed]
  exact emitPieces_framed d _

theorem emitJoins_framed (js : List Join) : Framed (emitJoins d js) := by
  rw [← emitPieces_joins]
  exact emitPieces_framed d _

theorem emitClause_framed (keyword : String) (condition : Option Node) :
    Framed (emitClause d keyword condition) := by
  rw [← emitPieces_clause]
  exact emitPieces_framed d _

theorem emitSelect_framed (s : Option Select) : Framed (emitSelect d s) := by
  cases s with
  | none => exact .nothing
  | some s => exact (Part.framed d (.select s)).append (.token d (.text " "))

-- A keyword is the same text in every dialect.
theorem Emission.lock_framed (l : Option Lock) : Framed (Emission.lock l) := by
  cases l with
  | none => exact .nothing
  | some l =>
    exact (Framed.token .standard (.text " ")).append (.token .standard (.text l.keyword))

namespace Query

/-- What a query does between its parentheses, one level deeper. -/
def body (q : Query) : Emission :=
  emitSelect d q.select ++ Emission.text "from " ++ emitList d q.sources ++ emitJoins d q.joins
    ++ emitClause d " where " q.condition ++ Emission.lock q.lock

theorem body_framed (q : Query) : Framed (q.body d) := by
  have hSelect := (emitSelect_framed d q.select).append (.token d (.text "from "))
  have hSources := hSelect.append (emitList_framed d q.sources)
  have hJoins := hSources.append (emitJoins_framed d q.joins)
  have hCondition := hJoins.append (emitClause_framed d " where " q.condition)
  exact hCondition.append (Emission.lock_framed q.lock)

theorem emit_eq_nested {q : Query} (h : q.sources ≠ []) :
    q.emit d = Emission.nested (q.body d) := by
  obtain ⟨select, sources, joins, condition, lock⟩ := q
  have hSources : sources.isEmpty = false := List.isEmpty_eq_false_iff.mpr h
  simp only [emit, hSources, body]
  rfl

/-- The body of a query ends on the level on which it began, also when it fails. -/
theorem body_depth (q : Query) (p : Progress) :
    (q.body d ((Part.query q).enter p)).1.depth = p.depth + 1 :=
  (q.body_framed d).depth_eq _

end Query

end Visitors

/-- Every visit, whether it fails or not, extends the text and the bindings and keeps the depth;
what it adds and how it ends depends on the place only through the number of bindings and whether
there is a query around it.  A query steps down once for its body, and the body ends one level below
the place of the query, so that the step back up undoes this one; a compilation ends at depth
zero. -/
theorem visits_only_extend (d : Dialect) :
    (∀ n : Node, Framed (n.emit d)) ∧ (∀ q : Query, Framed (q.emit d)) ∧
    (∀ s : Select, Framed (s.emit d)) ∧ (∀ j : Join, Framed (j.emit d)) ∧
    (∀ r : Raw, Framed (r.emit d)) ∧ (∀ ns : List Node, Framed (emitList d ns)) ∧
    (∀ q : Query, q.sources ≠ [] → q.emit d = Emission.nested (q.body d) ∧
      ∀ p : Progress, (q.body d ((Part.query q).enter p)).1.depth = p.depth + 1) ∧
    ∀ q : Query, (q.emit d {}).1.depth = 0 := by
  refine ⟨Node.framed d, fun q => Part.framed d (.query q), fun s => Part.framed d (.select s),
    fun j => Part.framed d (.join j), fun r => Part.framed d (.raw r), emitList_framed d,
    fun q h => ⟨q.emit_eq_nested d h, q.body_depth d⟩, fun q => ?_⟩
  have hRoot : Framed (q.emit d) := Part.framed d (.query q)
  exact hRoot.depth_eq {}

/-- Orders with a subquery that fails in the middle. -/
def Query.tornOrders : Query where
  sources := [.table none "orders", .query {
    sources := [.table none "goods"]
    condition := some (.and (.value (.int 7)) (.raw ⟨["now"], [.selectAll]⟩)) }]

theorem visits_only_extend_tornOrders :
    let p : Progress := { sql := "in ", bindings := #[.null], depth := 2 }
    Query.tornOrders.sources ≠ [] ∧
    Query.tornOrders.emit .standard p = ({ p with
      sql := "in (from \"orders\", (from \"goods\" where $1 and ))"
      bindings := #[.null, .int 7] }, some (.rawArity 1 1)) ∧
    (Query.tornOrders.body .standard ((Part.query Query.tornOrders).enter p)).1.depth = 3 := by
  intro p
  have hSources : Query.tornOrders.sources ≠ [] := List.cons_ne_nil _ _
  obtain ⟨-, -, -, -, -, -, hQueries, -⟩ := visits_only_extend .standard
  exact ⟨hSources, by cbv, (hQueries _ hSources).2 p⟩

end QueryTree
