import QueryTree.Proofs.Additions

/-! Clauses at the end of a query.  A join, a condition or a lock that is added to a query in which
nothing stands behind its place is written behind what was there before: the statement so far stays
as it is, and the clause adds what its visit adds within a query with the bindings so far
(`Query.compile_withClause`).  A run of such clauses adds them one after the other. -/

namespace QueryTree

/-- What can be added at the end of a query. -/
inductive Clause where
  | join (j : Join)
  | condition (n : Node)
  | lock (l : Lock)

namespace Clause

/-- The text in front of a clause. -/
def lead : Clause → String
  | .join _ | .lock _ => " "
  | .condition _ => " where "

def visit (d : Dialect) : Clause → Emission
  | .join j => j.emit d
  | .condition n => n.emit d
  | .lock l => Emission.text l.keyword

/-- Nothing in a query stands behind the place of a clause, nor at it, but that joins can follow
each other. -/
def Fits (q : Query) : Clause → Prop
  | .join _ | .condition _ => q.condition = none ∧ q.lock = none
  | .lock _ => q.lock = none

/-- The entries of a layout that a clause makes. -/
def pieces : Clause → List Piece
  | .join j => [.text " ", .part (.join j)]
  | .condition n => [.text " where ", .node n]
  | .lock l => [.text " ", .text l.keyword]

theorem emitPieces_pieces (d : Dialect) (c : Clause) :
    emitPieces d c.pieces = Emission.text c.lead ++ c.visit d := by
  cases c <;> simp [pieces, lead, visit, Token.emit, Part.emit]

theorem framed (d : Dialect) (c : Clause) : (c.visit d).Framed := by
  cases c with
  | join j => exact Part.framed d (.join j)
  | condition n => exact n.framed d
  | lock l => exact .token d (.text l.keyword)

/-- A clause adds its lead, and what its visit adds. -/
theorem lead_append_visit_apply (d : Dialect) (c : Clause) (p : Progress) :
    (Emission.text c.lead ++ c.visit d) p =
      (({ p with sql := p.sql ++ c.lead } : Progress).extend ((c.visit d).adds p),
        ((c.visit d).adds p).failure) := by
  have hLead : Emission.text c.lead p = ({ p with sql := p.sql ++ c.lead }, none) := rfl
  rw [Emission.append_apply_of_ok hLead, (c.framed d).apply]
  rfl

end Clause

def Query.withClause (q : Query) : Clause → Query
  | .join j => q.withJoin j
  | .condition n => q.withCondition n
  | .lock l => q.withLock l

/-- The statement with text and then what a step adds, unless the step fails. -/
def Statement.followedBy (s : Statement) (lead : String) (a : Addition) : Except Error Statement :=
  match a.failure with
  | none => .ok ⟨s.sql ++ lead ++ a.text, s.bindings ++ a.values⟩
  | some e => .error e

/-- The statement with what a clause adds when it is visited with the bindings so far. -/
def Statement.follow (d : Dialect) (s : Statement) (c : Clause) : Except Error Statement :=
  s.followedBy c.lead ((c.visit d).adds { bindings := s.bindings.toArray, depth := 1 })

/-- The text so far plays no part, and of the bindings only their number. -/
theorem Statement.follow_eq (d : Dialect) (s : Statement) (c : Clause) {p : Progress}
    (hp : 0 < p.depth) (hSize : p.bindings.size = s.bindings.length) :
    s.follow d c = s.followedBy c.lead ((c.visit d).adds p) := by
  have hAdds : (c.visit d).adds { bindings := s.bindings.toArray, depth := 1 } =
      (c.visit d).adds p := by
    apply (c.framed d).adds_congr
    · simp [hSize]
    · simp [Progress.enclosed, hp]
  rw [follow, hAdds]

/-- The statement that the end of a compilation makes. -/
def Statement.ofRun : Progress × Option Error → Except Error Statement
  | (p, none) => .ok ⟨p.sql, p.bindings.toList⟩
  | (_, some e) => .error e

theorem Statement.ofRun_clause (d : Dialect) (c : Clause) {p : Progress} (hp : 0 < p.depth) :
    ofRun ((Emission.text c.lead ++ c.visit d) p) = follow d ⟨p.sql, p.bindings.toList⟩ c := by
  rw [follow_eq d _ c hp (by simp), followedBy, Clause.lead_append_visit_apply]
  cases ((c.visit d).adds p).failure with
  | none => simp [ofRun, Progress.extend]
  | some e => rfl

namespace Query

theorem sources_withClause (q : Query) (c : Clause) : (q.withClause c).sources = q.sources := by
  cases c <;> rfl

theorem layout_withClause {q : Query} {c : Clause} (h : c.Fits q) :
    (q.withClause c).layout = q.layout ++ c.pieces := by
  obtain ⟨select, sources, joins, condition, lock⟩ := q
  cases c with
  | join j =>
    obtain ⟨rfl, rfl⟩ := h
    simp [withClause, withJoin, layout, Clause.pieces, Piece.clause]
  | condition n =>
    obtain ⟨rfl, rfl⟩ := h
    simp [withClause, withCondition, layout, Clause.pieces, Piece.clause]
  | lock l =>
    obtain rfl : lock = none := h
    simp [withClause, withLock, layout, Clause.pieces]

/-- A query with a source is compiled as its layout is emitted one level deep. -/
theorem compile_eq_ofRun (d : Dialect) {q : Query} (h : q.sources ≠ []) :
    q.compile d = Statement.ofRun (emitPieces d q.layout { depth := 1 }) := by
  rw [compile, emit_eq d h, Emission.nested]
  simp only [Nat.lt_irrefl, if_false, Nat.zero_add]
  rcases emitPieces d q.layout { depth := 1 } with ⟨after, _ | e⟩ <;> rfl

theorem compile_of_sources_nil (d : Dialect) {q : Query} (h : q.sources = []) :
    q.compile d = .error (.missingChild "Query" "from") := by
  obtain ⟨select, sources, joins, condition, lock⟩ := q
  obtain rfl : sources = [] := h
  rfl

/-- One more clause at the end is visited where the query so far has ended. -/
theorem compile_withClause (d : Dialect) {q : Query} {c : Clause} (hFits : c.Fits q) :
    (q.withClause c).compile d = q.compile d >>= fun s => s.follow d c := by
  by_cases hSources : q.sources = []
  · rw [compile_of_sources_nil d hSources,
      compile_of_sources_nil d ((q.sources_withClause c).trans hSources)]
    rfl
  · have hSources' : (q.withClause c).sources ≠ [] := by rwa [sources_withClause]
    have hBody := (emitPieces_framed d q.layout).apply { depth := 1 }
    rw [compile_eq_ofRun d hSources, compile_eq_ofRun d hSources', layout_withClause hFits,
      emitPieces_append, Clause.emitPieces_pieces]
    generalize (emitPieces d q.layout).adds { depth := 1 } = a at hBody
    cases hFailure : a.failure with
    | some e =>
      rw [hFailure] at hBody
      rw [Emission.append_apply_of_fail hBody, hBody]
      rfl
    | none =>
      rw [hFailure] at hBody
      rw [Emission.append_apply_of_ok hBody, hBody, Statement.ofRun_clause d c Nat.one_pos]
      rfl

/-- Each of some clauses fits at the end of the query that those before it have made. -/
def Takes (q : Query) : List Clause → Prop
  | [] => True
  | c :: cs => c.Fits q ∧ (q.withClause c).Takes cs

/-- Clauses at the end are visited one after the other, up to the first that fails. -/
theorem compile_foldl_withClause (d : Dialect) {q : Query} {cs : List Clause} (h : q.Takes cs) :
    (cs.foldl withClause q).compile d =
      q.compile d >>= fun s => cs.foldlM (Statement.follow d) s := by
  induction cs generalizing q with
  | nil => simp
  | cons c cs ih =>
    obtain ⟨hFits, hRest⟩ := h
    rw [List.foldl_cons, ih hRest, compile_withClause d hFits, bind_assoc]
    simp only [List.foldlM_cons]

/-- Joins, a condition and a lock, in the order of the statement. -/
def trailing (js : List Join) (n : Option Node) (l : Option Lock) : List Clause :=
  js.map .join ++ (n.toList.map .condition ++ l.toList.map .lock)

theorem takes_trailing {q : Query} (hCondition : q.condition = none) (hLock : q.lock = none)
    (js : List Join) (n : Option Node) (l : Option Lock) : q.Takes (trailing js n l) := by
  induction js generalizing q with
  | nil =>
    have hEnd : ∀ q' : Query, q'.lock = none → q'.Takes (l.toList.map .lock) := by
      intro q' hLock'
      cases l with
      | none => trivial
      | some l => exact ⟨hLock', trivial⟩
    cases n with
    | none => exact hEnd q hLock
    | some n => exact ⟨⟨hCondition, hLock⟩, hEnd _ hLock⟩
  | cons j js ih => exact ⟨⟨hCondition, hLock⟩, ih hCondition hLock⟩

end Query

namespace Statement

/-- The other statement goes on from this one, in its text and in its bindings. -/
structure IsStart (s s' : Statement) : Prop where
  sql : s.sql.toList <+: s'.sql.toList
  bindings : s.bindings <+: s'.bindings

theorem isStart_of_follow {d : Dialect} {s s' : Statement} {c : Clause}
    (h : s.follow d c = .ok s') : s.IsStart s' := by
  rw [follow, followedBy] at h
  split at h
  · cases h
    exact ⟨by simp [String.append_assoc], by simp⟩
  · cases h

theorem isStart_of_foldlM {d : Dialect} {s s' : Statement} {cs : List Clause}
    (h : cs.foldlM (follow d) s = .ok s') : s.IsStart s' := by
  induction cs generalizing s with
  | nil =>
    cases h
    exact ⟨List.prefix_rfl, List.prefix_rfl⟩
  | cons c cs ih =>
    rw [List.foldlM_cons] at h
    cases hNext : s.follow d c with
    | error e =>
      rw [hNext] at h
      cases h
    | ok next =>
      rw [hNext] at h
      have hFirst := isStart_of_follow hNext
      have hRest := ih h
      exact ⟨hFirst.sql.trans hRest.sql, hFirst.bindings.trans hRest.bindings⟩

end Statement

namespace Query

/-- A clause at the end of a query leaves the statement before it as it was.  A lock adds its
keyword; a condition and a join add what their visits add within any query with as many bindings,
or fail as those visits do.  So do any joins with a condition and a lock after them, one after the
other. -/
theorem clauses_follow (d : Dialect) (q : Query) (s : Statement) (hs : q.compile d = .ok s) :
    (q.lock = none → ∀ l : Lock,
      (q.withLock l).compile d = .ok ⟨s.sql ++ " " ++ l.keyword, s.bindings⟩) ∧
    (q.condition = none → q.lock = none →
      (∀ p : Progress, 0 < p.depth → p.bindings.size = s.bindings.length →
        (∀ n : Node, ∃ a, n.emit d p = (p.extend a, a.failure) ∧
          (q.withCondition n).compile d = s.followedBy " where " a) ∧
        ∀ j : Join, ∃ a, j.emit d p = (p.extend a, a.failure) ∧
          (q.withJoin j).compile d = s.followedBy " " a) ∧
      ∀ (js : List Join) (n : Option Node) (l : Option Lock),
        ((trailing js n l).foldl withClause q).compile d =
          (trailing js n l).foldlM (Statement.follow d) s ∧
        ∀ s', ((trailing js n l).foldl withClause q).compile d = .ok s' → s.IsStart s') := by
  have hStep : ∀ c : Clause, c.Fits q → (q.withClause c).compile d = s.follow d c := by
    intro c hFits
    rw [compile_withClause d hFits, hs]
    rfl
  constructor
  · intro hLock l
    have hKeyword : s.follow d (.lock l) = .ok ⟨s.sql ++ " " ++ l.keyword, s.bindings⟩ := by
      simp [Statement.follow, Statement.followedBy, Clause.lead, Clause.visit, Emission.adds,
        Emission.text]
    exact (hStep (.lock l) hLock).trans hKeyword
  intro hCondition hLock
  constructor
  · intro p hp hSize
    constructor
    · intro n
      refine ⟨(n.emit d).adds p, (n.framed d).apply p, ?_⟩
      have hFollow := hStep (.condition n) ⟨hCondition, hLock⟩
      rwa [s.follow_eq d _ hp hSize] at hFollow
    · intro j
      refine ⟨(j.emit d).adds p, (Part.framed d (.join j)).apply p, ?_⟩
      have hFollow := hStep (.join j) ⟨hCondition, hLock⟩
      rwa [s.follow_eq d _ hp hSize] at hFollow
  · intro js n l
    have hRun := compile_foldl_withClause d (takes_trailing hCondition hLock js n l)
    rw [hs] at hRun
    refine ⟨hRun, ?_⟩
    intro s' hs'
    rw [hRun] at hs'
    exact Statement.isStart_of_foldlM hs'

/-- Goods of one kind. -/
def goods : Query where
  select := some { selections := [.value (.string "new"), .selectAll] }
  sources := [.table none "goods"]

/-- The price of goods, from a subquery with a bound value of its own. -/
def priced : Join where
  kind := .left
  table := .query { sources := [.raw ⟨["f(", ")"], [.value (.int 3)]⟩] }
  condition := some (.identifier "ok")

theorem clauses_follow_goods :
    let s : Statement := ⟨"select $0, * from \"goods\"", [.string "new"]⟩
    let clauses := trailing [priced] (some (.value (.int 4))) (some .share)
    goods.compile .standard = .ok s ∧ goods.condition = none ∧ goods.lock = none ∧
    (goods.withLock .noWait).compile .standard = .ok ⟨s.sql ++ " no wait", s.bindings⟩ ∧
    (∃ a, priced.emit .standard { bindings := #[.null], depth := 7 } =
        (Progress.extend { bindings := #[.null], depth := 7 } a, a.failure) ∧
      (goods.withJoin priced).compile .standard = s.followedBy " " a) ∧
    (clauses.foldl withClause goods).compile .standard =
      clauses.foldlM (Statement.follow .standard) s ∧
    clauses.foldlM (Statement.follow .standard) s = .ok
      ⟨s.sql ++ " left join (from f($1)) on \"ok\" where $2 for share",
        s.bindings ++ [.int 3, .int 4]⟩ := by
  intro s clauses
  have hs : goods.compile .standard = .ok s := by cbv
  obtain ⟨hLock, hEnd⟩ := clauses_follow .standard goods s hs
  obtain ⟨hOne, hMany⟩ := hEnd rfl rfl
  refine ⟨hs, rfl, rfl, hLock rfl .noWait, ?_, (hMany _ _ _).1, by cbv⟩
  exact (hOne { bindings := #[.null], depth := 7 } (by decide) rfl).2 priced

end Query

end QueryTree
