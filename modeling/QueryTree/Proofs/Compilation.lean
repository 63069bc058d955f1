import QueryTree.Proofs.Tokens

/-! What a compilation gives.  Within a query, the visit of a part either fails with the first
fault of the part, or extends the progress by the tokens of the part (`Part.writes`): the dialect
only renders the tokens, and the depth plays no further part.  `Query.compile_of_fault_none` and
`Query.compile_of_fault` say the same of a whole statement.  The two main statements follow from
them: a statement is the rendering of one list of tokens that no dialect has a part in, and a tree
has a statement exactly when every part of it is well formed. -/

namespace QueryTree

namespace Progress

/-- The progress after more tokens. -/
def write (d : Dialect) (p : Progress) (tokens : List Token) : Progress :=
  { p with
    sql := p.sql ++ Token.render d p.bindings.size tokens
    bindings := p.bindings ++ (Token.scalars tokens).toArray }

@[simp] theorem write_depth (d : Dialect) (p : Progress) (tokens : List Token) :
    (p.write d tokens).depth = p.depth := rfl

@[simp] theorem write_nil (d : Dialect) (p : Progress) : p.write d [] = p := by
  simp [write, Token.render]

theorem write_append (d : Dialect) (p : Progress) (first second : List Token) :
    p.write d (first ++ second) = (p.write d first).write d second := by
  simp [write, Token.render_append, String.append_assoc, Array.append_assoc]

end Progress

theorem Token.emit_apply (d : Dialect) (t : Token) (p : Progress) :
    t.emit d p = (p.write d [t], none) := by
  cases t <;>
    simp [emit, Emission.text, Emission.name, Emission.bind, Progress.write, render]

namespace Emission

/-- Within a query, `step` fails with `fault` if there is one, and else writes `tokens`. -/
structure Writes (d : Dialect) (step : Emission) (fault : Option Error) (tokens : List Token) :
    Prop where
  outcome : ∀ p : Progress, 0 < p.depth → (step p).2 = fault
  progress : fault = none → ∀ p : Progress, 0 < p.depth → (step p).1 = p.write d tokens

namespace Writes

variable {d : Dialect} {step first second : Emission} {fault fault' : Option Error}
  {tokens tokens' : List Token}

theorem apply (h : Writes d step none tokens) {p : Progress} (hp : 0 < p.depth) :
    step p = (p.write d tokens, none) :=
  Prod.ext (h.progress rfl p hp) (h.outcome p hp)

theorem nothing : Writes d Emission.nothing none [] :=
  ⟨fun _ _ => rfl, fun _ p _ => (p.write_nil d).symm⟩

theorem fail (e : Error) : Writes d (Emission.fail e) (some e) tokens :=
  ⟨fun _ _ => rfl, fun h => nomatch h⟩

theorem token (t : Token) : Writes d (t.emit d) none [t] :=
  ⟨fun p _ => by rw [t.emit_apply], fun _ p _ => by rw [t.emit_apply]⟩

/-- The first step's fault hides the second's; without one, the tokens follow each other. -/
theorem append (h : Writes d first fault tokens) (h' : Writes d second fault' tokens') :
    Writes d (first ++ second) (fault.or fault') (tokens ++ tokens') := by
  cases fault with
  | some e =>
    refine ⟨fun p hp => ?_, fun hf => nomatch hf⟩
    have hFirst : first p = ((first p).1, some e) := Prod.ext rfl (h.outcome p hp)
    rw [append_apply_of_fail hFirst]
    rfl
  | none =>
    have hRun : ∀ p : Progress, 0 < p.depth → (first ++ second) p = second (p.write d tokens) :=
      fun p hp => append_apply_of_ok (h.apply hp)
    refine ⟨fun p hp => ?_, fun hf p hp => ?_⟩
    · rw [hRun p hp]
      exact h'.outcome _ hp
    · rw [hRun p hp, Progress.write_append]
      exact h'.progress hf _ hp

/-- The body of a subquery is written between parentheses. -/
theorem nested (h : Writes d step fault tokens) :
    Writes d (Emission.nested step) fault ([.text "("] ++ tokens ++ [.text ")"]) := by
  refine ⟨fun p hp => h.outcome _ (Nat.succ_pos p.depth), fun hf p hp => ?_⟩
  subst hf
  have hBody : step { p with sql := p.sql ++ "(", depth := p.depth + 1 } = _ :=
    h.apply (Nat.succ_pos p.depth)
  simp only [Emission.nested, hp, if_true, hBody]
  simp [Progress.write, Token.render, Token.render_append, String.append_assoc]

/-- The body of the outermost query is written as it is. -/
theorem nested_outermost (h : Writes d step none tokens) :
    Emission.nested step {} = (({} : Progress).write d tokens, none) := by
  have hBody : step { depth := 1 } = _ := h.apply Nat.one_pos
  simp [Emission.nested, hBody, Progress.write]

end Writes

end Emission

open Emission (Writes)

theorem emitPieces_writes_of {d : Dialect} {pieces : List Piece}
    (h : ∀ b, .part b ∈ pieces → Writes d (b.emit d) b.firstFault? b.tokens) :
    Writes d (emitPieces d pieces) (firstFaultOf? pieces) (pieces.flatMap Piece.tokens) := by
  induction pieces with
  | nil => exact .nothing
  | cons x rest ih =>
    have hRest := ih fun b hb => h b (List.mem_cons_of_mem x hb)
    cases x with
    | token t => exact (Writes.token t).append hRest
    | part a => exact (h a List.mem_cons_self).append hRest

/-- Within a query, a part fails with its first fault, or writes its tokens. -/
theorem Part.writes (d : Dialect) (a : Part) : Writes d (a.emit d) a.firstFault? a.tokens := by
  induction a using Part.induction with
  | step a ih =>
    rw [a.firstFault?_eq, a.tokens_eq]
    -- A fault of the part itself hides all that is below; without one, the layout decides.
    cases h : a.fault? with
    | some e =>
      rw [emit_of_fault d h]
      exact .fail e
    | none =>
      rw [emit_of_fault_none d h]
      have hLayout := emitPieces_writes_of ih
      cases a with
      | query q => exact hLayout.nested
      | node | select | join | raw | scalar => exact hLayout

theorem emitPieces_writes (d : Dialect) (pieces : List Piece) :
    Writes d (emitPieces d pieces) (firstFaultOf? pieces) (pieces.flatMap Piece.tokens) :=
  emitPieces_writes_of fun b _ => b.writes d

/-- The statement that tokens make. -/
def Statement.ofTokens (d : Dialect) (tokens : List Token) : Statement :=
  ⟨Token.render d 0 tokens, Token.scalars tokens⟩

namespace Query

theorem compile_of_emit_fails {d : Dialect} {q : Query} {e : Error}
    (h : (q.emit d {}).2 = some e) : q.compile d = .error e := by
  have hEmit : q.emit d {} = ((q.emit d {}).1, some e) := Prod.ext rfl h
  rw [compile, hEmit]

/-- A statement is what the visit of the outermost query has written and bound. -/
theorem emit_of_compile {d : Dialect} {q : Query} {s : Statement} (h : q.compile d = .ok s) :
    s.sql = (q.emit d {}).1.sql ∧ s.bindings = (q.emit d {}).1.bindings.toList := by
  rw [compile] at h
  split at h
  · next p hEmit =>
    cases h
    rw [hEmit]
    exact ⟨rfl, rfl⟩
  · cases h

/-- A tree without a fault has the statement that its tokens make. -/
theorem compile_of_fault_none (d : Dialect) {q : Query} (h : q.firstFault? = none) :
    q.compile d = .ok (.ofTokens d q.tokens) := by
  obtain ⟨hq, hBelow⟩ := Option.or_eq_none_iff.mp ((Part.firstFault?_eq _).symm.trans h)
  have hEmit : q.emit d = Emission.nested (emitPieces d q.layout) := Part.emit_of_fault_none d hq
  have hBody : Writes d (emitPieces d q.layout) none q.tokens :=
    hBelow ▸ emitPieces_writes d q.layout
  rw [compile, hEmit, hBody.nested_outermost]
  simp [Statement.ofTokens, Progress.write]

/-- A tree with a fault fails with the first one. -/
theorem compile_of_fault (d : Dialect) {q : Query} {e : Error} (h : q.firstFault? = some e) :
    q.compile d = .error e := by
  apply compile_of_emit_fails
  rw [← h, firstFault?, Part.firstFault?_eq]
  cases hq : (Part.query q).fault? with
  | some e' =>
    have hEmit : q.emit d = Emission.fail e' := Part.emit_of_fault d hq
    rw [hEmit]
    rfl
  | none =>
    have hEmit : q.emit d = Emission.nested (emitPieces d q.layout) :=
      Part.emit_of_fault_none d hq
    rw [hEmit]
    exact (emitPieces_writes d q.layout).outcome { depth := 1 } Nat.one_pos

theorem compile_eq_ok_iff {d : Dialect} {q : Query} {s : Statement} :
    q.compile d = .ok s ↔ q.firstFault? = none ∧ s = .ofTokens d q.tokens := by
  cases h : q.firstFault? with
  | none => simp [compile_of_fault_none d h, eq_comm]
  | some e => simp [compile_of_fault d h]

theorem compile_eq_error_iff {d : Dialect} {q : Query} {e : Error} :
    q.compile d = .error e ↔ q.firstFault? = some e := by
  cases h : q.firstFault? with
  | none => simp [compile_of_fault_none d h]
  | some e' => simp [compile_of_fault d h]

/-! ### Statements as tokens -/

/-- A statement renders the tokens of its tree, and its bindings are the scalars of the holes.  So
dialects agree on whether there is a statement, on the error, and on the bindings. -/
theorem compile_renders_tokens (q : Query) :
    (∀ (d : Dialect) (s : Statement), q.compile d = .ok s →
      s.sql = Token.render d 0 q.tokens ∧ s.bindings = Token.scalars q.tokens) ∧
    (∀ d d' : Dialect,
      (q.compile d).map Statement.bindings = (q.compile d').map Statement.bindings) ∧
    q.compile (Settings.dialect {}) = q.compile .standard := by
  refine ⟨fun d s hs => ?_, fun d d' => ?_, ?_⟩
  · obtain ⟨-, rfl⟩ := compile_eq_ok_iff.mp hs
    exact ⟨rfl, rfl⟩
  · cases h : q.firstFault? with
    | none =>
      rw [compile_of_fault_none d h, compile_of_fault_none d' h]
      rfl
    | some e => rw [compile_of_fault d h, compile_of_fault d' h]
  · rw [Settings.dialect_default]

/-- Unpaid orders, from a subquery and with a raw condition. -/
def unpaidOrders : Query where
  select := some { selections := [.selectAll] }
  sources := [.aliased (.query {
    sources := [.table none "orders"]
    condition := some (.filter (some (.identifier "state")) (.operator "in")
      (.scalarList [.int 1, .null])) }) "o"]
  condition := some (.raw ⟨["paid is ", ""], [.value (.bool false)]⟩)

theorem compile_renders_tokens_unpaidOrders :
    let sql :=
      "select * from (from \"orders\" where \"state\" in ($0, $1)) as \"o\" where paid is $2"
    let bindings : List Scalar := [.int 1, .null, .bool false]
    unpaidOrders.compile .standard = .ok ⟨sql, bindings⟩ ∧
      sql = Token.render .standard 0 unpaidOrders.tokens ∧
      bindings = Token.scalars unpaidOrders.tokens := by
  intro sql bindings
  have h : unpaidOrders.compile .standard = .ok ⟨sql, bindings⟩ := by cbv
  exact ⟨h, (compile_renders_tokens unpaidOrders).1 .standard _ h⟩

end Query

/-! ### Trees with a statement -/

namespace Part

/-- Whether a part has what it needs, whatever stands below it. -/
def WellFormed : Part → Prop
  | .query q => q.sources ≠ []
  | .select s => s.selections ≠ []
  | .raw r => r.fragments.length = r.params.length + 1
  | .node _ | .join _ | .scalar _ => True

theorem fault?_eq_none_iff {a : Part} : a.fault? = none ↔ a.WellFormed := by
  cases a <;> simp [fault?, WellFormed]

end Part

namespace Query

theorem firstFault?_eq_none_iff {q : Query} :
    q.firstFault? = none ↔ ∀ a ∈ q.parts, a.WellFormed := by
  simp only [firstFault?, Part.firstFault?, List.findSome?_eq_none_iff, Part.fault?_eq_none_iff]

/-- The first fault belongs to a part that is not well formed, after parts that are. -/
theorem firstFault?_eq_some_iff {q : Query} {e : Error} :
    q.firstFault? = some e ↔ ∃ before a after, q.parts = before ++ a :: after ∧
      (∀ b ∈ before, b.WellFormed) ∧ a.fault? = some e := by
  rw [firstFault?, Part.firstFault?, List.findSome?_eq_some_iff]
  simp only [Part.fault?_eq_none_iff]
  constructor
  · rintro ⟨before, a, after, hParts, ha, hBefore⟩
    exact ⟨before, a, after, hParts, hBefore, ha⟩
  · rintro ⟨before, a, after, hParts, hBefore, ha⟩
    exact ⟨before, a, after, hParts, ha, hBefore⟩

/-- A tree has a statement exactly when all its parts are well formed, and else it fails with the
error of the first part that is not, in the order of a visit.  There are three kinds of error. -/
theorem compile_fails_at_first_fault (d : Dialect) (q : Query) :
    ((∃ s, q.compile d = .ok s) ↔ ∀ a ∈ q.parts, a.WellFormed) ∧
    (∀ e, q.compile d = .error e ↔ ∃ before a after, q.parts = before ++ a :: after ∧
      (∀ b ∈ before, b.WellFormed) ∧ a.fault? = some e) ∧
    (∀ e, q.compile d = .error e → e = .missingChild "Query" "from" ∨
      e = .missingChild "Select" "selections" ∨
      ∃ fragments params, e = .rawArity fragments params) := by
  refine ⟨?_, fun e => ?_, fun e h => ?_⟩
  · rw [← firstFault?_eq_none_iff]
    constructor
    · rintro ⟨s, hs⟩
      exact (compile_eq_ok_iff.mp hs).1
    · intro h
      exact ⟨_, compile_of_fault_none d h⟩
  · rw [compile_eq_error_iff, firstFault?_eq_some_iff]
  · obtain ⟨_, a, _, _, _, ha⟩ := firstFault?_eq_some_iff.mp (compile_eq_error_iff.mp h)
    rcases Part.fault?_eq_some ha with ⟨_, _, _, he⟩ | ⟨_, _, _, he⟩ | ⟨_, _, _, he⟩
    · exact .inl he
    · exact .inr (.inl he)
    · exact .inr (.inr ⟨_, _, he⟩)

/-- A tree with two faults: a raw parameter is missing in the select list, and a subquery of the
condition has no source. -/
def faultyOrders : Query where
  select := some {
    selections := [.selectAll]
    distinctOn := [.parens (.raw ⟨["lower(", ")", ""], [.identifier "city"]⟩)] }
  sources := [.table (some "shop") "orders"]
  condition := some (.and (.identifier "open") (.query { sources := [] }))

theorem compile_fails_at_first_fault_faultyOrders :
    faultyOrders.compile .standard = .error (.rawArity 3 1) ∧
    (∃ before a after, faultyOrders.parts = before ++ a :: after ∧
      (∀ b ∈ before, b.WellFormed) ∧ a.fault? = some (.rawArity 3 1)) ∧
    (Error.rawArity 3 1 = .missingChild "Query" "from" ∨
      Error.rawArity 3 1 = .missingChild "Select" "selections" ∨
      ∃ fragments params, Error.rawArity 3 1 = .rawArity fragments params) := by
  have h : faultyOrders.compile .standard = .error (.rawArity 3 1) := by cbv
  obtain ⟨-, hFirst, hKind⟩ := compile_fails_at_first_fault .standard faultyOrders
  exact ⟨h, (hFirst _).mp h, hKind _ h⟩

end Query

end QueryTree
