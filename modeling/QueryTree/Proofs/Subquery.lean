import QueryTree.Proofs.Additions
import QueryTree.Proofs.Compilation

/-! Subqueries.  `Visits` says which parts a compilation visits, and from which progress; when it
gives a statement, these are the parts of the tree (`Query.exists_visits_iff`).  The compilation
goes on from what a visit comes to: it ends with the text and the bindings of the visit and more, or
fails as the visit does (`Visits.emit_extends`).  All parts but the outermost query are visited
within a query, so a subquery writes what it would write as a statement of its own, between
parentheses and with its placeholders counted on from the bindings before it. -/

namespace QueryTree

/-- The dialect that counts placeholders from `k` on. -/
def Dialect.shift (d : Dialect) (k : Nat) : Dialect :=
  { d with placeholder := fun index => d.placeholder (index + k) }

theorem Settings.dialect_shift (s : Settings) (k : Nat) :
    s.dialect.shift k =
      Settings.dialect { s with placeholderBase := s.placeholderBase + k } := by
  simp only [dialect, Dialect.shift, Dialect.mk.injEq, true_and]
  funext index
  rw [Nat.add_assoc, Nat.add_comm k]

theorem Token.render_shift (d : Dialect) (k index : Nat) (tokens : List Token) :
    render (d.shift k) index tokens = render d (index + k) tokens := by
  induction tokens generalizing index with
  | nil => rfl
  | cons t rest ih =>
    cases t with
    | text s => rw [render, render, ih]
    | name s =>
      rw [render, render, ih]
      rfl
    | hole v =>
      simp only [render, ih, Nat.add_right_comm index 1 k]
      rfl

/-- The compilation of `q` comes to visit a part from a progress: at first `q` itself, and then a
part of a layout after the entries before it have run. -/
inductive Visits (d : Dialect) (q : Query) : Part → Progress → Prop
  | root : Visits d q (.query q) {}
  | child {a b : Part} {p after : Progress} {before rest : List Piece} :
      Visits d q a p → a.fault? = none → a.layout = before ++ .part b :: rest →
      emitPieces d before (a.enter p) = (after, none) → Visits d q b after

/-- `after` has the text and the bindings of `before`, and more. -/
structure Progress.Extends (before after : Progress) : Prop where
  sql : ∃ text, after.sql = before.sql ++ text
  bindings : ∃ values : List Scalar, after.bindings = before.bindings ++ values.toArray

namespace Progress.Extends

theorem refl (p : Progress) : Extends p p :=
  ⟨⟨"", String.append_empty.symm⟩, ⟨[], Array.append_empty.symm⟩⟩

theorem trans {p p' p'' : Progress} (h : Extends p p') (h' : Extends p' p'') : Extends p p'' := by
  obtain ⟨⟨text, hText⟩, ⟨values, hValues⟩⟩ := h
  obtain ⟨⟨more, hMore⟩, ⟨others, hOthers⟩⟩ := h'
  refine ⟨⟨text ++ more, ?_⟩, ⟨values ++ others, ?_⟩⟩
  · rw [hMore, hText, String.append_assoc]
  · rw [hOthers, hValues, Array.append_assoc, List.append_toArray values others]

end Progress.Extends

open Progress (Extends)

theorem Emission.Framed.extends {step : Emission} (h : Emission.Framed step) (p : Progress) :
    Extends p (step p).1 := by
  rw [h.apply p]
  exact ⟨⟨_, rfl⟩, ⟨_, rfl⟩⟩

/-- A part ends as its layout does, and adds at most the end of a query. -/
theorem Part.around_extends (a : Part) (body : Emission) (p : Progress) :
    Extends (body (a.enter p)).1 (a.around body p).1 ∧
      (a.around body p).2 = (body (a.enter p)).2 := by
  cases a with
  | query q =>
    refine ⟨⟨?_, ⟨[], Array.append_empty.symm⟩⟩, rfl⟩
    by_cases hp : 0 < p.depth
    · exact ⟨")", if_pos hp⟩
    · exact ⟨"", (if_neg hp).trans String.append_empty.symm⟩
  | node | select | join | raw | scalar => exact ⟨.refl _, rfl⟩

/-- What runs within a query ends within it. -/
theorem emitPieces_depth {d : Dialect} {pieces : List Piece} {p after : Progress}
    (h : emitPieces d pieces p = (after, none)) : after.depth = p.depth := by
  have hDepth := (emitPieces_framed d pieces).depth_eq p
  rwa [h] at hDepth

namespace Visits

variable {d : Dialect} {q : Query} {a b : Part} {p : Progress}

theorem enter_depth_pos (h : (a = .query q ∧ p = {}) ∨ 0 < p.depth) : 0 < (a.enter p).depth := by
  rcases h with ⟨rfl, rfl⟩ | hp
  · exact Nat.one_pos
  · cases a with
    | query => exact Nat.succ_pos _
    | node | select | join | raw | scalar => exact hp

/-- All that a compilation visits is the outermost query, or stands within it. -/
theorem depth_pos (h : Visits d q a p) : (a = .query q ∧ p = {}) ∨ 0 < p.depth := by
  induction h with
  | root => exact .inl ⟨rfl, rfl⟩
  | child _ _ _ hRan ih =>
    have hEnter := enter_depth_pos ih
    right
    rw [emitPieces_depth hRan]
    exact hEnter

/-- The compilation goes on from what a visit comes to, and fails where the visit does. -/
theorem emit_extends (h : Visits d q a p) :
    Extends (a.emit d p).1 (q.emit d {}).1 ∧
      ∀ e, (a.emit d p).2 = some e → (q.emit d {}).2 = some e := by
  induction h with
  | root => exact ⟨.refl _, fun _ => id⟩
  | @child a b p after before rest _ hFault hLayout hRan ih =>
    obtain ⟨hExtends, hFails⟩ := ih
    have hBody : emitPieces d a.layout (a.enter p) = (b.emit d ++ emitPieces d rest) after := by
      rw [hLayout, emitPieces_append, Emission.append_apply_of_ok hRan, emitPieces_part]
    obtain ⟨hAround, hOutcome⟩ := a.around_extends (emitPieces d a.layout) p
    rw [← Part.emit_of_fault_none d hFault, hBody] at hAround hOutcome
    -- Either `b` fails and nothing else is visited, or the entries after `b` run from its end.
    rcases hVisit : b.emit d after with ⟨visited, _ | e⟩
    · rw [Emission.append_apply_of_ok hVisit] at hAround
      have hRest := (emitPieces_framed d rest).extends visited
      exact ⟨hRest.trans (hAround.trans hExtends), nofun⟩
    · rw [Emission.append_apply_of_fail hVisit] at hAround hOutcome
      refine ⟨hAround.trans hExtends, fun e' he => ?_⟩
      cases he
      exact hFails e hOutcome

theorem compile_eq_error {e : Error} (h : Visits d q a p) (he : (a.emit d p).2 = some e) :
    q.compile d = .error e :=
  Query.compile_of_emit_fails (h.emit_extends.2 e he)

/-- A statement begins with what has been written and bound at the end of any visit. -/
theorem compile_eq_ok {s : Statement} (h : Visits d q a p) (hs : q.compile d = .ok s) :
    (a.emit d p).2 = none ∧ ∃ after values, s.sql = (a.emit d p).1.sql ++ after ∧
      s.bindings = (a.emit d p).1.bindings.toList ++ values := by
  constructor
  · cases he : (a.emit d p).2 with
    | none => rfl
    | some e =>
      rw [h.compile_eq_error he] at hs
      cases hs
  · obtain ⟨hSql, hBindings⟩ := Query.emit_of_compile hs
    obtain ⟨⟨after, hAfter⟩, ⟨values, hValues⟩⟩ := h.emit_extends.1
    refine ⟨after, values, hSql.trans hAfter, ?_⟩
    rw [hBindings, hValues, Array.toList_append]

theorem mem_parts (h : Visits d q a p) : a ∈ q.parts := by
  induction h with
  | root => exact Part.mem_parts_self _
  | child _ _ hLayout _ ih =>
    refine Part.mem_parts_of_mem_children ih (Part.mem_children.mpr ?_)
    rw [hLayout]
    exact List.mem_append_right _ List.mem_cons_self

/-- The visit of a part without a fault comes to all parts directly below it. -/
theorem exists_child (h : Visits d q a p) (hFault : a.firstFault? = none) (hb : b ∈ a.children) :
    (∃ after, Visits d q b after) ∧ b.firstFault? = none := by
  rw [Part.firstFault?_eq, Option.or_eq_none_iff] at hFault
  obtain ⟨before, rest, hLayout⟩ := List.append_of_mem (Part.mem_children.mp hb)
  have hBelow := hFault.2
  rw [hLayout, firstFaultOf?_append, firstFaultOf?, Option.or_eq_none_iff,
    Option.or_eq_none_iff] at hBelow
  obtain ⟨hBefore, hPart, -⟩ := hBelow
  -- Without a fault, the entries before `b` run to their end, and `b` is visited from there.
  have hWrites := emitPieces_writes d before
  rw [hBefore] at hWrites
  exact ⟨⟨_, .child h hFault.1 hLayout (hWrites.apply (enter_depth_pos h.depth_pos))⟩, hPart⟩

theorem exists_of_mem_parts (h : Visits d q a p) (hFault : a.firstFault? = none)
    (hb : b ∈ a.parts) : ∃ after, Visits d q b after := by
  induction a using Part.induction generalizing p with
  | step a ih =>
    rw [Part.parts_eq, List.mem_cons, List.mem_flatMap] at hb
    rcases hb with rfl | ⟨c, hc, hb⟩
    · exact ⟨p, h⟩
    · obtain ⟨⟨after, hVisit⟩, hChild⟩ := h.exists_child hFault hc
      exact ih c (Part.mem_children.mp hc) hVisit hChild hb

end Visits

/-- A compilation that gives a statement visits the parts of the tree and nothing else. -/
theorem Query.exists_visits_iff {d : Dialect} {q : Query} {s : Statement} (h : q.compile d = .ok s)
    {a : Part} : (∃ p, Visits d q a p) ↔ a ∈ q.parts := by
  constructor
  · rintro ⟨p, hVisit⟩
    exact hVisit.mem_parts
  · intro ha
    exact Visits.root.exists_of_mem_parts (compile_eq_ok_iff.mp h).1 ha

open Piece (text)

namespace Query

theorem subquery_writes (d : Dialect) (s : Query) :
    Emission.Writes d ((Node.query s).emit d) s.firstFault?
      ([.text "("] ++ s.tokens ++ [.text ")"]) := by
  have h := (Part.query s).writes d
  rw [Part.tokens_eq] at h
  exact h

/-- The visit of a subquery is a compilation of its own. -/
theorem emit_subquery {d : Dialect} {q s : Query} {p : Progress}
    (h : Visits d q (.node (.query s)) p) :
    (∀ e, ((Node.query s).emit d p).2 = some e ↔ s.compile d = .error e) ∧
    (((Node.query s).emit d p).2 = none → ∃ t, s.compile (d.shift p.bindings.size) = .ok t ∧
      ((Node.query s).emit d p).1 = { p with
        sql := p.sql ++ ("(" ++ t.sql ++ ")")
        bindings := p.bindings ++ t.bindings.toArray }) := by
  -- The outermost query is no node, so this visit stands within a query.
  have hp : 0 < p.depth := by
    rcases h.depth_pos with ⟨hRoot, -⟩ | hp
    · cases hRoot
    · exact hp
  have hWrites := subquery_writes d s
  rw [hWrites.outcome p hp]
  refine ⟨fun e => compile_eq_error_iff.symm, fun hFault => ?_⟩
  refine ⟨_, compile_of_fault_none _ hFault, ?_⟩
  rw [hWrites.progress hFault p hp]
  simp [Progress.write, Statement.ofTokens, Token.render_shift, Token.render, Token.render_append,
    String.append_assoc]

/-- A statement begins with its select list, or with its sources. -/
theorem exists_tokens_eq (q : Query) :
    ∃ rest, q.tokens = .text (if q.select.isSome then "select " else "from ") :: rest := by
  obtain ⟨select, sources, joins, condition, lock⟩ := q
  cases select with
  | none => exact ⟨_, rfl⟩
  | some s =>
    have hSelect : ∃ rest, (Part.select s).tokens = .text "select " :: rest := by
      rw [Part.tokens_eq]
      exact ⟨_, rfl⟩
    obtain ⟨rest, hRest⟩ := hSelect
    simp only [tokens, layout, Option.toList_some, List.cons_append, List.flatMap_cons,
      Piece.tokens, hRest]
    exact ⟨_, rfl⟩

/-- A subquery is visited as it would be compiled alone, but between parentheses and with its
placeholders counted on, and the statement of the whole tree has what the visit writes right after
what was written before it.  The visits are those of the compiler: every part either fails by itself
or runs its layout, and a compilation that gives a statement visits the parts of the tree and no
others.  The outermost query begins with its own first word. -/
theorem subquery_compiles_as_alone (d : Dialect) (q : Query) :
    (∀ (a : Part) (p : Progress),
      (∀ e, a.fault? = some e → a.emit d p = (p, some e)) ∧
      (a.fault? = none → a.emit d p = a.around (emitPieces d a.layout) p)) ∧
    (∀ whole, q.compile d = .ok whole → ∀ a, (∃ p, Visits d q a p) ↔ a ∈ q.parts) ∧
    (∀ (s : Query) (p : Progress), Visits d q (.node (.query s)) p →
      (∀ e, ((Node.query s).emit d p).2 = some e ↔ s.compile d = .error e) ∧
      (((Node.query s).emit d p).2 = none → ∃ t, s.compile (d.shift p.bindings.size) = .ok t ∧
        ((Node.query s).emit d p).1 = { p with
          sql := p.sql ++ ("(" ++ t.sql ++ ")")
          bindings := p.bindings ++ t.bindings.toArray }) ∧
      (∀ e, s.compile d = .error e → q.compile d = .error e) ∧
      (∀ whole, q.compile d = .ok whole → ∃ t after values,
        s.compile (d.shift p.bindings.size) = .ok t ∧
        whole.sql = p.sql ++ ("(" ++ t.sql ++ ")") ++ after ∧
        whole.bindings = p.bindings.toList ++ t.bindings ++ values)) ∧
    (∀ (settings : Settings) (k : Nat), settings.dialect.shift k =
      Settings.dialect { settings with placeholderBase := settings.placeholderBase + k }) ∧
    (∀ t, q.compile d = .ok t →
      ∃ rest, t.sql = (if q.select.isSome then "select " else "from ") ++ rest) := by
  refine ⟨fun a p => ⟨fun e h => ?_, fun h => ?_⟩, fun _ h _ => exists_visits_iff h,
    fun s p hVisit => ?_, Settings.dialect_shift, fun t ht => ?_⟩
  · rw [Part.emit_of_fault d h]
    rfl
  · rw [Part.emit_of_fault_none d h]
  · obtain ⟨hOutcome, hWritten⟩ := emit_subquery hVisit
    refine ⟨hOutcome, hWritten, fun e he => hVisit.compile_eq_error ((hOutcome e).mpr he),
      fun whole hWhole => ?_⟩
    obtain ⟨hNone, after, values, hSql, hBindings⟩ := hVisit.compile_eq_ok hWhole
    obtain ⟨t, ht, hEnd⟩ := hWritten hNone
    have hPart : ((Part.node (.query s)).emit d p).1 = _ := hEnd
    rw [hPart] at hSql hBindings
    refine ⟨t, after, values, ht, hSql, ?_⟩
    rw [hBindings, Array.toList_append]
  · obtain ⟨-, rfl⟩ := compile_eq_ok_iff.mp ht
    obtain ⟨rest, hRest⟩ := q.exists_tokens_eq
    exact ⟨Token.render d 0 rest, by rw [Statement.ofTokens, hRest]; rfl⟩

/-- The prices above ten. -/
def highPrices : Query where
  sources := [.table none "prices"]
  condition := some (.binaryFilter (.identifier "price") ">" (.value (.int 10)))

/-- The prices above ten under another name, after a bound column. -/
def namedPrices : Query where
  select := some { selections := [.value (.int 1), .selectAll] }
  sources := [.aliased (.query highPrices) "p"]

theorem subquery_compiles_as_alone_namedPrices :
    let source : Part := .node (.aliased (.query highPrices) "p")
    let p : Progress := { sql := "select $0, * from ", bindings := #[.int 1], depth := 1 }
    let whole : Statement := {
      sql := "select $0, * from (from \"prices\" where \"price\" > $1) as \"p\""
      bindings := [.int 1, .int 10] }
    namedPrices.compile .standard = .ok whole ∧
    Visits .standard namedPrices source p ∧ source.fault? = none ∧
    source.emit .standard p = source.around (emitPieces .standard source.layout) p ∧
    Visits .standard namedPrices (.node (.query highPrices)) p ∧
    .node (.query highPrices) ∈ namedPrices.parts ∧
    ((Node.query highPrices).emit .standard p).2 = none ∧
    (∃ t, highPrices.compile (Dialect.standard.shift 1) = .ok t ∧
      ((Node.query highPrices).emit .standard p).1 = { p with
        sql := p.sql ++ ("(" ++ t.sql ++ ")")
        bindings := p.bindings ++ t.bindings.toArray }) ∧
    (∃ t after values, highPrices.compile (Dialect.standard.shift 1) = .ok t ∧
      whole.sql = p.sql ++ ("(" ++ t.sql ++ ")") ++ after ∧
      whole.bindings = p.bindings.toList ++ t.bindings ++ values) := by
  intro source p whole
  have hWhole : namedPrices.compile .standard = .ok whole := by cbv
  have hRoot : (Part.query namedPrices).layout =
      [.part (.select { selections := [.value (.int 1), .selectAll] }), text " ", text "from "] ++
        .part source :: [] := rfl
  have hRan : emitPieces .standard
      [.part (.select { selections := [.value (.int 1), .selectAll] }), text " ", text "from "]
      ((Part.query namedPrices).enter {}) = (p, none) := by cbv
  have hAlias : Visits .standard namedPrices source p := .child .root rfl hRoot hRan
  have hVisit : Visits .standard namedPrices (.node (.query highPrices)) p :=
    .child hAlias rfl (List.nil_append _).symm rfl
  have hEmit : (Node.query highPrices).emit .standard p =
      ({ sql := "select $0, * from (from \"prices\" where \"price\" > $1)"
         bindings := #[.int 1, .int 10]
         depth := 1 }, none) := by cbv
  have hNone : ((Node.query highPrices).emit .standard p).2 = none := congrArg Prod.snd hEmit
  obtain ⟨hRuns, hParts, hAlone, -⟩ := subquery_compiles_as_alone .standard namedPrices
  obtain ⟨-, hWritten, -, hPlaced⟩ := hAlone highPrices p hVisit
  exact ⟨hWhole, hAlias, rfl, (hRuns source p).2 rfl, hVisit,
    (hParts whole hWhole _).mp ⟨p, hVisit⟩, hNone, hWritten hNone, hPlaced whole hWhole⟩

end Query

end QueryTree
