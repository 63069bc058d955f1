import QueryTree.Tree.Same
import QueryTree.Proofs.Rereading

/-! What survives an exchange of trees as documents.  A tree whose scalars are read back by
themselves is read back as a tree that is the same (`trees_read_back`); and whatever the scalars,
the tree that is read back has the same statements, written the same
(`Query.exchange_keeps_statements`). -/

namespace QueryTree

/-! ### Sameness -/

section Same

variable {f : Scalar → Scalar}

/-- The part is the same when `f` is applied to its scalars. -/
def Part.SameAfter (f : Scalar → Scalar) : Part → Prop
  | .node n => (n.relabel ⟨id, f⟩).same n = true
  | .select s => (s.relabel ⟨id, f⟩).same s = true
  | .query q => (q.relabel ⟨id, f⟩).same q = true
  | .join j => (j.relabel ⟨id, f⟩).same j = true
  | .raw r => (r.relabel ⟨id, f⟩).same r = true
  | .scalar v => (f v).same v = true

theorem sameNodes_relabelNodes : {ns : List Node} → (∀ n ∈ ns, (n.relabel ⟨id, f⟩).same n = true) →
    sameNodes (relabelNodes ⟨id, f⟩ ns) ns = true
  | [], _ => rfl
  | n :: ns, h => by
    have hRest := sameNodes_relabelNodes fun m hm => h m (List.mem_cons_of_mem n hm)
    rw [relabelNodes, sameNodes, h n List.mem_cons_self, hRest]
    rfl

theorem sameJoins_relabelJoins : {js : List Join} → (∀ j ∈ js, (j.relabel ⟨id, f⟩).same j = true) →
    sameJoins (relabelJoins ⟨id, f⟩ js) js = true
  | [], _ => rfl
  | j :: js, h => by
    have hRest := sameJoins_relabelJoins fun k hk => h k (List.mem_cons_of_mem j hk)
    rw [relabelJoins, sameJoins, h j List.mem_cons_self, hRest]
    rfl

theorem sameScalars_map : {vs : List Scalar} → (∀ v ∈ vs, (f v).same v = true) →
    sameScalars (vs.map f) vs = true
  | [], _ => rfl
  | v :: vs, h => by
    have hRest := sameScalars_map fun w hw => h w (List.mem_cons_of_mem v hw)
    rw [List.map_cons, sameScalars, h v List.mem_cons_self, hRest]
    rfl

theorem sameOption_relabelOption {o : Option Node}
    (h : ∀ n, o = some n → (n.relabel ⟨id, f⟩).same n = true) :
    sameOption (relabelOption ⟨id, f⟩ o) o = true := by
  cases o with
  | none => rfl
  | some n => exact h n rfl

theorem sameSelect_relabelSelect {o : Option Select}
    (h : ∀ s, o = some s → (s.relabel ⟨id, f⟩).same s = true) :
    sameSelect (relabelSelect ⟨id, f⟩ o) o = true := by
  cases o with
  | none => rfl
  | some s => exact h s rfl

theorem Node.sameAfter {n : Node} (h : ∀ b, .part b ∈ n.layout → b.SameAfter f) :
    (n.relabel ⟨id, f⟩).same n = true := by
  have hNode : ∀ m, Piece.node m ∈ n.layout → (m.relabel ⟨id, f⟩).same m = true :=
    fun m => h (.node m)
  cases n with
  | identifier | selectAll | operator | table => simp [relabel, same]
  | selection | parens | aliased | reference | and | or =>
    simp_all [relabel, same, layout]
  | select s => exact h (.select s) (by simp [layout])
  | query q => exact h (.query q) (by simp [layout])
  | join j => exact h (.join j) (by simp [layout])
  | raw r => exact h (.raw r) (by simp [layout])
  | value v => exact h (.scalar v) (by simp [layout])
  | filter l o r =>
    have hLeft : sameOption (relabelOption ⟨id, f⟩ l) l = true := sameOption_relabelOption <| by
      rintro m rfl
      exact hNode m (by simp [layout])
    have hOperator := hNode o (by cases l <;> simp [layout])
    have hRight := hNode r (by cases l <;> simp [layout])
    rw [relabel, same, hLeft, hOperator, hRight]
    rfl
  | valueList ns =>
    exact sameNodes_relabelNodes fun m hm => hNode m (by simp [layout, hm])
  | scalarList vs =>
    exact sameScalars_map fun v hv => h (.scalar v) (by simp [layout, hv])

/-- A part is the same if the parts directly below it are. -/
theorem Part.sameAfter_step {a : Part} (hScalar : a.scalar? = none)
    (h : ∀ b, .part b ∈ a.layout → b.SameAfter f) : a.SameAfter f := by
  cases a with
  | scalar v => cases hScalar
  | node n => exact n.sameAfter h
  | select s =>
    obtain ⟨hDistinctOn, hSelections⟩ := Select.forall_layout.mp h
    obtain ⟨ns, os, d⟩ := s
    simp only [SameAfter, Select.relabel, Select.same]
    rw [sameNodes_relabelNodes hSelections, sameNodes_relabelNodes hDistinctOn, beq_self_eq_true]
    rfl
  | query q =>
    obtain ⟨hSelect, hSources, hJoins, hCondition⟩ := Query.forall_layout.mp h
    obtain ⟨s, ns, js, c, l⟩ := q
    simp only [SameAfter, Query.relabel, Query.same]
    rw [sameSelect_relabelSelect hSelect, sameNodes_relabelNodes hSources,
      sameJoins_relabelJoins hJoins, sameOption_relabelOption hCondition, beq_self_eq_true]
    rfl
  | join j =>
    obtain ⟨hTable, hCondition⟩ := Join.forall_layout.mp h
    obtain ⟨k, t, c⟩ := j
    simp only [SameAfter, Join.relabel, Join.same]
    rw [beq_self_eq_true, hTable, sameOption_relabelOption hCondition]
    rfl
  | raw r =>
    obtain ⟨fs, ps⟩ := r
    simp only [SameAfter, Raw.relabel, Raw.same]
    rw [beq_self_eq_true,
      sameNodes_relabelNodes fun n hn =>
        h (.node n) (Raw.part_mem_layout.mpr ⟨n, hn, rfl⟩)]
    rfl

theorem Part.sameAfter {a : Part} (h : ∀ v ∈ a.leaves, (f v).same v = true) : a.SameAfter f :=
  of_leaves (fun _ => sameAfter_step) h

end Same

/-! ### Trees -/

theorem Mode.start_within {α : Type} {depth : Nat} {a : α} {r : Decoded α}
    (h : r = Mode.start.within depth a) :
    (depth ≤ 127 → r = .ok a) ∧ (127 < depth → r = .error (.refused .malformed)) := by
  rw [h, Mode.start, Mode.within, nestingLimit]
  exact ⟨fun hDepth => if_pos hDepth, fun hDepth => if_neg (Nat.not_le.mpr hDepth)⟩

/-- What a scalar is after it was written and read again, or the scalar itself if it cannot be
read. -/
def Scalar.returned (v : Scalar) : Scalar :=
  match v.reread with
  | .ok w => w
  | .error _ => v

theorem Scalar.returned_eq {v w : Scalar} (h : v.reread = .ok w) : v.returned = w := by
  rw [returned, h]

/-- The scalar is read back by itself as one that is the same. -/
def Scalar.ReadsBack (v : Scalar) : Prop := ∃ w, v.reread = .ok w ∧ w.same v = true

instance (v : Scalar) : Decidable v.ReadsBack :=
  match h : v.reread with
  | .ok w => decidable_of_iff (w.same v = true) (by simp [Scalar.ReadsBack, h])
  | .error _ => isFalse (by simp [Scalar.ReadsBack, h])

theorem Scalar.ReadsBack.returned {v : Scalar} (h : v.ReadsBack) :
    v.reread = .ok v.returned ∧ v.returned.same v = true := by
  obtain ⟨w, hw, hSame⟩ := h
  rw [returned_eq hw]
  exact ⟨hw, hSame⟩

/-- A tree that is read back with other scalars is read back the same if its scalars are. -/
theorem returns_of_leaves {α : Type} {reread : Decoded α} {depth : Nat} {tree : α}
    {leaves : List Scalar} {same : α → α → Bool} {image : (Scalar → Scalar) → α}
    (hReread : ∀ f, (∀ v ∈ leaves, v.reread = .ok (f v)) →
      reread = Mode.start.within depth (image f))
    (hSame : ∀ f, (∀ v ∈ leaves, (f v).same v = true) → same (image f) tree = true)
    (hId : image id = tree) (h : ∀ v ∈ leaves, v.ReadsBack) :
    (depth ≤ 127 → ∃ tree', reread = .ok tree' ∧ same tree' tree = true ∧
      ((∀ v ∈ leaves, v.reread = .ok v) → tree' = tree)) ∧
    (127 < depth → reread = .error (.refused .malformed)) := by
  have hLeaves := fun v hv => (h v hv).returned
  obtain ⟨hOk, hDeep⟩ := Mode.start_within (hReread _ fun v hv => (hLeaves v hv).1)
  refine ⟨fun hDepth => ⟨_, hOk hDepth, hSame _ fun v hv => (hLeaves v hv).2, ?_⟩, hDeep⟩
  intro hExact
  have hTree := (Mode.start_within (hReread id hExact)).1 hDepth
  rw [hOk hDepth, hId] at hTree
  exact Except.ok.inj hTree

/-- Reading undoes writing.  If each scalar of a query or node is read back by itself as one that is
the same, then the query or node is read back as one that is the same, provided that its document
nests at most 127 levels deep; a document that nests deeper is refused. -/
theorem trees_read_back :
    (∀ q : Query, (∀ v ∈ q.leaves, v.ReadsBack) →
      (q.toJson.nesting ≤ 127 → ∃ q', q.reread = .ok q' ∧ q'.same q = true ∧
        ((∀ v ∈ q.leaves, v.reread = .ok v) → q' = q)) ∧
      (127 < q.toJson.nesting → q.reread = .error (.refused .malformed))) ∧
    (∀ n : Node, (∀ v ∈ n.leaves, v.ReadsBack) →
      (n.toJson.nesting ≤ 127 → ∃ n', n.reread = .ok n' ∧ n'.same n = true ∧
        ((∀ v ∈ n.leaves, v.reread = .ok v) → n' = n)) ∧
      (127 < n.toJson.nesting → n.reread = .error (.refused .malformed))) := by
  constructor
  · intro q h
    exact returns_of_leaves (fun _ => Query.reread_eq) (fun _ => Part.sameAfter (a := .query q))
      q.relabel_id h
  · intro n h
    exact returns_of_leaves (fun _ => Node.reread_eq) (fun _ => Part.sameAfter (a := .node n))
      n.relabel_id h

/-- The orders of some customers on a day, with every sort of scalar that is read back. -/
def datedOrders : Query where
  select := some { selections := [.selectAll], distinctOn := [.column "o" "id"], distinct := true }
  sources := [.aliased (.table (some "shop") "orders") "o"]
  joins := [{ kind := .left, table := .query { sources := [.table none "customers"] } }]
  condition := some (.and
    (.raw ⟨["day = ", " and total > ", ""], [.value (.date "2024-02-29"), .value (.float 19.99)]⟩)
    (.binaryFilter (.column "o" "customer") "in"
      (.scalarList [.int (-7), .uint 0x8000000000000000, .bytes [0, 255], .string "\"", .null])))
  lock := some .skipLocked

/-- A value within parentheses, many of them. -/
def parenthesized : Nat → Node
  | 0 => .value (.bool true)
  | k + 1 => .parens (parenthesized k)

theorem leaves_parenthesized (k : Nat) : (parenthesized k).leaves = [.bool true] := by
  induction k with
  | zero =>
    simp [parenthesized, Node.leaves, Part.leaves, Part.parts_eq, Part.children, Part.layout,
      Node.layout, Piece.part?, Part.scalar?, List.filterMap_cons]
  | succ k ih =>
    rw [← ih]
    simp [parenthesized, Node.leaves, Part.leaves, Part.parts_eq, Part.children, Part.layout,
      Node.layout, Piece.part?, Part.scalar?, List.filterMap_cons]

theorem trees_read_back_datedOrders :
    ((∀ v ∈ datedOrders.leaves, v.ReadsBack) ∧
      datedOrders.toJson.nesting ≤ 127 ∧
      ∃ q', datedOrders.reread = .ok q' ∧ q'.same datedOrders = true) ∧
    ((∀ v ∈ (parenthesized 127).leaves, v.ReadsBack) ∧
      127 < (parenthesized 127).toJson.nesting ∧
      (parenthesized 127).reread = .error (.refused .malformed)) := by
  have hLeaves : datedOrders.leaves = [.date "2024-02-29", .float 19.99, .int (-7),
      .uint 0x8000000000000000, .bytes [0, 255], .string "\"", .null] := by
    simp [datedOrders, Query.leaves, Part.leaves, Part.parts_eq, Part.children, Part.layout,
      Query.layout, Select.layout, Join.layout, Node.layout, Piece.part?, Piece.listed,
      Piece.clause, Piece.alternating, Part.scalar?, Node.binaryFilter, Node.column,
      List.filterMap_cons]
  have hOrders : ∀ v ∈ datedOrders.leaves, v.ReadsBack := by
    rw [hLeaves]
    decide +kernel
  have hDeep : ∀ v ∈ (parenthesized 127).leaves, v.ReadsBack := by
    rw [leaves_parenthesized]
    decide +kernel
  have hDepth : datedOrders.toJson.nesting ≤ 127 := by decide +kernel
  have hTooDeep : 127 < (parenthesized 127).toJson.nesting := by decide +kernel
  obtain ⟨q', hq', hSame, -⟩ := (trees_read_back.1 datedOrders hOrders).1 hDepth
  exact ⟨⟨hOrders, hDepth, q', hq', hSame⟩, hDeep, hTooDeep,
    (trees_read_back.2 _ hDeep).2 hTooDeep⟩

/-! ### Statements -/

namespace Json

theorem compactItems_congr {α : Type} {g h : α → Json} : {xs : List α} →
    (∀ x ∈ xs, (g x).compact = (h x).compact) → compactItems (xs.map g) = compactItems (xs.map h)
  | [], _ => rfl
  | [x], hx => hx x List.mem_cons_self
  | x :: y :: xs, hx => by
    have hFirst := hx x List.mem_cons_self
    have hRest := compactItems_congr fun z hz => hx z (List.mem_cons_of_mem x hz)
    show (g x).compact ++ "," ++ compactItems ((y :: xs).map g) =
      (h x).compact ++ "," ++ compactItems ((y :: xs).map h)
    rw [hFirst, hRest]

end Json

/-- Statements are written the same if their bindings are. -/
theorem Statement.compact_mapBindings {f : Scalar → Scalar} {s : Statement}
    (h : ∀ v ∈ s.bindings, (f v).toJson.compact = v.toJson.compact) :
    (s.mapBindings f).toJson.compact = s.toJson.compact := by
  have hItems : Json.compactItems ((s.bindings.map f).map Scalar.toJson) =
      Json.compactItems (s.bindings.map Scalar.toJson) := by
    rw [List.map_map]
    exact Json.compactItems_congr h
  simp only [toJson, mapBindings, Json.compact, Json.compactMembers, hItems]

/-- An exchange as a document leaves the statements of a query as they are.  The query is read back,
and in every dialect both queries fail with the same error or have statements of one text, with
bindings that are written the same; so the statements are written the same. -/
theorem Query.exchange_keeps_statements (q : Query) (hDepth : q.toJson.nesting ≤ 127)
    (hFloats : ∀ x, .float x ∈ q.leaves → x.isFinite = true → (Number.real x).ReadsBack) :
    ∃ q', q.reread = .ok q' ∧ ∀ d : Dialect,
      (∃ e, q.compile d = .error e ∧ q'.compile d = .error e) ∨
      ∃ s s', q.compile d = .ok s ∧ q'.compile d = .ok s' ∧ s'.sql = s.sql ∧
        s'.bindings.length = s.bindings.length ∧
        s'.bindings.map (·.toJson.compact) = s.bindings.map (·.toJson.compact) ∧
        s'.toJson.compact = s.toJson.compact := by
  have hLeaves : ∀ v ∈ q.leaves, v.reread = .ok v.returned ∧
      v.returned.toJson.compact = v.toJson.compact := by
    intro v hv
    obtain ⟨w, hw, hSame⟩ := Scalar.exists_reread (v := v) (by rintro x rfl; exact hFloats x hv)
    rw [Scalar.returned_eq hw]
    exact ⟨hw, hSame⟩
  have hReread := Query.reread_eq fun v hv => (hLeaves v hv).1
  refine ⟨_, (Mode.start_within hReread).1 hDepth, fun d => ?_⟩
  rw [compile_relabel]
  cases hFault : q.firstFault? with
  | some e =>
    rw [compile_of_fault d hFault]
    exact .inl ⟨e, rfl, rfl⟩
  | none =>
    have hBindings : ∀ v ∈ (Statement.ofTokens d q.tokens).bindings,
        v.returned.toJson.compact = v.toJson.compact := by
      intro v hv
      exact (hLeaves v (q.leaves_eq ▸ hv)).2
    rw [compile_of_fault_none d hFault]
    refine .inr ⟨_, _, rfl, rfl, rfl, List.length_map _, ?_, ?_⟩
    · rw [Statement.mapBindings, List.map_map]
      exact List.map_congr_left hBindings
    · exact Statement.compact_mapBindings hBindings

/-- Orders with scalars that come back as others: doubles that are no numbers, a text that is a day,
and a small unsigned integer. -/
def changedOrders : Query where
  sources := [.table none "orders"]
  condition := some (.binaryFilter (.column "orders" "total") "in"
    (.scalarList [.float 19.99, .float (0 / 0), .float (1 / 0), .string "2024-02-29", .uint 7]))

theorem Query.exchange_keeps_statements_changedOrders :
    changedOrders.toJson.nesting ≤ 127 ∧
    (∀ x, .float x ∈ changedOrders.leaves → x.isFinite = true → (Number.real x).ReadsBack) ∧
    ∃ q', changedOrders.reread = .ok q' ∧
      ∃ s s', changedOrders.compile .standard = .ok s ∧ q'.compile .standard = .ok s' ∧
        s'.sql = s.sql ∧ s'.bindings.length = s.bindings.length ∧
        s'.bindings.map (·.toJson.compact) = s.bindings.map (·.toJson.compact) ∧
        s'.toJson.compact = s.toJson.compact := by
  have hDepth : changedOrders.toJson.nesting ≤ 127 := by decide +kernel
  have hFloats : ∀ x, .float x ∈ changedOrders.leaves → x.isFinite = true →
      (Number.real x).ReadsBack := by
    have hLeaves : changedOrders.leaves =
        [.float 19.99, .float (0 / 0), .float (1 / 0), .string "2024-02-29", .uint 7] := by
      simp [changedOrders, Query.leaves, Part.leaves, Part.parts_eq, Part.children, Part.layout,
        Query.layout, Node.layout, Piece.part?, Piece.listed, Piece.clause, Part.scalar?,
        Node.binaryFilter, Node.column, List.filterMap_cons]
    intro x hx hFinite
    rw [hLeaves] at hx
    simp only [List.mem_cons, Scalar.float.injEq, reduceCtorEq, List.not_mem_nil, or_false] at hx
    rcases hx with rfl | rfl | rfl
    · decide +kernel
    · exact absurd hFinite (by decide +kernel)
    · exact absurd hFinite (by decide +kernel)
  have hOk : (changedOrders.compile .standard).isOk = true := by decide +kernel
  obtain ⟨q', hq', hStatements⟩ := exchange_keeps_statements changedOrders hDepth hFloats
  refine ⟨hDepth, hFloats, q', hq', ?_⟩
  rcases hStatements .standard with ⟨e, he, -⟩ | hSame
  · rw [he] at hOk
    cases hOk
  · exact hSame

end QueryTree
