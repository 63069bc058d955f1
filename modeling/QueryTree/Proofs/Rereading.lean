import QueryTree.Tree.Decode
import QueryTree.Tree.Encode
import QueryTree.Proofs.Json.Scalars
import QueryTree.Proofs.Scalars

/-! Trees read back from their own documents.  Every kind of node, select list, query, join and raw
text is read back from the members that are written for it, given that the parts directly below it
are; so a tree comes back as it was, with each scalar replaced by what that scalar becomes when it
is read back. -/

namespace QueryTree

/-! ### Fields -/

namespace Layout.Writes

variable {α β γ σ : Type} {levels : Nat} {name : String} {r : Reader α} {rest : Layout β σ}
  {ms : List (String × Json)} {b : β} {write : γ → Json} {value : γ → α}

theorem optional {o : Option γ} (h : ∀ x, o = some x → Decodes levels r (write x) (value x))
    (hWrite : ∀ x, (∃ ms, write x = .object ms) ∨ ∃ s, write x = .string s)
    (more : Writes levels rest ms b) :
    Writes levels (.field (optional name r) rest) (memberJson? name (o.map write) ++ ms)
      (o.map value, b) := by
  cases o with
  | none => exact .absent rfl more
  | some x => exact .present ((h x rfl).option (hWrite x)) more

theorem defaulted {xs : List γ} (h : ∀ x ∈ xs, Decodes levels r (write x) (value x))
    (more : Writes levels rest ms b) :
    Writes levels (.field (defaulted name r) rest) (membersJson? name (xs.map write) ++ ms)
      (xs.map value, b) := by
  cases xs with
  | nil => exact .absent rfl more
  | cons x xs => exact .present (Decodes.list h) more

end Layout.Writes

section Records

variable {α β : Type} {levels : Nat}

theorem decodesRecord_one {name : String} {r : Reader α} {j : Json} {a : α}
    (h : Decodes levels r j a) (hName : "kind" ≠ name) :
    DecodesRecord levels (readOne (required name r)) [(name, j)] a :=
  Layout.Writes.record (.present h .done) (by simp [Layout.names, required, hName]) rfl

theorem decodesRecord_two {f : Field α} {g : Field β} {ms : List (String × Json)} {a : α} {b : β}
    (h : (Layout.field f (.field g .done)).Writes levels ms (a, b, ()))
    (hNames : ["kind", f.name, g.name].Nodup) : DecodesRecord levels (readTwo f g) ms (a, b) :=
  Layout.Writes.record h hNames rfl

theorem decodes_name (levels : Nat) (name : String) :
    Decodes levels readName (nameJson name) name :=
  (decodesRecord_one (.text levels name) (by decide)).alone

end Records

/-! ### Nodes -/

theorem named_kind (kind : Kind) : Reader.named Kind.all Kind.name kind.name = .ok kind := by
  cases kind <;> rfl

/-- Past the kind, all members are kept. -/
theorem findKind_members (mode : Mode) (kind : Kind) : (ms : List (String × Json)) →
    Json.LegibleMembers ms → "kind" ∉ ms.map Prod.fst →
    findKind mode (Json.draftMembers ms) (some kind) =
      mode.within (Json.nestingMembers ms) (some kind)
  | [], _, _ => (mode.within_zero _).symm
  | (name, j) :: ms, hLegible, hFresh => by
    have hName : (name == "kind") = false :=
      beq_eq_false_iff_ne.mpr fun h => hFresh (List.mem_cons.mpr (.inl h.symm))
    have hMore := findKind_members mode kind ms hLegible.2
      fun h => hFresh (List.mem_cons_of_mem _ h)
    simp only [Json.draftMembers, findKind, hName, Json.nestingMembers,
      mode.keep_draft hLegible.1]
    exact mode.within_bind hMore

/-- A node is read back if its content is. -/
theorem Node.decodes_tagged {kind : Kind} {ms : List (String × Json)} {n : Node}
    (h : ∀ levels,
      DecodesContent levels (fun _ d => kind.readContent (Node.readWithin levels) d) ms n)
    (levels : Nat) : Decodes levels (Node.readWithin levels) (tagged kind ms) n where
  legible := ⟨trivial, (h 0).legible⟩
  read mode hMeets := by
    have hNesting : (tagged kind ms).nesting = Json.nestingMembers ms + 1 := by
      rw [tagged, Json.nesting, Json.nestingMembers, Json.nesting, Nat.zero_max]
    rw [hNesting] at hMeets ⊢
    -- Without a level left a node is refused, and then there is no room for one either.
    cases levels with
    | zero => exact (hMeets.within (Nat.not_succ_le_zero _) n).symm
    | succ levels =>
      refine mode.enter_bind fun inner hInner => ?_
      have hFind : findKind inner
          ((some "kind", .string kind.name) :: Json.draftMembers ms) none =
          inner.within (Json.nestingMembers ms) (some kind) := by
        rw [findKind, if_pos (beq_self_eq_true _)]
        show Reader.named Kind.all Kind.name kind.name >>= _ = _
        rw [named_kind]
        exact findKind_members inner kind ms (h 0).legible (h 0).fresh
      show findKind inner ((some "kind", .string kind.name) :: Json.draftMembers ms) none >>= _ = _
      rw [hFind]
      -- The members are kept before the content is decoded, so a content that is too deep for the
      -- levels below was refused already.
      refine (hMeets.enter hInner (Nat.le_refl _)).within_bind_ok fun hDepth => ?_
      exact (h levels).read hDepth _

/-! ### Parts -/

theorem nodesJson_eq_map (ns : List Node) : nodesJson ns = ns.map Node.toJson := by
  induction ns with
  | nil => rfl
  | cons n ns ih => rw [nodesJson, ih, List.map_cons]

theorem joinsJson_eq_map (js : List Join) : joinsJson js = js.map fun j => .object j.members := by
  induction js with
  | nil => rfl
  | cons j js ih => rw [joinsJson, ih, List.map_cons]

theorem Select.members_eq (s : Select) : s.members =
    ("selections", .array (s.selections.map Node.toJson)) ::
      (membersJson? "distinct_on_selections" (s.distinctOn.map Node.toJson) ++
        memberJson? "modifier"
          ((if s.distinct then some () else none).map fun _ => .string "Distinct")) := by
  obtain ⟨ns, os, d⟩ := s
  rw [members, nodesJson_eq_map, nodesJson_eq_map]
  cases d <;> rfl

theorem Join.members_eq (j : Join) : j.members =
    ("join_type", .string j.kind.name) :: ("table", j.table.toJson) ::
      memberJson? "on" (j.condition.map Node.toJson) := by
  obtain ⟨k, t, c⟩ := j
  cases c <;> rfl

theorem Query.members_eq (q : Query) : q.members =
    memberJson? "select" (q.select.map fun s => .object s.members) ++
      ("from", .array (q.sources.map Node.toJson)) ::
        (membersJson? "joins" (q.joins.map fun j => .object j.members) ++
          (memberJson? "where" (q.condition.map Node.toJson) ++
            memberJson? "modifier" (q.lock.map fun l => .string l.name))) := by
  obtain ⟨s, ns, js, c, l⟩ := q
  cases s <;> cases c <;> simp [members, nodesJson_eq_map, joinsJson_eq_map]

theorem Raw.members_eq (r : Raw) : r.members =
    [("sql_fragments", .array (r.fragments.map .string)),
      ("params", .array (r.params.map Node.toJson))] := by
  obtain ⟨fs, ps⟩ := r
  rw [members, nodesJson_eq_map]

theorem Node.toJson_object (n : Node) : ∃ ms, n.toJson = .object ms := by
  cases n with
  | filter l => cases l <;> exact ⟨_, rfl⟩
  | _ => exact ⟨_, rfl⟩

/-- The part is read back from what is written for it, with `f` applied to its scalars. -/
def Part.Decodes (f : Scalar → Scalar) : Part → Prop
  | .node n => ∀ levels,
    QueryTree.Decodes levels (Node.readWithin levels) n.toJson (n.relabel ⟨id, f⟩)
  | .select s => ∀ levels,
    DecodesRecord levels (Select.readWith (Node.readWithin levels)) s.members (s.relabel ⟨id, f⟩)
  | .query q => ∀ levels,
    DecodesRecord levels (Query.readWith (Node.readWithin levels)) q.members (q.relabel ⟨id, f⟩)
  | .join j => ∀ levels,
    DecodesRecord levels (Join.readWith (Node.readWithin levels)) j.members (j.relabel ⟨id, f⟩)
  | .raw r => ∀ levels,
    DecodesRecord levels (Raw.readWith (Node.readWithin levels)) r.members (r.relabel ⟨id, f⟩)
  | .scalar v => ∀ levels, QueryTree.Decodes levels Scalar.read v.toJson (f v)

section Steps

variable {f : Scalar → Scalar} {levels : Nat} {node : Reader Node}

theorem Select.decodes {s : Select}
    (hSelections : ∀ n ∈ s.selections, Decodes levels node n.toJson (n.relabel ⟨id, f⟩))
    (hDistinctOn : ∀ n ∈ s.distinctOn, Decodes levels node n.toJson (n.relabel ⟨id, f⟩)) :
    DecodesRecord levels (Select.readWith node) s.members (s.relabel ⟨id, f⟩) := by
  obtain ⟨ns, os, d⟩ := s
  have hMembers : Select.members ⟨ns, os, d⟩ =
      ("selections", .array (ns.map Node.toJson)) ::
        (membersJson? "distinct_on_selections" (os.map Node.toJson) ++
          (memberJson? "modifier" ((if d then some () else none).map fun _ => .string "Distinct") ++
            [])) := by
    rw [members_eq, List.append_nil]
  have hDistinct : ∀ u, (if d then some () else none) = some u →
      Decodes levels readDistinct (.string "Distinct") u :=
    fun _ _ => Decodes.choice levels rfl
  rw [hMembers]
  refine Layout.Writes.record (.present (Decodes.list hSelections)
    (.defaulted hDistinctOn (.optional hDistinct (fun _ => .inr ⟨_, rfl⟩) .done)))
    (by decide : ["kind", "selections", "distinct_on_selections", "modifier"].Nodup) ?_
  rw [relabel, relabelNodes_eq_map, relabelNodes_eq_map]
  cases d <;> rfl

theorem Join.decodes {j : Join}
    (hTable : Decodes levels node j.table.toJson (j.table.relabel ⟨id, f⟩))
    (hCondition : ∀ n, j.condition = some n → Decodes levels node n.toJson (n.relabel ⟨id, f⟩)) :
    DecodesRecord levels (Join.readWith node) j.members (j.relabel ⟨id, f⟩) := by
  obtain ⟨k, t, c⟩ := j
  have hMembers : Join.members ⟨k, t, c⟩ =
      ("join_type", .string k.name) :: ("table", t.toJson) ::
        (memberJson? "on" (c.map Node.toJson) ++ []) := by
    rw [members_eq, List.append_nil]
  have hKind : Decodes levels JoinKind.read (.string k.name) k :=
    Decodes.choice levels (by cases k <;> rfl)
  rw [hMembers]
  refine Layout.Writes.record (.present hKind (.present hTable
    (.optional hCondition (fun n => .inl n.toJson_object) .done)))
    (by decide : ["kind", "join_type", "table", "on"].Nodup) ?_
  rw [relabel, relabelOption_eq_map]

theorem Query.decodes {q : Query}
    (hSelect : ∀ s, q.select = some s →
      DecodesRecord levels (Select.readWith node) s.members (s.relabel ⟨id, f⟩))
    (hSources : ∀ n ∈ q.sources, Decodes levels node n.toJson (n.relabel ⟨id, f⟩))
    (hJoins : ∀ j ∈ q.joins,
      DecodesRecord levels (Join.readWith node) j.members (j.relabel ⟨id, f⟩))
    (hCondition : ∀ n, q.condition = some n → Decodes levels node n.toJson (n.relabel ⟨id, f⟩)) :
    DecodesRecord levels (Query.readWith node) q.members (q.relabel ⟨id, f⟩) := by
  obtain ⟨s, ns, js, c, l⟩ := q
  have hMembers : Query.members ⟨s, ns, js, c, l⟩ =
      memberJson? "select" (s.map fun s => .object s.members) ++
        ("from", .array (ns.map Node.toJson)) ::
          (membersJson? "joins" (js.map fun j => .object j.members) ++
            (memberJson? "where" (c.map Node.toJson) ++
              (memberJson? "modifier" (l.map fun l => .string l.name) ++ []))) := by
    rw [members_eq, List.append_nil]
  have hLock : ∀ m, l = some m → Decodes levels Lock.read (.string m.name) m :=
    fun m _ => Decodes.choice levels (by cases m <;> rfl)
  rw [hMembers]
  refine Layout.Writes.record (.optional (fun s hs => (hSelect s hs).alone) (fun _ => .inl ⟨_, rfl⟩)
    (.present (Decodes.list hSources) (.defaulted (fun j hj => (hJoins j hj).alone)
      (.optional hCondition (fun n => .inl n.toJson_object)
        (.optional hLock (fun _ => .inr ⟨_, rfl⟩) .done)))))
    (by decide : ["kind", "select", "from", "joins", "where", "modifier"].Nodup) ?_
  rw [relabel, relabelSelect_eq_map, relabelNodes_eq_map, relabelJoins_eq_map, relabelOption_eq_map]
  cases l <;> rfl

theorem Raw.decodes {r : Raw}
    (hParams : ∀ n ∈ r.params, Decodes levels node n.toJson (n.relabel ⟨id, f⟩)) :
    DecodesRecord levels (Raw.readWith node) r.members (r.relabel ⟨id, f⟩) := by
  obtain ⟨fs, ps⟩ := r
  have hTexts : Decodes levels Reader.text.list (.array (fs.map .string)) (fs.map id) :=
    Decodes.list fun s _ => .text levels s
  rw [members_eq]
  refine Layout.Writes.record (.present hTexts (.present (Decodes.list hParams) .done))
    (by decide : ["kind", "sql_fragments", "params"].Nodup) ?_
  rw [relabel, relabelNodes_eq_map, List.map_id]

theorem decodesRecord_filter {l : Option Node} {o r : Node}
    (hLeft : ∀ n, l = some n → Decodes levels node n.toJson (n.relabel ⟨id, f⟩))
    (hOperator : Decodes levels node o.toJson (o.relabel ⟨id, f⟩))
    (hRight : Decodes levels node r.toJson (r.relabel ⟨id, f⟩)) :
    DecodesRecord levels (readFilter node)
      (memberJson? "lhs" (l.map Node.toJson) ++ [("op", o.toJson), ("rhs", r.toJson)])
      ((Node.filter l o r).relabel ⟨id, f⟩) := by
  refine Layout.Writes.record (.optional hLeft (fun n => .inl n.toJson_object)
    (.present hOperator (.present hRight .done)))
    (by decide : ["kind", "lhs", "op", "rhs"].Nodup) ?_
  rw [Node.relabel, relabelOption_eq_map]

theorem Node.decodes {n : Node} (h : ∀ b, .part b ∈ n.layout → b.Decodes f) :
    (Part.node n).Decodes f := by
  have hNode : ∀ m, Piece.node m ∈ n.layout → ∀ levels,
      Decodes levels (readWithin levels) m.toJson (m.relabel ⟨id, f⟩) := fun m => h (.node m)
  cases n with
  | identifier s =>
    exact decodes_tagged fun levels =>
      (decodesRecord_one (.text levels s) (by decide)).content.map _
  | operator s =>
    exact decodes_tagged fun levels =>
      (decodesRecord_one (.text levels s) (by decide)).content.map _
  | selectAll => exact decodes_tagged fun _ => ⟨trivial, List.not_mem_nil, fun _ _ => rfl⟩
  | table s t =>
    have hTable : ∀ levels, DecodesRecord levels
        (readTwo (optional "schema" readName) (required "table" readName))
        (memberJson? "schema" (s.map nameJson) ++ [("table", nameJson t)]) (s.map id, t) :=
      fun levels => decodesRecord_two (.optional (fun s _ => decodes_name levels s)
        (fun _ => .inl ⟨_, rfl⟩) (.present (decodes_name levels t) .done)) (by decide)
    exact decodes_tagged fun levels => (hTable levels).content.map _
  | selection m | parens m =>
    have hOne := hNode m (by simp [layout])
    exact decodes_tagged fun levels =>
      (decodesRecord_one (hOne levels) (by decide)).content.map _
  | aliased m s =>
    have hOne := hNode m (by simp [layout])
    exact decodes_tagged fun levels => (decodesRecord_two (.present (hOne levels)
      (.present (decodes_name levels s) .done)) (by simp [required])).content.map _
  | reference l r | and l r | or l r =>
    have hLeft := hNode l (by simp [layout])
    have hRight := hNode r (by simp [layout])
    exact decodes_tagged fun levels => (decodesRecord_two (.present (hLeft levels)
      (.present (hRight levels) .done)) (by simp [required])).content.map _
  | filter l o r =>
    have hOperator := hNode o (by cases l <;> simp [layout])
    have hRight := hNode r (by cases l <;> simp [layout])
    have hLeft : ∀ m, l = some m → ∀ levels,
        Decodes levels (readWithin levels) m.toJson (m.relabel ⟨id, f⟩) := by
      rintro m rfl
      exact hNode m (by simp [layout])
    have hMembers : (Node.filter l o r).toJson = tagged .filter
        (memberJson? "lhs" (l.map toJson) ++ [("op", o.toJson), ("rhs", r.toJson)]) := by
      cases l <;> rfl
    show ∀ levels, Decodes levels _ (Node.filter l o r).toJson _
    rw [hMembers]
    refine decodes_tagged fun levels => ?_
    have hContent := (decodesRecord_filter (fun m hm => hLeft m hm levels) (hOperator levels)
      (hRight levels)).content
    exact ⟨hContent.legible, hContent.fresh, hContent.read⟩
  | select s =>
    exact decodes_tagged fun levels => (h (.select s) (by simp [layout]) levels).content.map _
  | query q =>
    exact decodes_tagged fun levels => (h (.query q) (by simp [layout]) levels).content.map _
  | join j =>
    exact decodes_tagged fun levels => (h (.join j) (by simp [layout]) levels).content.map _
  | raw r =>
    exact decodes_tagged fun levels => (h (.raw r) (by simp [layout]) levels).content.map _
  | value v =>
    have hScalar := h (.scalar v) (by simp [layout])
    exact decodes_tagged fun levels =>
      (decodesRecord_one (hScalar levels) (by decide)).content.map _
  | valueList ns =>
    have hNodes : ∀ m ∈ ns, ∀ levels,
        Decodes levels (readWithin levels) m.toJson (m.relabel ⟨id, f⟩) := by
      intro m hm
      exact hNode m (by simp [layout, hm])
    simp only [Part.Decodes, toJson, relabel, nodesJson_eq_map, relabelNodes_eq_map]
    exact decodes_tagged fun levels => (decodesRecord_one
      (Decodes.list fun m hm => hNodes m hm levels) (by decide)).content.map _
  | scalarList vs =>
    have hScalars : ∀ v ∈ vs, ∀ levels, Decodes levels Scalar.read v.toJson (f v) := by
      intro v hv
      exact h (.scalar v) (by simp [layout, hv])
    exact decodes_tagged fun levels => (decodesRecord_one
      (Decodes.list fun v hv => hScalars v hv levels) (by decide)).content.map _

/-- A part is read back if the parts directly below it are. -/
theorem Part.decodes_step {a : Part} (hScalar : a.scalar? = none)
    (h : ∀ b, .part b ∈ a.layout → b.Decodes f) : a.Decodes f := by
  cases a with
  | scalar v => cases hScalar
  | node n => exact n.decodes h
  | select s =>
    obtain ⟨hDistinctOn, hSelections⟩ := Select.forall_layout.mp h
    exact fun levels => Select.decodes (fun n hn => hSelections n hn levels)
      fun n hn => hDistinctOn n hn levels
  | query q =>
    obtain ⟨hSelect, hSources, hJoins, hCondition⟩ := Query.forall_layout.mp h
    exact fun levels => Query.decodes (fun s hs => hSelect s hs levels)
      (fun n hn => hSources n hn levels) (fun j hj => hJoins j hj levels)
      fun n hn => hCondition n hn levels
  | join j =>
    obtain ⟨hTable, hCondition⟩ := Join.forall_layout.mp h
    exact fun levels => Join.decodes (hTable levels) fun n hn => hCondition n hn levels
  | raw r =>
    exact fun levels =>
      Raw.decodes fun n hn => h (.node n) (Raw.part_mem_layout.mpr ⟨n, hn, rfl⟩) levels

end Steps

/-- A part is read back if each of its scalars is read back by itself. -/
theorem Part.decodes {f : Scalar → Scalar} {a : Part} (h : ∀ v ∈ a.leaves, v.reread = .ok (f v)) :
    a.Decodes f :=
  of_leaves (fun _ => decodes_step) fun v hv levels => Scalar.decodes_of_reread (h v hv) levels

/-- What a query becomes when it is written and read again. -/
def Query.reread (q : Query) : Decoded Query := Query.ofText q.toJson.compact

/-- What a node becomes when it is written and read again. -/
def Node.reread (n : Node) : Decoded Node := Node.read.ofText n.toJson.compact

theorem Query.reread_eq {f : Scalar → Scalar} {q : Query}
    (h : ∀ v ∈ q.leaves, v.reread = .ok (f v)) :
    q.reread = Mode.start.within q.toJson.nesting (q.relabel ⟨id, f⟩) := by
  have hDecodes : (Part.query q).Decodes f := Part.decodes h
  exact (hDecodes nestingLimit).alone.ofText (Nat.le_refl _)

theorem Node.reread_eq {f : Scalar → Scalar} {n : Node}
    (h : ∀ v ∈ n.leaves, v.reread = .ok (f v)) :
    n.reread = Mode.start.within n.toJson.nesting (n.relabel ⟨id, f⟩) := by
  have hDecodes : (Part.node n).Decodes f := Part.decodes h
  exact (hDecodes nestingLimit).ofText (Nat.le_refl _)

end QueryTree
