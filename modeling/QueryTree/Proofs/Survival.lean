import QueryTree.Proofs.Exchange
import QueryTree.Proofs.Json.Settled

/-! Trees that were read survive an exchange.  Whatever the spelling of a text, a tree that is read
from it is written no deeper than the text nests, and its scalars are settled (`Part.Fits`); so the
tree is written to a text that is read as the same tree, again and again (`decoded_trees_survive`).
-/

namespace QueryTree

/-! ### Nesting -/

namespace Json

theorem nestingItems_le {n : Nat} {js : List Json} (h : ∀ j ∈ js, j.nesting ≤ n) :
    nestingItems js ≤ n := by
  induction js with
  | nil => exact Nat.zero_le n
  | cons j js ih =>
    obtain ⟨hFirst, hRest⟩ := List.forall_mem_cons.mp h
    exact Nat.max_le.mpr ⟨hFirst, ih hRest⟩

theorem nestingMembers_le {n : Nat} {ms : List (String × Json)} (h : ∀ m ∈ ms, m.2.nesting ≤ n) :
    nestingMembers ms ≤ n := by
  induction ms with
  | nil => exact Nat.zero_le n
  | cons m ms ih =>
    obtain ⟨hFirst, hRest⟩ := List.forall_mem_cons.mp h
    exact Nat.max_le.mpr ⟨hFirst, ih hRest⟩

theorem nesting_array_le {α : Type} {n : Nat} {write : α → Json} {xs : List α} (hn : 0 < n)
    (h : ∀ x ∈ xs, (write x).nesting ≤ n - 1) : (Json.array (xs.map write)).nesting ≤ n := by
  have := nestingItems_le (List.forall_mem_map.mpr h)
  rw [nesting]
  omega

theorem nesting_object_le {n : Nat} {ms : List (String × Json)} (hn : 0 < n)
    (h : ∀ m ∈ ms, m.2.nesting ≤ n - 1) : (Json.object ms).nesting ≤ n := by
  have := nestingMembers_le h
  rw [nesting]
  omega

end Json

section Members

variable {α : Type} {n : Nat} {name : String} {write : α → Json}

theorem nesting_memberJson?_le {o : Option α} (h : ∀ a, o = some a → (write a).nesting ≤ n) :
    ∀ m ∈ memberJson? name (o.map write), m.2.nesting ≤ n := by
  cases o with
  | none => simp [memberJson?]
  | some a => exact List.forall_mem_singleton.mpr (h a rfl)

theorem nesting_membersJson?_le {xs : List α}
    (h : ∀ x ∈ xs, 0 < n ∧ (write x).nesting ≤ n - 1) :
    ∀ m ∈ membersJson? name (xs.map write), m.2.nesting ≤ n := by
  cases xs with
  | nil => simp [membersJson?]
  | cons x xs =>
    have hPos := (h x List.mem_cons_self).1
    exact List.forall_mem_singleton.mpr (Json.nesting_array_le hPos fun y hy => (h y hy).2)

end Members

/-! ### Fields -/

section Fields

variable {α β : Type} {r : Reader α} {f : Field α} {g : Field β} {P : Nat → α → Prop}
  {Q : Nat → β → Prop}

theorem yields_required (name : String) (h : r.Yields P) : (required name r).Yields P :=
  ⟨h, nofun⟩

theorem yields_optional (name : String) (h : r.Yields P) :
    (optional name r).Yields fun n o => ∀ a, o = some a → P n a :=
  ⟨h.option, fun _ hAbsent _ _ ha => by
    cases hAbsent
    cases ha⟩

theorem yields_defaulted (name : String) (h : r.Yields P) :
    (defaulted name r).Yields fun n as => ∀ a ∈ as, 0 < n ∧ P (n - 1) a where
  read _ _ _ _ hFinite hAllows hRead a ha :=
    have hList := h.list hFinite hAllows hRead
    ⟨hList.1, hList.2 a ha⟩
  absent _ hAbsent _ a ha := by
    cases hAbsent
    cases ha

theorem yields_readOne (hf : f.Yields P) : (readOne f).Yields fun n a => 0 < n ∧ P (n - 1) a := by
  intro mode d a n hFinite hAllows hRead
  obtain ⟨⟨b, _⟩, hRecord, hOk⟩ := bind_ok hRead
  cases hOk
  obtain ⟨hPos, hField, -⟩ := (Layout.Yields.field hf .done).read hFinite hAllows hRecord
  exact ⟨hPos, hField⟩

theorem yields_readTwo (hf : f.Yields P) (hg : g.Yields Q) :
    (readTwo f g).Yields fun n a => 0 < n ∧ P (n - 1) a.1 ∧ Q (n - 1) a.2 := by
  intro mode d a n hFinite hAllows hRead
  obtain ⟨⟨b, c, _⟩, hRecord, hOk⟩ := bind_ok hRead
  cases hOk
  obtain ⟨hPos, hFirst, hSecond, -⟩ :=
    (Layout.Yields.field hf <| .field hg .done).read hFinite hAllows hRecord
  exact ⟨hPos, hFirst, hSecond⟩

theorem yields_readName : readName.Yields fun n _ => 0 < n := fun _ _ _ _ hFinite hAllows hRead =>
  (yields_readOne (yields_required _ (.anything _)) hFinite hAllows hRead).1

end Fields

/-! ### Parts -/

namespace Part

/-- How deep the document of a part nests. -/
def nesting : Part → Nat
  | .node n => n.toJson.nesting
  | .select s => s.toJson.nesting
  | .query q => q.toJson.nesting
  | .join j => j.toJson.nesting
  | .raw r => r.toJson.nesting
  | .scalar v => v.toJson.nesting

/-- The scalars of the part are settled. -/
def Settled (a : Part) : Prop := ∀ v ∈ a.leaves, v.Settled

/-- The document of a part nests at most `n` deep, and its scalars are settled. -/
structure Fits (n : Nat) (a : Part) : Prop where
  nesting : a.nesting ≤ n
  settled : a.Settled

theorem settled_scalar {v : Scalar} (h : v.Settled) : (Part.scalar v).Settled := by
  intro w hw
  rw [leaves_scalar, List.mem_singleton] at hw
  rwa [hw]

theorem settled_of_below {a : Part} (hScalar : a.scalar? = none)
    (h : ∀ b, .part b ∈ a.layout → b.Settled) : a.Settled := by
  intro v hv
  rw [leaves_eq_flatMap hScalar] at hv
  obtain ⟨b, hb, hv⟩ := List.mem_flatMap.mp hv
  exact h b (mem_children.mp hb) v hv

end Part

abbrev FitsNode (n : Nat) (m : Node) : Prop := (Part.node m).Fits n

/-- A node nests as deep as a document of its members. -/
theorem FitsNode.of_tagged {n : Nat} {m : Node} {kind : Kind} {ms : List (String × Json)}
    (hJson : m.toJson = tagged kind ms) (hNesting : (Json.object ms).nesting ≤ n)
    (hBelow : ∀ b, .part b ∈ m.layout → b.Settled) : FitsNode n m := by
  refine ⟨?_, Part.settled_of_below rfl hBelow⟩
  have hTagged : (tagged kind ms).nesting = (Json.object ms).nesting := by
    simp [tagged, Json.nesting, Json.nestingMembers]
  rw [Part.nesting, hJson, hTagged]
  exact hNesting

section Records

variable {node : Reader Node} (h : node.Yields FitsNode)
include h

theorem Select.yields_readWith :
    (Select.readWith node).Yields fun n s => (Part.select s).Fits n := by
  intro mode d s n hFinite hAllows hRead
  obtain ⟨⟨selections, distinctOn, distinct, _⟩, hRecord, hOk⟩ := bind_ok hRead
  cases hOk
  obtain ⟨hPos, ⟨hRoom, hSelections⟩, hDistinctOn, -⟩ :=
    (Layout.Yields.field (yields_required _ h.list) <| .field (yields_defaulted _ h) <|
      .field (yields_optional _ (.anything readDistinct)) .done).read hFinite hAllows hRecord
  refine ⟨?_, Part.settled_of_below rfl ?_⟩
  · refine Json.nesting_object_le hPos ?_
    simp only [members_eq, List.forall_mem_cons, List.forall_mem_append]
    refine ⟨Json.nesting_array_le hRoom ?_, nesting_membersJson?_le ?_, nesting_memberJson?_le ?_⟩
    · exact fun m hm => (hSelections m hm).nesting
    · exact fun m hm => ⟨hRoom, (hDistinctOn m hm).2.nesting⟩
    · exact fun _ _ => Nat.zero_le _
  · exact Select.forall_layout.mpr ⟨fun m hm => (hDistinctOn m hm).2.settled,
      fun m hm => (hSelections m hm).settled⟩

theorem Join.yields_readWith : (Join.readWith node).Yields fun n j => (Part.join j).Fits n := by
  intro mode d j n hFinite hAllows hRead
  obtain ⟨⟨kind, table, condition, _⟩, hRecord, hOk⟩ := bind_ok hRead
  cases hOk
  obtain ⟨hPos, -, hTable, hCondition, -⟩ :=
    (Layout.Yields.field (yields_required _ (.anything JoinKind.read)) <|
      .field (yields_required _ h) <| .field (yields_optional _ h) .done).read
      hFinite hAllows hRecord
  refine ⟨?_, Part.settled_of_below rfl ?_⟩
  · refine Json.nesting_object_le hPos ?_
    simp only [members_eq, List.forall_mem_cons]
    refine ⟨Nat.zero_le _, hTable.nesting, nesting_memberJson?_le ?_⟩
    exact fun m hm => (hCondition m hm).nesting
  · exact Join.forall_layout.mpr ⟨hTable.settled, fun m hm => (hCondition m hm).settled⟩

theorem Query.yields_readWith : (Query.readWith node).Yields fun n q => (Part.query q).Fits n := by
  intro mode d q n hFinite hAllows hRead
  obtain ⟨⟨select, sources, joins, condition, lock, _⟩, hRecord, hOk⟩ := bind_ok hRead
  cases hOk
  obtain ⟨hPos, hSelect, ⟨hRoom, hSources⟩, hJoins, hCondition, -⟩ :=
    (Layout.Yields.field (yields_optional _ (Select.yields_readWith h)) <|
      .field (yields_required _ h.list) <|
      .field (yields_defaulted _ (Join.yields_readWith h)) <|
      .field (yields_optional _ h) <|
      .field (yields_optional _ (.anything Lock.read)) .done).read hFinite hAllows hRecord
  refine ⟨?_, Part.settled_of_below rfl ?_⟩
  · refine Json.nesting_object_le hPos ?_
    simp only [members_eq, List.forall_mem_cons, List.forall_mem_append]
    refine ⟨nesting_memberJson?_le ?_, Json.nesting_array_le hRoom ?_,
      nesting_membersJson?_le ?_, nesting_memberJson?_le ?_, nesting_memberJson?_le ?_⟩
    · exact fun s hs => (hSelect s hs).nesting
    · exact fun m hm => (hSources m hm).nesting
    · exact fun j hj => ⟨hRoom, (hJoins j hj).2.nesting⟩
    · exact fun m hm => (hCondition m hm).nesting
    · exact fun _ _ => Nat.zero_le _
  · exact Query.forall_layout.mpr ⟨fun s hs => (hSelect s hs).settled,
      fun m hm => (hSources m hm).settled, fun j hj => (hJoins j hj).2.settled,
      fun m hm => (hCondition m hm).settled⟩

/-- Parameters are written even where the text leaves them out: as an empty list, for which the list
of fragments has made room. -/
theorem Raw.yields_readWith : (Raw.readWith node).Yields fun n r => (Part.raw r).Fits n := by
  intro mode d r n hFinite hAllows hRead
  obtain ⟨⟨fragments, params, _⟩, hRecord, hOk⟩ := bind_ok hRead
  cases hOk
  obtain ⟨hPos, ⟨hRoom, -⟩, hParams, -⟩ :=
    (Layout.Yields.field (yields_required _ (Reader.Yields.anything Reader.text).list) <|
      .field (yields_defaulted _ h) .done).read hFinite hAllows hRecord
  refine ⟨?_, Part.settled_of_below rfl ?_⟩
  · refine Json.nesting_object_le hPos ?_
    simp only [members_eq, List.forall_mem_cons]
    refine ⟨Json.nesting_array_le hRoom ?_, Json.nesting_array_le hRoom ?_, nofun⟩
    · exact fun _ _ => Nat.zero_le _
    · exact fun m hm => (hParams m hm).2.nesting
  · intro b hb
    obtain ⟨m, hm, rfl⟩ := Raw.part_mem_layout.mp hb
    exact (hParams m hm).2.settled

theorem yields_readFilter : (readFilter node).Yields FitsNode := by
  intro mode d m n hFinite hAllows hRead
  obtain ⟨⟨lhs, operator, rhs, _⟩, hRecord, hOk⟩ := bind_ok hRead
  cases hOk
  obtain ⟨hPos, hLeft, hOperator, hRight, -⟩ :=
    (Layout.Yields.field (yields_optional _ h) <| .field (yields_required _ h) <|
      .field (yields_required _ h) .done).read hFinite hAllows hRecord
  have hJson : (Node.filter lhs operator rhs).toJson = tagged .filter
      (memberJson? "lhs" (lhs.map Node.toJson) ++
        [("op", operator.toJson), ("rhs", rhs.toJson)]) := by
    cases lhs <;> rfl
  refine .of_tagged hJson (Json.nesting_object_le hPos ?_) ?_
  · simp only [List.forall_mem_append, List.forall_mem_cons]
    refine ⟨nesting_memberJson?_le ?_, hOperator.nesting, hRight.nesting, nofun⟩
    exact fun m hm => (hLeft m hm).nesting
  · cases lhs with
    | none => simpa [Node.layout] using ⟨hOperator.settled, hRight.settled⟩
    | some l =>
      simpa [Node.layout] using ⟨(hLeft l rfl).settled, hOperator.settled, hRight.settled⟩

/-- Nodes with two nodes below them. -/
theorem FitsNode.of_readTwo {make : Node → Node → Node} {kind : Kind} {first second : String}
    {d : Draft} {m : Node} {n : Nat}
    (hJson : ∀ l r, (make l r).toJson = tagged kind [(first, l.toJson), (second, r.toJson)])
    (hLayout : ∀ l r b, .part b ∈ (make l r).layout → b = .node l ∨ b = .node r)
    (hFinite : d.Finite) (hAllows : Mode.buffered.Allows n d)
    (hRead : (readTwo (required first node) (required second node) .buffered d).map
      (fun (l, r) => make l r) = .ok m) : FitsNode n m := by
  obtain ⟨⟨l, r⟩, hTwo, rfl⟩ := map_ok hRead
  obtain ⟨hPos, hl, hr⟩ :=
    yields_readTwo (yields_required _ h) (yields_required _ h) hFinite hAllows hTwo
  refine .of_tagged (hJson l r) (Json.nesting_object_le hPos ?_) ?_
  · simp only [List.forall_mem_cons]
    exact ⟨hl.nesting, hr.nesting, nofun⟩
  · intro b hb
    rcases hLayout l r b hb with rfl | rfl
    · exact hl.settled
    · exact hr.settled

/-- Nodes with one node below them. -/
theorem FitsNode.of_readOne {make : Node → Node} {kind : Kind} {name : String} {d : Draft}
    {m : Node} {n : Nat} (hJson : ∀ l, (make l).toJson = tagged kind [(name, l.toJson)])
    (hLayout : ∀ l b, .part b ∈ (make l).layout → b = .node l) (hFinite : d.Finite)
    (hAllows : Mode.buffered.Allows n d)
    (hRead : (readOne (required name node) .buffered d).map make = .ok m) : FitsNode n m := by
  obtain ⟨l, hOne, rfl⟩ := map_ok hRead
  obtain ⟨hPos, hl⟩ := yields_readOne (yields_required _ h) hFinite hAllows hOne
  refine .of_tagged (hJson l) (Json.nesting_object_le hPos ?_) ?_
  · exact List.forall_mem_singleton.mpr hl.nesting
  · intro b hb
    rw [hLayout l b hb]
    exact hl.settled

/-- A node of any kind fits if its content does not nest too deeply. -/
theorem Kind.fits_readContent {kind : Kind} {d : Draft} {m : Node} {n : Nat} (hFinite : d.Finite)
    (hAllows : Mode.buffered.Allows n d) (hPos : 0 < n) (hRead : kind.readContent node d = .ok m) :
    FitsNode n m := by
  cases kind with
  | identifier | operator =>
    obtain ⟨s, -, rfl⟩ := map_ok hRead
    exact .of_tagged rfl (Json.nesting_object_le hPos (by simp [Json.nesting]))
      (by simp [Node.layout])
  | reference => exact .of_readTwo h (fun _ _ => rfl) (by simp [Node.layout]) hFinite hAllows hRead
  | and => exact .of_readTwo h (fun _ _ => rfl) (by simp [Node.layout]) hFinite hAllows hRead
  | or => exact .of_readTwo h (fun _ _ => rfl) (by simp [Node.layout]) hFinite hAllows hRead
  | selection => exact .of_readOne h (fun _ => rfl) (by simp [Node.layout]) hFinite hAllows hRead
  | parens => exact .of_readOne h (fun _ => rfl) (by simp [Node.layout]) hFinite hAllows hRead
  | table =>
    obtain ⟨⟨s, t⟩, hTwo, rfl⟩ := map_ok hRead
    obtain ⟨-, hSchema, hTable⟩ := yields_readTwo (yields_optional _ yields_readName)
      (yields_required _ yields_readName) hFinite hAllows hTwo
    refine .of_tagged rfl (Json.nesting_object_le hPos ?_) ?_
    · simp only [List.forall_mem_append]
      exact ⟨nesting_memberJson?_le hSchema, List.forall_mem_singleton.mpr hTable⟩
    · cases s <;> simp [Node.layout]
  | aliased =>
    obtain ⟨⟨l, s⟩, hTwo, rfl⟩ := map_ok hRead
    obtain ⟨-, hl, hName⟩ := yields_readTwo (yields_required _ h)
      (yields_required _ yields_readName) hFinite hAllows hTwo
    refine .of_tagged rfl (Json.nesting_object_le hPos ?_) ?_
    · simp only [List.forall_mem_cons]
      exact ⟨hl.nesting, hName, List.forall_mem_nil _⟩
    · simpa [Node.layout] using hl.settled
  | selectAll =>
    have hAll : m = .selectAll := by
      rw [readContent, readSelectAll.eq_def] at hRead
      split at hRead <;> cases hRead
      rfl
    subst hAll
    exact .of_tagged rfl (Json.nesting_object_le hPos (List.forall_mem_nil _))
      (by simp [Node.layout])
  | value =>
    obtain ⟨v, hOne, rfl⟩ := map_ok hRead
    obtain ⟨-, hNesting, hSettled⟩ :=
      yields_readOne (yields_required _ Scalar.yields_read) hFinite hAllows hOne
    refine .of_tagged rfl (Json.nesting_object_le hPos ?_) ?_
    · exact List.forall_mem_singleton.mpr hNesting
    · simpa [Node.layout] using Part.settled_scalar hSettled
  | valueList =>
    obtain ⟨ns, hOne, rfl⟩ := map_ok hRead
    obtain ⟨-, hRoom, hNodes⟩ :=
      yields_readOne (yields_required _ h.list) hFinite hAllows hOne
    refine .of_tagged rfl (Json.nesting_object_le hPos (List.forall_mem_singleton.mpr ?_)) ?_
    · rw [nodesJson_eq_map]
      exact Json.nesting_array_le hRoom fun m hm => (hNodes m hm).nesting
    · simpa [Node.layout] using fun m hm => (hNodes m hm).settled
  | scalarList =>
    obtain ⟨vs, hOne, rfl⟩ := map_ok hRead
    obtain ⟨-, hRoom, hScalars⟩ :=
      yields_readOne (yields_required _ Scalar.yields_read.list) hFinite hAllows hOne
    refine .of_tagged rfl (Json.nesting_object_le hPos (List.forall_mem_singleton.mpr ?_)) ?_
    · exact Json.nesting_array_le hRoom fun v hv => (hScalars v hv).1
    · simpa [Node.layout] using fun v hv => Part.settled_scalar (hScalars v hv).2
  | filter => exact yields_readFilter h hFinite hAllows hRead
  | select =>
    obtain ⟨s, hSelect, rfl⟩ := map_ok hRead
    have hFits := Select.yields_readWith h hFinite hAllows hSelect
    exact .of_tagged rfl hFits.nesting (by simpa [Node.layout] using hFits.settled)
  | query =>
    obtain ⟨q, hQuery, rfl⟩ := map_ok hRead
    have hFits := Query.yields_readWith h hFinite hAllows hQuery
    exact .of_tagged rfl hFits.nesting (by simpa [Node.layout] using hFits.settled)
  | join =>
    obtain ⟨j, hJoin, rfl⟩ := map_ok hRead
    have hFits := Join.yields_readWith h hFinite hAllows hJoin
    exact .of_tagged rfl hFits.nesting (by simpa [Node.layout] using hFits.settled)
  | raw =>
    obtain ⟨r, hRaw, rfl⟩ := map_ok hRead
    have hFits := Raw.yields_readWith h hFinite hAllows hRaw
    exact .of_tagged rfl hFits.nesting (by simpa [Node.layout] using hFits.settled)

end Records

/-! ### Nodes -/

theorem Draft.Nests.of_within {d : Draft} {ds : List Draft} {n : Nat} (hds : d.within? = some ds)
    (hPos : 0 < n) (h : ∀ e ∈ ds, e.Nests (n - 1)) : d.Nests n := by
  cases n with
  | zero => cases hPos
  | succ n =>
    intro es hes
    cases hds.symm.trans hes
    exact h

theorem Kind.within?_of_read {mode : Mode} {d : Draft} {kind : Kind}
    (h : Kind.read mode d = .ok kind) : d.within? = none := by
  cases d with
  | array => cases mode <;> cases h
  | object => cases mode <;> cases h
  | _ => rfl

section Kept

variable {mode : Mode} {n : Nat}

theorem nests_of_findKind {ms : List (Option String × Draft)} {found found' : Option Kind}
    (hAllows : ∀ e ∈ ms.map Prod.snd, mode.Allows n e)
    (h : findKind mode ms found = .ok found') : ∀ e ∈ ms.map Prod.snd, e.Nests n := by
  induction ms generalizing found with
  | nil => simp
  | cons m ms ih =>
    obtain ⟨name, d⟩ := m
    obtain ⟨hFirst, hRest⟩ := List.forall_mem_cons.mp hAllows
    refine List.forall_mem_cons.mpr ?_
    cases name with
    | none => cases h
    | some name =>
      simp only [findKind] at h
      split at h
      · split at h
        · cases h
        · obtain ⟨kind, hKind, hMore⟩ := bind_ok h
          exact ⟨.of_none (Kind.within?_of_read hKind) n, ih hRest hMore⟩
      · obtain ⟨⟨⟩, hKeep, hMore⟩ := bind_ok h
        exact ⟨hFirst.nests hKeep, ih hRest hMore⟩

theorem nests_of_keepItems {items : List Draft} (hAllows : ∀ e ∈ items, mode.Allows n e)
    (h : keepItems mode items = .ok ()) : ∀ e ∈ items, e.Nests n := by
  induction items with
  | nil => simp
  | cons d items ih =>
    obtain ⟨⟨⟩, hKeep, hMore⟩ := bind_ok h
    obtain ⟨hFirst, hRest⟩ := List.forall_mem_cons.mp hAllows
    exact List.forall_mem_cons.mpr ⟨hFirst.nests hKeep, ih hRest hMore⟩

end Kept

/-- The content of a node is kept before it is decoded, so it nests no deeper than there is room. -/
theorem Node.yields_readWithin (levels : Nat) : (Node.readWithin levels).Yields FitsNode := by
  induction levels with
  | zero =>
    intro mode d m n _ _ hRead
    cases hRead
  | succ levels ih =>
    intro mode d m n hFinite hAllows hRead
    cases d with
    | object members ending =>
      obtain ⟨inner, hInner, hMore⟩ := bind_ok hRead
      obtain ⟨found, hFound, hEnd⟩ := bind_ok hMore
      obtain ⟨⟨⟩, -, hContent⟩ := bind_ok hEnd
      obtain ⟨hPos, hMembers⟩ := hAllows.enter hInner rfl
      cases found with
      | none => cases hContent
      | some kind =>
        refine kind.fits_readContent ih ?_ ?_ hPos hContent
        · exact .intro nofun fun ds hds => hFinite.within hds
        · exact Draft.Nests.of_within rfl hPos (nests_of_findKind hMembers hFound)
    | array items ending =>
      cases items with
      | nil =>
        obtain ⟨inner, -, hMore⟩ := bind_ok hRead
        obtain ⟨⟨⟩, -, hNone⟩ := bind_ok hMore
        cases hNone
      | cons tag items =>
        obtain ⟨inner, hInner, hMore⟩ := bind_ok hRead
        obtain ⟨kind, hKind, hItems⟩ := bind_ok hMore
        obtain ⟨⟨⟩, hKeep, hEnd⟩ := bind_ok hItems
        obtain ⟨⟨⟩, -, hContent⟩ := bind_ok hEnd
        obtain ⟨hPos, hAll⟩ := hAllows.enter hInner rfl
        obtain ⟨-, hRest⟩ := List.forall_mem_cons.mp hAll
        refine kind.fits_readContent ih ?_ ?_ hPos hContent
        · exact .array (List.forall_mem_cons.mp (hFinite.within rfl)).2
        · exact Draft.Nests.of_within rfl hPos (nests_of_keepItems hRest hKeep)
    | _ => cases hRead

/-- A query that is read from a text fits within the limit of nesting. -/
theorem Query.fits_of_ofText {text : String} {q : Query} (h : Query.ofText text = .ok q) :
    (Part.query q).Fits nestingLimit := by
  obtain ⟨d, rest, hText, hRead, -⟩ := Reader.ofText_ok h
  have hFinite := Draft.finite_ofText text.toList
  rw [hText] at hFinite
  have hRoom : Mode.start.Allows nestingLimit d := Nat.le_refl nestingLimit
  exact Query.yields_readWith (Node.yields_readWithin nestingLimit) hFinite hRoom hRead

/-! ### Trees -/

/-- A tree that is read from a text, however that is spelled, is written to a text that is read as
the same tree, which is written to the same text again; provided that each finite double of the tree
is read back from the text that is written for it. -/
theorem decoded_trees_survive {text : String} {q : Query} (h : Query.ofText text = .ok q)
    (hFloats : ∀ x, .float x ∈ q.leaves → x.isFinite = true → (Number.real x).ReadsBack) :
    ∃ q', Query.ofText q.toJson.compact = .ok q' ∧ q' = q ∧ q'.same q = true ∧
      q'.toJson.compact = q.toJson.compact := by
  have hFits := Query.fits_of_ofText h
  have hScalars : ∀ v ∈ q.leaves, v.reread = .ok v := fun v hv =>
    (hFits.settled v hv).reread fun x hx => hFloats x (hx ▸ hv)
  have hReread : q.reread = Mode.start.within q.toJson.nesting (q.relabel {}) :=
    Query.reread_eq hScalars
  have hSame : (q.relabel {}).same q = true :=
    Part.sameAfter (f := id) (a := .query q) fun v hv => (hFits.settled v hv).same_self
  rw [q.relabel_id] at hReread hSame
  exact ⟨q, (Mode.start_within hReread).1 hFits.nesting, rfl, hSame, rfl⟩

theorem Query.exists_of_run {text sql : String} {vs : List Scalar}
    (h : ((Query.ofText text).toOption.bind fun q =>
      (q.compile .standard).toOption.map fun s => (s.sql, s.bindings)) = some (sql, vs)) :
    ∃ q s, Query.ofText text = .ok q ∧ q.compile .standard = .ok s ∧ s.sql = sql ∧
      q.leaves = vs := by
  cases hText : Query.ofText text with
  | error e => simp [hText, Except.toOption] at h
  | ok q =>
    cases hCompile : q.compile .standard with
    | error e => simp [hText, hCompile, Except.toOption] at h
    | ok s =>
      obtain ⟨hSql, hBindings⟩ : s.sql = sql ∧ s.bindings = vs := by
        simpa [hText, hCompile, Except.toOption] using h
      obtain ⟨-, hTokens⟩ := Query.compile_eq_ok_iff.mp hCompile
      refine ⟨q, s, rfl, hCompile, hSql, ?_⟩
      rw [q.leaves_eq, ← hBindings, hTokens]
      rfl

/-- A text with an unknown field that no double holds, fields out of order, nodes as lists, kinds by
number, a lock as an object, and nothing for an option. -/
def looseText : String :=
  "\x7b\"x\":[1e999], \"where\":[\"Filter\", \x7b\"identifier\":\"n\",\"kind\":0\x7d, " ++
  "[16,\">\"], \x7b\"value\":1999e-2,\"kind\":12\x7d],\n\"modifier\":\x7b\"NoWait\":null\x7d, " ++
  "\"from\":[[\"Table\",null,[\"t\"]]]\x7d"

theorem decoded_trees_survive_looseText :
    ∃ q s, Query.ofText looseText = .ok q ∧ q.compile .standard = .ok s ∧
      s.sql = "from \"t\" where \"n\" > $0 no wait" ∧ q.leaves = [.float 19.99] ∧
      (∀ x, .float x ∈ q.leaves → x.isFinite = true → (Number.real x).ReadsBack) ∧
      ∃ q', Query.ofText q.toJson.compact = .ok q' ∧ q' = q ∧ q'.same q = true ∧
        q'.toJson.compact = q.toJson.compact := by
  obtain ⟨q, s, hText, hCompile, hSql, hLeaves⟩ :
      ∃ q s, Query.ofText looseText = .ok q ∧ q.compile .standard = .ok s ∧
        s.sql = "from \"t\" where \"n\" > $0 no wait" ∧ q.leaves = [.float 19.99] :=
    Query.exists_of_run (by decide +kernel)
  have hFloats : ∀ x, .float x ∈ q.leaves → x.isFinite = true → (Number.real x).ReadsBack := by
    intro x hx _
    rw [hLeaves, List.mem_singleton] at hx
    cases hx
    decide +kernel
  exact ⟨q, s, hText, hCompile, hSql, hLeaves, hFloats, decoded_trees_survive hText hFloats⟩

end QueryTree
