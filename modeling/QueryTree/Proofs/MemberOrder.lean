import QueryTree.Statement
import QueryTree.Tree.Decode
import QueryTree.Proofs.Json.Written

/-! The order of members in the document of a tree plays no part.  Records hand this on from their
fields; in a node the kind can stand anywhere, because the search for it goes through all members
before the content is read, and the content is a record again.  So a text whose document differs
from another's in the order of members only denotes the same tree
(`Query.member_order_is_irrelevant`). -/

namespace QueryTree

open Draft (Rearranged MemberRearranged)

/-! ### Scalars -/

theorem Scalar.octet?_eq_some {d e : Draft} {o : UInt8} (hOrder : d.Rearranged e)
    (h : octet? d = some o) : octet? e = some o := by
  cases hOrder with
  | refl => exact h
  | array | object => cases h

theorem Scalar.mapM_octet?_eq_some {ds es : List Draft} {os : List UInt8}
    (hOrder : List.Forall₂ Rearranged ds es) (h : ds.mapM octet? = some os) :
    es.mapM octet? = some os := by
  induction hOrder generalizing os with
  | nil => exact h
  | cons hFirst _ ih =>
    rw [List.mapM_cons] at h ⊢
    obtain ⟨o, ho, hMore⟩ := Option.bind_eq_some_iff.mp h
    obtain ⟨os, hos, hOk⟩ := Option.bind_eq_some_iff.mp hMore
    rw [octet?_eq_some hFirst ho, ih hos]
    exact hOk

/-- A scalar is no object, and no object stands in one. -/
theorem Scalar.ignoresOrder_read : Scalar.read.IgnoresOrder := by
  intro mode d e v hOrder hRead
  obtain ⟨_, hKeep, hScalar⟩ := bind_ok hRead
  have hSame : ofDraft? d ≠ none → ofDraft? e = ofDraft? d := by
    intro hSome
    cases hOrder with
    | refl => rfl
    | object => exact absurd rfl hSome
    | array ending below =>
      obtain ⟨v, hv⟩ := Option.ne_none_iff_exists'.mp hSome
      obtain ⟨os, hos, rfl⟩ := Option.map_eq_some_iff.mp hv
      rw [ofDraft?, ofDraft?, hos, mapM_octet?_eq_some below hos]
  have hSome : ofDraft? d ≠ none := by
    intro hNone
    rw [hNone] at hScalar
    cases hScalar
  rw [Scalar.read, hOrder.keep hKeep, hSame hSome]
  exact hScalar

/-! ### Fields -/

section Fields

variable {α β : Type} {r : Reader α} {f : Field α} {g : Field β}

theorem ignoresOrder_readOne (hf : f.read.IgnoresOrder) : (readOne f).IgnoresOrder :=
  (Layout.IgnoresOrder.field hf .done).read.bind _

theorem ignoresOrder_readTwo (hf : f.read.IgnoresOrder) (hg : g.read.IgnoresOrder) :
    (readTwo f g).IgnoresOrder :=
  (Layout.IgnoresOrder.field hf <| .field hg .done).read.bind _

theorem ignoresOrder_readName : readName.IgnoresOrder := ignoresOrder_readOne .text

end Fields

section Records

variable {node : Reader Node} (h : node.IgnoresOrder)
include h

theorem Select.ignoresOrder_readWith : (Select.readWith node).IgnoresOrder :=
  (Layout.IgnoresOrder.field h.list <| .field h.list <|
    .field (Reader.IgnoresOrder.choice _ _).option .done).read.bind _

theorem Join.ignoresOrder_readWith : (Join.readWith node).IgnoresOrder :=
  (Layout.IgnoresOrder.field (.choice _ _) <| .field h <| .field h.option .done).read.bind _

theorem Query.ignoresOrder_readWith : (Query.readWith node).IgnoresOrder :=
  (Layout.IgnoresOrder.field (Select.ignoresOrder_readWith h).option <| .field h.list <|
    .field (Join.ignoresOrder_readWith h).list <| .field h.option <|
    .field (Reader.IgnoresOrder.choice _ _).option .done).read.bind _

theorem Raw.ignoresOrder_readWith : (Raw.readWith node).IgnoresOrder :=
  (Layout.IgnoresOrder.field Reader.IgnoresOrder.text.list <| .field h.list .done).read.bind _

theorem ignoresOrder_readFilter : (readFilter node).IgnoresOrder :=
  (Layout.IgnoresOrder.field h.option <| .field h <| .field h .done).read.bind _

omit h in
theorem ignoresOrder_readSelectAll : readSelectAll.IgnoresOrder := by
  intro mode d e n hOrder hRead
  cases hOrder with
  | refl => exact hRead
  | object => exact hRead
  | array ending below =>
    cases below with
    | nil => exact hRead
    | cons => cases hRead

/-- The content of a node is read alike, whatever its kind. -/
theorem Kind.readContent_rearranged {kind : Kind} {d e : Draft} {n : Node}
    (hOrder : d.Rearranged e) (hRead : kind.readContent node d = .ok n) :
    kind.readContent node e = .ok n := by
  cases kind with
  | selectAll => exact ignoresOrder_readSelectAll hOrder hRead
  | filter => exact ignoresOrder_readFilter h hOrder hRead
  | select => exact (Select.ignoresOrder_readWith h).map hOrder hRead
  | query => exact (Query.ignoresOrder_readWith h).map hOrder hRead
  | join => exact (Join.ignoresOrder_readWith h).map hOrder hRead
  | raw => exact (Raw.ignoresOrder_readWith h).map hOrder hRead
  | identifier | operator =>
    refine Reader.IgnoresOrder.map ?_ hOrder hRead
    exact ignoresOrder_readOne Reader.IgnoresOrder.text
  | selection | parens =>
    refine Reader.IgnoresOrder.map ?_ hOrder hRead
    exact ignoresOrder_readOne h
  | reference | and | or =>
    refine Reader.IgnoresOrder.map ?_ hOrder hRead
    exact ignoresOrder_readTwo h h
  | table =>
    refine Reader.IgnoresOrder.map ?_ hOrder hRead
    exact ignoresOrder_readTwo ignoresOrder_readName.option ignoresOrder_readName
  | aliased =>
    refine Reader.IgnoresOrder.map ?_ hOrder hRead
    exact ignoresOrder_readTwo h ignoresOrder_readName
  | value =>
    refine Reader.IgnoresOrder.map ?_ hOrder hRead
    exact ignoresOrder_readOne Scalar.ignoresOrder_read
  | valueList =>
    refine Reader.IgnoresOrder.map ?_ hOrder hRead
    exact ignoresOrder_readOne h.list
  | scalarList =>
    refine Reader.IgnoresOrder.map ?_ hOrder hRead
    exact ignoresOrder_readOne Scalar.ignoresOrder_read.list

end Records

theorem Kind.ignoresOrder_read : Kind.read.IgnoresOrder := by
  intro mode d e kind hOrder hRead
  cases hOrder with
  | refl => exact hRead
  | array | object => cases mode <;> cases hRead

/-! ### Nodes -/

/-- What is done with a member of a node in the search for its kind. -/
def kindStep (mode : Mode) (found : Option Kind) (m : Option String × Draft) :
    Decoded (Option Kind) :=
  match m with
  | (none, _) => .error (.refused .malformed)
  | (some name, d) =>
    if name == "kind" then
      match found with
      | some _ => .error (.duplicateField "kind")
      | none => (Kind.read mode d).map some
    else (mode.keep d).map fun _ => found

theorem findKind_eq_foldlM (mode : Mode) (ms : List (Option String × Draft))
    (found : Option Kind) : findKind mode ms found = ms.foldlM (kindStep mode) found := by
  induction ms generalizing found with
  | nil => rfl
  | cons m ms ih =>
    rw [List.foldlM_cons]
    obtain ⟨_ | name, d⟩ := m
    · rfl
    · simp only [findKind, kindStep, ih]
      split
      · cases found with
        | some => rfl
        | none => cases Kind.read mode d <;> rfl
      · cases mode.keep d <;> rfl

/-- The kind is noted, and all else must be readable: either can come first. -/
theorem exchangeable_kindStep (mode : Mode) : Exchangeable (kindStep mode) := by
  intro m m' s t u h h'
  obtain ⟨_ | name, d⟩ := m
  · cases h
  obtain ⟨_ | name', d'⟩ := m'
  · cases h'
  simp only [kindStep] at h h' ⊢
  split at h
  · next hName =>
    split at h
    · cases h
    · obtain ⟨kind, hKind, rfl⟩ := map_ok h
      split at h'
      · cases h'
      · next hName' =>
        obtain ⟨_, hKeep, rfl⟩ := map_ok h'
        exact ⟨none, by rw [if_neg hName', hKeep]; rfl, by rw [if_pos hName, hKind]; rfl⟩
  · next hName =>
    obtain ⟨_, hKeep, rfl⟩ := map_ok h
    split at h'
    · next hName' =>
      refine ⟨u, by rw [if_pos hName']; exact h', ?_⟩
      rw [if_neg hName, hKeep]
      rfl
    · next hName' =>
      refine ⟨u, by rw [if_neg hName']; exact h', ?_⟩
      rw [if_neg hName, hKeep]
      rfl

theorem kindStep_rearranged {mode : Mode} {m m' : Option String × Draft} {s t : Option Kind}
    (hOrder : MemberRearranged m m') (h : kindStep mode s m = .ok t) :
    kindStep mode s m' = .ok t := by
  obtain ⟨_ | name, d⟩ := m
  · cases h
  obtain ⟨name', d'⟩ := m'
  obtain ⟨hName, hValue⟩ := hOrder
  cases hName
  simp only [kindStep] at h ⊢
  split at h
  · next hName =>
    rw [if_pos hName]
    split at h
    · cases h
    · exact Kind.ignoresOrder_read.map hValue h
  · next hName =>
    obtain ⟨_, hKeep, rfl⟩ := map_ok h
    rw [if_neg hName, hValue.keep hKeep]
    rfl

theorem findKind_rearranged {mode : Mode} {members between members' : List (Option String × Draft)}
    {s t : Option Kind} (below : List.Forall₂ MemberRearranged members between)
    (order : between.Perm members') (h : findKind mode members s = .ok t) :
    findKind mode members' s = .ok t := by
  rw [findKind_eq_foldlM] at h ⊢
  have hBetween := foldlM_ok_of_forall₂ (f := kindStep mode)
    (fun _ _ _ _ hMember hStep => kindStep_rearranged hMember hStep) below h
  exact foldlM_ok_of_perm (exchangeable_kindStep mode) order hBetween

theorem keepItems_rearranged {mode : Mode} {ds es : List Draft}
    (below : List.Forall₂ Rearranged ds es) (h : keepItems mode ds = .ok ()) :
    keepItems mode es = .ok () := by
  induction below with
  | nil => rfl
  | cons hFirst _ ih =>
    obtain ⟨_, hKeep, hRest⟩ := bind_ok h
    rw [keepItems, hFirst.keep hKeep]
    exact ih hRest

theorem Node.ignoresOrder_readWithin (levels : Nat) : (Node.readWithin levels).IgnoresOrder := by
  induction levels with
  | zero =>
    intro mode d e n hOrder hRead
    cases hRead
  | succ levels ih =>
    intro mode d e n hOrder hRead
    cases hOrder with
    | refl => exact hRead
    | object ending names below order =>
      obtain ⟨inner, hInner, hMore⟩ := bind_ok hRead
      obtain ⟨found, hFound, hRest⟩ := bind_ok hMore
      obtain ⟨_, hEnding, hContent⟩ := bind_ok hRest
      have hFound' := findKind_rearranged (Draft.forall₂_memberRearranged names below) order hFound
      rw [readWithin, hInner, ok_bind, hFound', ok_bind, hEnding, ok_bind]
      cases found with
      | none => cases hContent
      | some kind =>
        exact Kind.readContent_rearranged ih (.object .closed names below order) hContent
    | array ending below =>
      cases below with
      | nil => exact hRead
      | cons hTag hItems =>
        obtain ⟨inner, hInner, hMore⟩ := bind_ok hRead
        obtain ⟨kind, hKind, hRest⟩ := bind_ok hMore
        obtain ⟨_, hKeep, hEnd⟩ := bind_ok hRest
        obtain ⟨_, hEnding, hContent⟩ := bind_ok hEnd
        rw [readWithin, hInner, ok_bind, Kind.ignoresOrder_read hTag hKind, ok_bind,
          keepItems_rearranged hItems hKeep, ok_bind, hEnding]
        exact Kind.readContent_rearranged ih (.array .closed hItems) hContent

theorem Query.ignoresOrder_read : Query.read.IgnoresOrder :=
  Query.ignoresOrder_readWith (Node.ignoresOrder_readWithin nestingLimit)

/-- If a text denotes a tree, then so does every text of its document with the members of any
objects in any other order, and there is such a text for every order. -/
theorem Query.member_order_is_irrelevant {text : String} {q : Query}
    (h : Query.ofText text = .ok q) :
    ∃ d, IsText text d ∧ ∀ d', d.Rearranged d' →
      (∃ text', IsText text' d') ∧
      ∀ text', IsText text' d' → Query.ofText text' = .ok q ∧
        ∀ dialect, (Query.ofText text').map (Query.compile dialect) = .ok (q.compile dialect) := by
  obtain ⟨d, hText, hRead⟩ := Reader.ofText_eq_ok_iff.mp h
  refine ⟨d, hText, fun d' hOrder => ⟨?_, fun text' hText' => ?_⟩⟩
  · obtain ⟨rest, hDraft, -⟩ := hText
    exact (hOrder.written (Draft.written_ofText hDraft)).exists_text
  · have hSame : Query.ofText text' = .ok q :=
      Reader.ofText_eq_ok_iff.mpr ⟨d', hText', ignoresOrder_read hOrder hRead⟩
    refine ⟨hSame, fun dialect => ?_⟩
    rw [hSame]
    rfl

/-- The sources of `visits`, with a member that has no meaning and one that comes twice. -/
def visitsDocument : String :=
  "\x7b\"from\":[\x7b\"kind\":\"Table\",\"table\":\x7b\"identifier\":\"visits\"\x7d," ++
    "\"x\":null,\"x\":true\x7d],\"y\":\x7b\"b\":[],\"a\":\"\"\x7d\x7d"

/-- The same with the members of each object in reverse order, and white space between them. -/
def reversedVisitsDocument : String :=
  "\x7b\"y\": \x7b\"a\": \"\", \"b\": []\x7d,\n\"from\": [\x7b\"x\": true, \"x\": null, " ++
    "\"table\": \x7b\"identifier\": \"visits\"\x7d, \"kind\": \"Table\"\x7d]\x7d\n"

theorem Query.member_order_is_irrelevant_visits :
    Query.ofText visitsDocument = .ok { sources := [.table none "visits"] } ∧
    Query.ofText reversedVisitsDocument = .ok { sources := [.table none "visits"] } := by
  have hOk : Query.ofText visitsDocument = .ok { sources := [.table none "visits"] } := by cbv
  refine ⟨hOk, ?_⟩
  obtain ⟨d, ⟨rest, hDraft, -⟩, hAll⟩ := Query.member_order_is_irrelevant hOk
  have hVisits : Draft.ofText visitsDocument.toList = (.object [
      (some "from", .array [.object [(some "kind", .string "Table"),
        (some "table", .object [(some "identifier", .string "visits")] .closed),
        (some "x", .null), (some "x", .bool true)] .closed] .closed),
      (some "y", .object [(some "b", .array [] .closed), (some "a", .string "")]
        .closed)] .closed, .ok []) := by cbv
  have hReversed : IsText reversedVisitsDocument (.object [
      (some "y", .object [(some "a", .string ""), (some "b", .array [] .closed)]
        .closed),
      (some "from", .array [.object [(some "x", .bool true), (some "x", .null),
        (some "table", .object [(some "identifier", .string "visits")] .closed),
        (some "kind", .string "Table")] .closed] .closed)] .closed) := ⟨['\n'], by cbv, by cbv⟩
  cases hDraft.symm.trans hVisits
  refine ((hAll _ ?_).2 _ hReversed).1
  have hReverse (members : List (Option String × Draft)) :
      (Draft.object members .closed).Rearranged (.object members.reverse .closed) :=
    .of_perm .closed members.reverse_perm.symm
  refine .object .closed ?_ ?_ (.swap _ _ _)
  · rfl
  · exact .cons (.array .closed (.cons (hReverse _) .nil)) (.cons (hReverse _) .nil)

end QueryTree
