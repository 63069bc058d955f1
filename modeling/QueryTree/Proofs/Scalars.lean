import Mathlib.Data.List.Nodup
import QueryTree.Proofs.Compilation
import QueryTree.Proofs.Relabeling

/-! The scalars of a tree play no part in its statement text.  A compilation commutes with replacing
every scalar of a tree: the text and the errors stay the same, and the bindings are replaced one by
one (`Query.compile_relabel`).  The leaves of a part are the scalars in it, in the order in which a
statement binds them; what holds of every leaf, and of a part whenever it holds directly below it,
holds of every part (`Part.of_leaves`).  A position in a tree is a list of numbers, each of which
chooses among the parts directly below; the bindings of a statement are the scalars at the positions
`Query.places`, which depend on the shape of the tree alone. -/

namespace QueryTree

open Piece (listed clause alternating)

namespace Token

/-- The scalars of the holes do not show in the text. -/
theorem render_relabel (f : Scalar → Scalar) (d : Dialect) (index : Nat) (tokens : List Token) :
    render d index (tokens.map (relabel { scalars := f })) = render d index tokens := by
  induction tokens generalizing index with
  | nil => rfl
  | cons t rest ih => cases t <;> simp only [List.map_cons, relabel, render, ih, id_eq]

theorem scalars_relabel (ρ : Relabeling) (tokens : List Token) :
    scalars (tokens.map (relabel ρ)) = (scalars tokens).map ρ.scalars := by
  rw [scalars, scalars, List.filterMap_map, List.map_filterMap]
  congr 1
  funext t
  cases t <;> rfl

end Token

def Statement.mapBindings (f : Scalar → Scalar) (s : Statement) : Statement :=
  { s with bindings := s.bindings.map f }

namespace Query

/-- A tree with other scalars has the same statement but for its bindings. -/
theorem compile_relabel (f : Scalar → Scalar) (d : Dialect) (q : Query) :
    (q.relabel { scalars := f }).compile d = (q.compile d).map (Statement.mapBindings f) := by
  have hFault := q.firstFault?_relabel { scalars := f }
  cases h : q.firstFault? with
  | some e =>
    rw [compile_of_fault d h, compile_of_fault d (hFault.trans h)]
    rfl
  | none =>
    rw [compile_of_fault_none d h, compile_of_fault_none d (hFault.trans h), tokens_relabel]
    simp only [Statement.ofTokens, Token.render_relabel, Token.scalars_relabel]
    rfl

end Query

/-! ### Leaves -/

theorem Piece.hole_not_mem_listed {v : Scalar} {pieces : List Piece}
    (h : ∀ x ∈ pieces, ∃ a, x = .part a) : .token (.hole v) ∉ listed pieces := by
  intro hv
  obtain ⟨a, ha⟩ := h _ (mem_of_mem_listed hv nofun)
  cases ha

theorem Piece.hole_not_mem_alternating {v : Scalar} : (fs : List String) → (ns : List Node) →
    .token (.hole v) ∉ alternating fs ns
  | [], _ | _ :: _, [] => by simp [alternating]
  | s :: fs, n :: ns => by simp [alternating, hole_not_mem_alternating fs ns]

namespace Part

/-- Only a scalar makes a hole by itself. -/
theorem eq_scalar_of_hole_mem_layout {a : Part} {v : Scalar} (h : .token (.hole v) ∈ a.layout) :
    a = .scalar v := by
  cases a with
  | node n =>
    cases n with
    | table s => cases s <;> simp [layout, Node.layout] at h
    | filter l => cases l <;> simp [layout, Node.layout] at h
    | valueList | scalarList => simp [layout, Node.layout, Piece.hole_not_mem_listed] at h
    | _ => simp [layout, Node.layout] at h
  | select s => simp [layout, Select.layout, Piece.hole_not_mem_listed] at h
  | query q =>
    obtain ⟨s, ns, js, c, l⟩ := q
    cases c <;> simp [layout, Query.layout, Piece.hole_not_mem_listed, clause] at h
  | join j =>
    obtain ⟨k, t, c⟩ := j
    cases c <;> simp [layout, Join.layout, clause] at h
  | raw r => exact absurd h (Piece.hole_not_mem_alternating _ _)
  | scalar w =>
    simp [layout] at h
    rw [h]

/-- The scalar of a part that is one. -/
def scalar? : Part → Option Scalar
  | .scalar v => some v
  | .node _ | .select _ | .query _ | .join _ | .raw _ => none

theorem hole_not_mem_layout {a : Part} (h : a.scalar? = none) (v : Scalar) :
    .token (.hole v) ∉ a.layout := by
  intro hv
  rw [eq_scalar_of_hole_mem_layout hv] at h
  cases h

theorem scalars_pieces {pieces : List Piece} (h : ∀ v, .token (.hole v) ∉ pieces) :
    Token.scalars (pieces.flatMap Piece.tokens) =
      (pieces.filterMap Piece.part?).flatMap fun b => Token.scalars b.tokens := by
  induction pieces with
  | nil => rfl
  | cons x rest ih =>
    have hRest := ih fun v hv => h v (List.mem_cons_of_mem x hv)
    rw [List.flatMap_cons, Token.scalars_append, hRest]
    cases x with
    | token t =>
      cases t with
      | text s | name s => rfl
      | hole v => exact absurd List.mem_cons_self (h v)
    | part b => rfl

/-- The scalars of a part are its own and those of the parts directly below it. -/
theorem scalars_tokens (a : Part) :
    Token.scalars a.tokens =
      a.scalar?.toList ++ a.children.flatMap fun b => Token.scalars b.tokens := by
  rw [tokens_eq]
  cases a with
  | scalar v => rfl
  | query q =>
    have hLayout : Token.scalars ((Part.query q).layout.flatMap Piece.tokens) = _ :=
      scalars_pieces (hole_not_mem_layout rfl)
    simp only [enclose, Token.scalars_append, hLayout]
    simp [scalar?, children]
  | node | select | join | raw => exact scalars_pieces (hole_not_mem_layout rfl)

theorem eq_scalar_of_scalar? {a : Part} {v : Scalar} (h : a.scalar? = some v) : a = scalar v := by
  cases a <;> simp_all [scalar?]

/-- The scalars of a part, those of the parts below it included. -/
def leaves (a : Part) : List Scalar := a.parts.filterMap scalar?

@[simp] theorem leaves_scalar (v : Scalar) : (Part.scalar v).leaves = [v] := by
  rw [leaves, parts_eq]
  rfl

/-- The leaves of a part that is no scalar are those of the parts directly below it. -/
theorem leaves_eq_flatMap {a : Part} (h : a.scalar? = none) :
    a.leaves = a.children.flatMap leaves := by
  rw [leaves, parts_eq, List.filterMap_cons, h, List.filterMap_flatMap]
  rfl

theorem leaves_subset {a b : Part} (h : .part b ∈ a.layout) : b.leaves ⊆ a.leaves := by
  intro v hv
  obtain ⟨c, hc, hv⟩ := List.mem_filterMap.mp hv
  exact List.mem_filterMap.mpr ⟨c, mem_parts_of_mem_layout h hc, hv⟩

/-- What holds of the scalars of a part, and of a part whenever it holds of the parts directly below
it, holds of the part itself. -/
theorem of_leaves {P : Part → Prop}
    (step : ∀ a, a.scalar? = none → (∀ b, .part b ∈ a.layout → P b) → P a) {a : Part}
    (h : ∀ v ∈ a.leaves, P (.scalar v)) : P a := by
  induction a using Part.induction with
  | step a ih =>
    cases hScalar : a.scalar? with
    | some v =>
      obtain rfl := eq_scalar_of_scalar? hScalar
      exact h v (by simp)
    | none => exact step a hScalar fun b hb => ih b hb fun v hv => h v (leaves_subset hb hv)

/-- The leaves of a part are the scalars of its holes. -/
theorem leaves_eq (a : Part) : a.leaves = Token.scalars a.tokens := by
  induction a using Part.induction with
  | step a ih =>
    rw [scalars_tokens]
    cases hScalar : a.scalar? with
    | some v =>
      obtain rfl := eq_scalar_of_scalar? hScalar
      exact leaves_scalar v
    | none =>
      rw [leaves_eq_flatMap hScalar]
      exact List.flatMap_congr fun b hb => ih b (mem_children.mp hb)

end Part

def Query.leaves (q : Query) : List Scalar := (Part.query q).leaves

def Node.leaves (n : Node) : List Scalar := (Part.node n).leaves

/-- The leaves of a tree are what a statement of it binds. -/
theorem Query.leaves_eq (q : Query) : q.leaves = Token.scalars q.tokens := by
  rw [leaves, Part.leaves_eq, Part.tokens_eq]
  simp [Part.enclose, tokens, Part.layout]

/-! ### Positions -/

namespace Part

/-- The part at a position. -/
def at? : Part → List Nat → Option Part
  | a, [] => some a
  | a, i :: path => a.children[i]?.bind fun b => b.at? path

/-- The scalar at a position. -/
def scalarAt? (a : Part) (path : List Nat) : Option Scalar := (a.at? path).bind scalar?

end Part

/-- Entries at positions below the parts of a list, the first of which has the number `i`. -/
def numbered (i : Nat) : List (List (List Nat × Scalar)) → List (List Nat × Scalar)
  | [] => []
  | entries :: rest => entries.map (fun x => (i :: x.1, x.2)) ++ numbered (i + 1) rest

section Numbered

variable {i : Nat} {below : List (List (List Nat × Scalar))}

theorem map_snd_numbered :
    (numbered i below).map Prod.snd = below.flatMap fun entries => entries.map Prod.snd := by
  induction below generalizing i with
  | nil => rfl
  | cons entries rest ih =>
    rw [numbered, List.map_append, List.map_map, ih, List.flatMap_cons]
    rfl

theorem mem_numbered {path : List Nat} {v : Scalar} (h : (path, v) ∈ numbered i below) :
    ∃ j entries rest,
      below[j]? = some entries ∧ path = (i + j) :: rest ∧ (rest, v) ∈ entries := by
  induction below generalizing i with
  | nil => cases h
  | cons entries below ih =>
    rcases List.mem_append.mp h with h | h
    · obtain ⟨⟨rest, w⟩, hx, hEq⟩ := List.mem_map.mp h
      cases hEq
      exact ⟨0, entries, rest, rfl, rfl, hx⟩
    · obtain ⟨j, entries', rest, hj, rfl, hx⟩ := ih h
      exact ⟨j + 1, entries', rest, hj, by congr 1; omega, hx⟩

theorem mem_map_fst_numbered {path : List Nat} (h : path ∈ (numbered i below).map Prod.fst) :
    ∃ j rest, path = (i + j) :: rest := by
  obtain ⟨⟨path', v⟩, hx, rfl⟩ := List.mem_map.mp h
  obtain ⟨j, _, rest, _, hPath, _⟩ := mem_numbered hx
  exact ⟨j, rest, hPath⟩

/-- Positions below different parts begin with different numbers. -/
theorem nodup_numbered (h : ∀ entries ∈ below, (entries.map Prod.fst).Nodup) :
    ((numbered i below).map Prod.fst).Nodup := by
  induction below generalizing i with
  | nil => exact List.nodup_nil
  | cons entries below ih =>
    have hFirst : (entries.map fun x => (i :: x.1, x.2)).map Prod.fst =
        (entries.map Prod.fst).map (i :: ·) := by
      rw [List.map_map, List.map_map]
      rfl
    rw [numbered, List.map_append, hFirst, List.nodup_append]
    refine ⟨?_, ih fun l hl => h l (List.mem_cons_of_mem entries hl), ?_⟩
    · exact (h entries List.mem_cons_self).map List.cons_injective
    · intro path hPath path' hPath' hEq
      obtain ⟨rest, _, rfl⟩ := List.mem_map.mp hPath
      obtain ⟨j, rest', rfl⟩ := mem_map_fst_numbered hPath'
      have := List.head_eq_of_cons_eq hEq
      omega

theorem numbered_map (f : Scalar → Scalar) :
    numbered i (below.map (List.map (Prod.map id f))) = (numbered i below).map (Prod.map id f) := by
  induction below generalizing i with
  | nil => rfl
  | cons entries below ih =>
    rw [List.map_cons, numbered, numbered, ih, List.map_append, List.map_map, List.map_map]
    rfl

end Numbered

namespace Part

/-- The scalars of a part with their positions, in the order of a visit. -/
def placed (a : Part) : List (List Nat × Scalar) :=
  a.scalar?.toList.map (fun v => ([], v)) ++
    numbered 0 (a.children.attach.map fun ⟨b, _⟩ => b.placed)
termination_by sizeOf a
decreasing_by exact sizeOf_lt_of_part_mem_layout (mem_children.mp ‹_›)

theorem placed_eq (a : Part) : a.placed =
    a.scalar?.toList.map (fun v => ([], v)) ++ numbered 0 (a.children.map placed) := by
  rw [placed, List.map_subtype (g := placed) (fun _ _ => rfl), List.unattach_attach]

/-- Without their positions, the placed scalars are those of the holes. -/
theorem map_snd_placed (a : Part) : a.placed.map Prod.snd = Token.scalars a.tokens := by
  induction a using Part.induction with
  | step a ih =>
    rw [placed_eq, scalars_tokens, List.map_append, List.map_map, map_snd_numbered,
      List.flatMap_map]
    congr 1
    · cases a <;> rfl
    · exact List.flatMap_congr fun b hb => ih b (mem_children.mp hb)

theorem scalarAt?_of_mem_placed {a : Part} :
    ∀ {path : List Nat} {v : Scalar}, (path, v) ∈ a.placed → a.scalarAt? path = some v := by
  induction a using Part.induction with
  | step a ih =>
    intro path v h
    rw [placed_eq] at h
    rcases List.mem_append.mp h with h | h
    · obtain ⟨w, hw, hEq⟩ := List.mem_map.mp h
      cases hEq
      exact Option.mem_toList.mp hw
    · obtain ⟨j, entries, rest, hj, rfl, hx⟩ := mem_numbered h
      obtain ⟨b, hb, rfl⟩ := Option.map_eq_some_iff.mp (List.getElem?_map.symm.trans hj)
      have hBelow := ih b (mem_children.mp (List.mem_of_getElem? hb)) hx
      rw [scalarAt?, Nat.zero_add, at?, hb]
      exact hBelow

theorem nodup_placed (a : Part) : (a.placed.map Prod.fst).Nodup := by
  induction a using Part.induction with
  | step a ih =>
    have hBelow : ((numbered 0 (a.children.map placed)).map Prod.fst).Nodup := by
      refine nodup_numbered fun entries h => ?_
      obtain ⟨b, hb, rfl⟩ := List.mem_map.mp h
      exact ih b (mem_children.mp hb)
    rw [placed_eq, List.map_append, List.nodup_append]
    refine ⟨?_, hBelow, ?_⟩
    · cases a <;> simp [scalar?]
    · -- The part itself is at the empty position, and what is below it is not.
      intro path hPath path' hPath' hEq
      obtain ⟨j, rest, rfl⟩ := mem_map_fst_numbered hPath'
      simp [hEq] at hPath

theorem placed_relabel (ρ : Relabeling) (a : Part) :
    (a.relabel ρ).placed = a.placed.map (Prod.map id ρ.scalars) := by
  induction a using Part.induction with
  | step a ih =>
    rw [placed_eq, placed_eq, children_relabel, List.map_append, ← numbered_map, List.map_map,
      List.map_map, List.map_map]
    congr 1
    · cases a <;> rfl
    · congr 1
      exact List.map_congr_left fun b hb => ih b (mem_children.mp hb)

end Part

namespace Query

/-- The tree with nothing at the place of every scalar: what it is but for its scalars. -/
def shape (q : Query) : Query := q.relabel { scalars := fun _ => .null }

/-- The scalar at a position of a tree. -/
def scalarAt? (q : Query) (path : List Nat) : Option Scalar := (Part.query q).scalarAt? path

/-- The positions of the scalars of a tree, in the order of a visit. -/
def places (q : Query) : List (List Nat) := (Part.query q).placed.map Prod.fst

theorem firstFault?_shape (q : Query) : q.shape.firstFault? = q.firstFault? :=
  q.firstFault?_relabel _

theorem render_shape (d : Dialect) (q : Query) :
    Token.render d 0 q.shape.tokens = Token.render d 0 q.tokens := by
  rw [shape, tokens_relabel, Token.render_relabel]

theorem places_shape (q : Query) : q.shape.places = q.places := by
  have hPlaced : (Part.query q.shape).placed = _ :=
    Part.placed_relabel { scalars := fun _ => .null } (.query q)
  rw [places, hPlaced, List.map_map]
  rfl

theorem scalars_tokens (q : Query) :
    (Token.scalars q.tokens).map some = q.places.map q.scalarAt? := by
  have hPlaced : (Part.query q).placed.map Prod.snd = Token.scalars q.tokens := by
    rw [Part.map_snd_placed, Part.tokens_eq]
    simp [Part.enclose, tokens, Part.layout]
  rw [← hPlaced, places, List.map_map, List.map_map]
  exact List.map_congr_left fun x hx => (Part.scalarAt?_of_mem_placed hx).symm

/-- Trees of one shape have statements of one text, or fail with one error.  Their bindings are the
scalars at the same positions, a different position for each binding. -/
theorem compile_of_shape_eq (d : Dialect) {q q' : Query} (h : q.shape = q'.shape) :
    (∃ e, q.compile d = .error e ∧ q'.compile d = .error e) ∨
    ∃ s s', q.compile d = .ok s ∧ q'.compile d = .ok s' ∧ s.sql = s'.sql ∧
      s.bindings.length = s'.bindings.length ∧
      ∃ places : List (List Nat), places.Nodup ∧
        s.bindings.map some = places.map q.scalarAt? ∧
        s'.bindings.map some = places.map q'.scalarAt? := by
  have hFault : q'.firstFault? = q.firstFault? := by
    rw [← firstFault?_shape, ← h, firstFault?_shape]
  cases hq : q.firstFault? with
  | some e => exact .inl ⟨e, compile_of_fault d hq, compile_of_fault d (hFault.trans hq)⟩
  | none =>
    have hSql : Token.render d 0 q.tokens = Token.render d 0 q'.tokens := by
      rw [← render_shape, h, render_shape]
    have hPlaces : q'.places = q.places := by rw [← places_shape, ← h, places_shape]
    have hScalars := q.scalars_tokens
    have hScalars' := q'.scalars_tokens
    rw [hPlaces] at hScalars'
    have hLength : (Token.scalars q.tokens).length = (Token.scalars q'.tokens).length := by
      rw [← List.length_map some, hScalars, List.length_map, ← List.length_map q'.scalarAt?,
        ← hScalars', List.length_map]
    exact .inr ⟨_, _, compile_of_fault_none d hq, compile_of_fault_none d (hFault.trans hq), hSql,
      hLength, q.places, Part.nodup_placed _, hScalars, hScalars'⟩

/-- The visits of a customer in some months. -/
def visitsIn (customer : Scalar) (months : List Scalar) : Query where
  sources := [.query {
    sources := [.table none "visits"]
    condition := some (.binaryFilter (.column "visits" "month") "in" (.scalarList months)) }]
  condition := some (.raw ⟨["customer = ", ""], [.value customer]⟩)

def plainVisits : Query := visitsIn (.int 7) [.int 1, .null]

def oddVisits : Query := visitsIn (.string "' or 1 = 1") [.bool true, .date "2024-02-30"]

theorem compile_of_shape_eq_visits :
    plainVisits.shape = oddVisits.shape ∧
    ∃ s s', plainVisits.compile .standard = .ok s ∧ oddVisits.compile .standard = .ok s' ∧
      s.sql = s'.sql ∧ s.bindings.length = s'.bindings.length ∧
      ∃ places : List (List Nat), places.Nodup ∧
        s.bindings.map some = places.map plainVisits.scalarAt? ∧
        s'.bindings.map some = places.map oddVisits.scalarAt? := by
  have hShape : plainVisits.shape = oddVisits.shape := rfl
  have hOk : (plainVisits.compile .standard).isOk = true := by cbv
  refine ⟨hShape, ?_⟩
  rcases compile_of_shape_eq .standard hShape with ⟨e, he, -⟩ | hSame
  · rw [he] at hOk
    cases hOk
  · exact hSame

end Query

end QueryTree
