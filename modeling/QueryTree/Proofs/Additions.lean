import QueryTree.Proofs.Layout

/-! What a visit adds.  A step of a compilation extends the text and the bindings, and what it adds
depends on the place only through the number of bindings and whether there is a query around it
(`Emission.Framed`); so what a node adds can be told by visiting it alone.  A `Stencil` is text with
holes: emitting nodes into its holes writes the text with what each node adds in its hole, every
node being visited with the bindings that the nodes before it have left. -/

namespace QueryTree

/-- What a step adds to the progress, and its error if it fails. -/
structure Addition where
  text : String := ""
  values : List Scalar := []
  failure : Option Error := none

/-- What two steps add together; after a failure the second adds nothing. -/
def Addition.andThen (a b : Addition) : Addition :=
  match a.failure with
  | some _ => a
  | none => { text := a.text ++ b.text, values := a.values ++ b.values, failure := b.failure }

namespace Progress

/-- The progress with what a step adds. -/
def extend (p : Progress) (a : Addition) : Progress :=
  { p with sql := p.sql ++ a.text, bindings := p.bindings ++ a.values.toArray }

/-- Whether there is a query around the place. -/
def enclosed (p : Progress) : Bool := 0 < p.depth

@[simp] theorem extend_enclosed (p : Progress) (a : Addition) :
    (p.extend a).enclosed = p.enclosed := rfl

@[simp] theorem size_extend (p : Progress) (a : Addition) :
    (p.extend a).bindings.size = p.bindings.size + a.values.length := by
  simp [extend]

theorem extend_extend (p : Progress) (a b : Addition) :
    (p.extend a).extend b =
      p.extend { text := a.text ++ b.text, values := a.values ++ b.values } := by
  simp [extend, String.append_assoc]

end Progress

namespace Emission

/-- A step only extends the progress, by what depends on the number of bindings and on whether there
is a query around the place. -/
def Framed (step : Emission) : Prop :=
  ∃ add : Nat → Bool → Addition, ∀ p : Progress,
    step p = (p.extend (add p.bindings.size p.enclosed), (add p.bindings.size p.enclosed).failure)

/-- What a step adds when it starts with the bindings and the depth of a progress. -/
def adds (step : Emission) (p : Progress) : Addition :=
  let (after, failure) := step { p with sql := "" }
  { text := after.sql, values := after.bindings.toList.drop p.bindings.size, failure }

theorem adds_eq {step : Emission} {add : Nat → Bool → Addition}
    (h : ∀ p : Progress, step p = (p.extend (add p.bindings.size p.enclosed),
      (add p.bindings.size p.enclosed).failure)) (p : Progress) :
    step.adds p = add p.bindings.size p.enclosed := by
  simp [adds, h, Progress.extend, Progress.enclosed]

theorem Framed.apply {step : Emission} (h : Framed step) (p : Progress) :
    step p = (p.extend (step.adds p), (step.adds p).failure) := by
  obtain ⟨add, hAdd⟩ := h
  rw [adds_eq hAdd, hAdd]

/-- Whatever a step comes to, it ends on the level on which it began. -/
theorem Framed.depth_eq {step : Emission} (h : Framed step) (p : Progress) :
    (step p).1.depth = p.depth := by
  rw [h.apply p]
  rfl

theorem Framed.adds_congr {step : Emission} (h : Framed step) {p p' : Progress}
    (hSize : p.bindings.size = p'.bindings.size) (hEnclosed : p.enclosed = p'.enclosed) :
    step.adds p = step.adds p' := by
  obtain ⟨add, hAdd⟩ := h
  rw [adds_eq hAdd, adds_eq hAdd, hSize, hEnclosed]

namespace Framed

variable {first second body : Emission}

theorem nothing : Framed Emission.nothing :=
  ⟨fun _ _ => {}, fun p => by simp [Emission.nothing, Progress.extend]⟩

theorem fail (e : Error) : Framed (Emission.fail e) :=
  ⟨fun _ _ => { failure := some e }, fun p => by simp [Emission.fail, Progress.extend]⟩

theorem token (d : Dialect) (t : Token) : Framed (t.emit d) := by
  cases t with
  | text s => exact ⟨fun _ _ => { text := s }, fun p => by
      simp [Token.emit, Emission.text, Progress.extend]⟩
  | name s => exact ⟨fun _ _ => { text := d.quote.toString ++ s ++ d.quote.toString }, fun p => by
      simp [Token.emit, Emission.name, Emission.text, Progress.extend]⟩
  | hole v => exact ⟨fun count _ => { text := d.placeholder count, values := [v] }, fun p => by
      simp [Token.emit, Emission.bind, Progress.extend]⟩

/-- The second step starts with the bindings that the first has left. -/
theorem append (h : Framed first) (h' : Framed second) : Framed (first ++ second) := by
  obtain ⟨add, hAdd⟩ := h
  obtain ⟨add', hAdd'⟩ := h'
  refine ⟨fun count enclosed => (add count enclosed).andThen
    (add' (count + (add count enclosed).values.length) enclosed), fun p => ?_⟩
  have hFirst := hAdd p
  cases hFailure : (add p.bindings.size p.enclosed).failure with
  | some e =>
    rw [hFailure] at hFirst
    rw [append_apply_of_fail hFirst]
    simp only [Addition.andThen, hFailure]
  | none =>
    rw [hFailure] at hFirst
    rw [append_apply_of_ok hFirst, hAdd', Progress.extend_extend]
    simp only [Addition.andThen, hFailure, Progress.size_extend, Progress.extend_enclosed]
    rfl

theorem nested (h : Framed body) : Framed (Emission.nested body) := by
  obtain ⟨add, hAdd⟩ := h
  refine ⟨fun count enclosed =>
    let a := add count true
    if enclosed then { a with text := "(" ++ a.text ++ ")" } else a, fun p => ?_⟩
  by_cases hDepth : 0 < p.depth <;>
    simp [Emission.nested, hAdd, hDepth, Progress.extend, Progress.enclosed, String.append_assoc]

end Framed

end Emission

open Emission (Framed)

theorem emitPieces_framed_of {d : Dialect} {pieces : List Piece}
    (h : ∀ b, .part b ∈ pieces → Framed (b.emit d)) : Framed (emitPieces d pieces) := by
  induction pieces with
  | nil => exact .nothing
  | cons x rest ih =>
    have hRest := ih fun b hb => h b (List.mem_cons_of_mem x hb)
    cases x with
    | token t => exact (Framed.token d t).append hRest
    | part a => exact (h a List.mem_cons_self).append hRest

theorem Part.framed (d : Dialect) (a : Part) : Framed (a.emit d) := by
  induction a using Part.induction with
  | step a ih =>
    cases h : a.fault? with
    | some e =>
      rw [emit_of_fault d h]
      exact .fail e
    | none =>
      rw [emit_of_fault_none d h]
      have hLayout := emitPieces_framed_of ih
      cases a with
      | query q => exact hLayout.nested
      | node | select | join | raw | scalar => exact hLayout

theorem Node.framed (d : Dialect) (n : Node) : Framed (n.emit d) := Part.framed d (.node n)

theorem emitPieces_framed (d : Dialect) (pieces : List Piece) : Framed (emitPieces d pieces) :=
  emitPieces_framed_of fun b _ => b.framed d

/-! ### Nodes in turn -/

/-- What each of some nodes adds when they are visited one after the other, or the error of the
first that fails.  Every node is visited with the bindings that those before it have left. -/
def visitInTurn (d : Dialect) (p : Progress) : List Node → Except Error (List Addition)
  | [] => .ok []
  | n :: ns =>
    let a := (n.emit d).adds p
    match a.failure with
    | some e => .error e
    | none => (visitInTurn d (p.extend a) ns).map (a :: ·)

/-- The text so far plays no part. -/
theorem visitInTurn_sql (d : Dialect) (p : Progress) (s : String) (ns : List Node) :
    visitInTurn d { p with sql := s } ns = visitInTurn d p ns := by
  induction ns generalizing p s with
  | nil => rfl
  | cons n ns ih =>
    have hRest : ∀ a, visitInTurn d (({ p with sql := s } : Progress).extend a) ns =
        visitInTurn d (p.extend a) ns := fun a => ih (p.extend a) (s ++ a.text)
    simp only [visitInTurn, hRest]
    rfl

/-- Text with holes. -/
abbrev Stencil := List (Option String)

namespace Stencil

def holes (stencil : Stencil) : Nat := stencil.countP Option.isNone

/-- The text of a stencil with texts in its holes, from left to right. -/
def fill : Stencil → List String → String
  | [], _ => ""
  | some s :: rest, texts => s ++ fill rest texts
  | none :: rest, [] => fill rest []
  | none :: rest, text :: texts => text ++ fill rest texts

/-- Writes the text of a stencil and visits nodes in its holes, from left to right. -/
def emit (d : Dialect) : Stencil → List Node → Emission
  | [], _ => Emission.nothing
  | some s :: rest, ns => Emission.text s ++ emit d rest ns
  | none :: rest, [] => emit d rest []
  | none :: rest, n :: ns => n.emit d ++ emit d rest ns

variable {d : Dialect}

@[simp] theorem holes_nil : holes [] = 0 := rfl

@[simp] theorem holes_some (s : String) (rest : Stencil) :
    holes (some s :: rest) = holes rest := rfl

@[simp] theorem holes_none (rest : Stencil) : holes (none :: rest) = holes rest + 1 :=
  List.countP_cons_of_pos rfl

@[simp] theorem holes_append (first second : Stencil) :
    holes (first ++ second) = holes first + holes second := List.countP_append

theorem emit_append {first second : Stencil} {ns ms : List Node} (h : first.holes = ns.length) :
    emit d (first ++ second) (ns ++ ms) = emit d first ns ++ emit d second ms := by
  induction first generalizing ns with
  | nil =>
    obtain rfl := List.length_eq_zero_iff.mp h.symm
    rfl
  | cons x rest ih =>
    cases x with
    | some s => rw [List.cons_append, emit, emit, ih h, Emission.append_assoc]
    | none =>
      rw [holes_none] at h
      cases ns with
      | nil => cases h
      | cons n ns =>
        rw [List.cons_append, List.cons_append, emit, emit, ih (Nat.succ.inj h),
          Emission.append_assoc]

/-- A step writes a stencil with what each node adds in its hole; it fails as soon as the visit of
a node does, with the error of that node. -/
structure FilledBy (stencil : Stencil) (d : Dialect) (ns : List Node) (step : Emission)
    (p : Progress) : Prop where
  fails_iff : ∀ e, (step p).2 = some e ↔ visitInTurn d p ns = .error e
  writes : ∀ added, visitInTurn d p ns = .ok added → step p = ({ p with
    sql := p.sql ++ stencil.fill (added.map Addition.text)
    bindings := p.bindings ++ (added.flatMap Addition.values).toArray }, none)

namespace FilledBy

variable {rest : Stencil} {ns : List Node} {p : Progress} {step : Emission}

theorem text {s : String} (h : FilledBy rest d ns step { p with sql := p.sql ++ s }) :
    FilledBy (some s :: rest) d ns (Emission.text s ++ step) p := by
  have hText : Emission.text s p = ({ p with sql := p.sql ++ s }, none) := rfl
  constructor
  · intro e
    rw [Emission.append_apply_of_ok hText, h.fails_iff, visitInTurn_sql]
  · intro added hAdded
    rw [Emission.append_apply_of_ok hText, h.writes added ((visitInTurn_sql d p _ ns).trans hAdded)]
    simp [fill, String.append_assoc]

theorem node {n : Node} (h : FilledBy rest d ns step (p.extend ((n.emit d).adds p))) :
    FilledBy (none :: rest) d (n :: ns) (n.emit d ++ step) p := by
  have hNode := (n.framed d).apply p
  cases hFailure : ((n.emit d).adds p).failure with
  | some e =>
    rw [hFailure] at hNode
    have hTurn : visitInTurn d p (n :: ns) = .error e := by simp only [visitInTurn, hFailure]
    constructor
    · intro e'
      rw [Emission.append_apply_of_fail hNode, hTurn, Option.some.injEq, Except.error.injEq]
    · intro added hAdded
      rw [hTurn] at hAdded
      cases hAdded
  | none =>
    rw [hFailure] at hNode
    have hTurn : visitInTurn d p (n :: ns) =
        (visitInTurn d (p.extend ((n.emit d).adds p)) ns).map ((n.emit d).adds p :: ·) := by
      simp only [visitInTurn, hFailure]
    constructor
    · intro e
      rw [Emission.append_apply_of_ok hNode, h.fails_iff, hTurn]
      cases visitInTurn d (p.extend ((n.emit d).adds p)) ns <;> simp [Except.map]
    · intro added hAdded
      cases hMore : visitInTurn d (p.extend ((n.emit d).adds p)) ns with
      | error e =>
        rw [hTurn, hMore] at hAdded
        cases hAdded
      | ok more =>
        rw [hTurn, hMore] at hAdded
        cases hAdded
        rw [Emission.append_apply_of_ok hNode, h.writes more hMore]
        simp [fill, Progress.extend, String.append_assoc]

end FilledBy

/-- Nodes that are emitted into the holes of a stencil fill it. -/
theorem emit_filledBy {stencil : Stencil} {ns : List Node} (h : stencil.holes = ns.length)
    (p : Progress) : FilledBy stencil d ns (stencil.emit d ns) p := by
  induction stencil generalizing ns p with
  | nil =>
    obtain rfl := List.length_eq_zero_iff.mp h.symm
    constructor
    · intro e
      simp [emit, visitInTurn, Emission.nothing]
    · intro added hAdded
      cases hAdded
      simp [emit, fill, Emission.nothing]
  | cons x rest ih =>
    cases x with
    | some s => exact .text (ih h _)
    | none =>
      rw [holes_none] at h
      cases ns with
      | nil => cases h
      | cons n ns => exact .node (ih (Nat.succ.inj h) _)

end Stencil

end QueryTree
