import QueryTree.Proofs.Layout

/-! A tree as one list of tokens, and a tree as one list of parts.  Both come from the layouts
alone: the tokens of a part are its layout with the tokens of each smaller part in the place of that
part, and its parts are the part itself followed by those of the smaller parts, in the order of a
visit.
`Token.render` writes tokens in a dialect, and `Part.firstFault?` is the error of the first part
that has one. -/

namespace QueryTree

namespace Token

/-- The scalar of a hole. -/
def scalar? : Token → Option Scalar
  | .text _ | .name _ => none
  | .hole v => some v

/-- The scalars of the holes, from left to right. -/
def scalars (tokens : List Token) : List Scalar := tokens.filterMap scalar?

/-- The text of tokens: a name stands between quotes, and holes become placeholders, which are
counted from `index` on. -/
def render (d : Dialect) (index : Nat) : List Token → String
  | [] => ""
  | .text s :: rest => s ++ render d index rest
  | .name s :: rest => d.quote.toString ++ s ++ d.quote.toString ++ render d index rest
  | .hole _ :: rest => d.placeholder index ++ render d (index + 1) rest

@[simp] theorem scalars_nil : scalars [] = [] := rfl

@[simp] theorem scalars_text (s : String) (rest : List Token) :
    scalars (.text s :: rest) = scalars rest := rfl

@[simp] theorem scalars_name (s : String) (rest : List Token) :
    scalars (.name s :: rest) = scalars rest := rfl

@[simp] theorem scalars_hole (v : Scalar) (rest : List Token) :
    scalars (.hole v :: rest) = v :: scalars rest := rfl

@[simp] theorem scalars_append (first second : List Token) :
    scalars (first ++ second) = scalars first ++ scalars second := List.filterMap_append

/-- The placeholders of a second list go on where those of the first have ended. -/
theorem render_append (d : Dialect) (index : Nat) (first second : List Token) :
    render d index (first ++ second) =
      render d index first ++ render d (index + (scalars first).length) second := by
  induction first generalizing index with
  | nil => rw [List.nil_append, render, String.empty_append, scalars_nil, List.length_nil,
      Nat.add_zero]
  | cons t rest ih =>
    cases t with
    | text s => rw [List.cons_append, render, ih, render, scalars_text, String.append_assoc]
    | name s => rw [List.cons_append, render, ih, render, scalars_name, ← String.append_assoc]
    | hole v =>
      have hIndex : index + 1 + (scalars rest).length = index + (scalars rest).length.succ := by
        omega
      rw [List.cons_append, render, ih, render, scalars_hole, List.length_cons, hIndex,
        String.append_assoc]

end Token

/-! ### The tokens of a tree -/

/-- A query stands between parentheses, any other part by itself. -/
def Part.enclose : Part → List Token → List Token
  | .query _, inner => [.text "("] ++ inner ++ [.text ")"]
  | _, inner => inner

/-- The tokens of a part: its layout, with the tokens of each part below it in their place. -/
def Part.tokens (a : Part) : List Token :=
  a.enclose <| a.layout.attach.flatMap fun
    | ⟨.token t, _⟩ => [t]
    | ⟨.part b, _⟩ => b.tokens
termination_by sizeOf a
decreasing_by exact Part.sizeOf_lt_of_part_mem_layout ‹_›

/-- The tokens of an entry of a layout. -/
def Piece.tokens : Piece → List Token
  | .token t => [t]
  | .part a => a.tokens

theorem Part.tokens_eq (a : Part) : a.tokens = a.enclose (a.layout.flatMap Piece.tokens) := by
  rw [Part.tokens, List.flatMap_subtype (g := Piece.tokens), List.unattach_attach]
  intro x _
  cases x <;> rfl

/-- The tokens of a whole statement, around which no parentheses stand. -/
def Query.tokens (q : Query) : List Token := q.layout.flatMap Piece.tokens

/-! ### The parts of a tree -/

namespace Part

/-- A part and all that is below it, each part before the parts below it. -/
def parts (a : Part) : List Part := a :: a.children.attach.flatMap fun ⟨b, _⟩ => b.parts
termination_by sizeOf a
decreasing_by exact sizeOf_lt_of_part_mem_layout (mem_children.mp ‹_›)

theorem parts_eq (a : Part) : a.parts = a :: a.children.flatMap parts := by
  rw [parts, List.flatMap_subtype (g := parts) (fun _ _ => rfl), List.unattach_attach]

theorem mem_parts_self (a : Part) : a ∈ a.parts := by
  rw [parts_eq]
  exact List.mem_cons_self

/-- The parts of what stands in a layout are parts of what the layout belongs to. -/
theorem mem_parts_of_mem_layout {a b c : Part} (hb : .part b ∈ a.layout) (hc : c ∈ b.parts) :
    c ∈ a.parts := by
  rw [parts_eq]
  exact List.mem_cons_of_mem a (List.mem_flatMap.mpr ⟨b, mem_children.mpr hb, hc⟩)

/-- What is directly below one of the parts is one of them. -/
theorem mem_parts_of_mem_children {a b c : Part} (hb : b ∈ a.parts) (hc : c ∈ b.children) :
    c ∈ a.parts := by
  induction a using Part.induction with
  | step a ih =>
    rw [parts_eq, List.mem_cons, List.mem_flatMap] at hb ⊢
    right
    rcases hb with rfl | ⟨e, he, hb⟩
    · refine ⟨c, hc, ?_⟩
      rw [parts_eq]
      exact List.mem_cons_self
    · exact ⟨e, he, ih e (mem_children.mp he) hb⟩

/-- The error of the first part that has one. -/
def firstFault? (a : Part) : Option Error := a.parts.findSome? fault?

end Part

/-- A whole tree as its parts, from the outermost query on. -/
abbrev Query.parts (q : Query) : List Part := (Part.query q).parts

/-- The error of the first part of a tree that has one. -/
abbrev Query.firstFault? (q : Query) : Option Error := (Part.query q).firstFault?

/-- The error of the first part below a layout that has one. -/
def firstFaultOf? : List Piece → Option Error
  | [] => none
  | .token _ :: rest => firstFaultOf? rest
  | .part a :: rest => a.firstFault?.or (firstFaultOf? rest)

theorem firstFaultOf?_append (first second : List Piece) :
    firstFaultOf? (first ++ second) = (firstFaultOf? first).or (firstFaultOf? second) := by
  induction first with
  | nil => rfl
  | cons x rest ih => cases x <;> simp only [List.cons_append, firstFaultOf?, ih, Option.or_assoc]

theorem findSome?_fault?_parts (pieces : List Piece) :
    ((pieces.filterMap Piece.part?).flatMap Part.parts).findSome? Part.fault? =
      firstFaultOf? pieces := by
  induction pieces with
  | nil => rfl
  | cons x rest ih =>
    cases x with
    | token t => exact ih
    | part a =>
      show ((a :: rest.filterMap Piece.part?).flatMap Part.parts).findSome? Part.fault? = _
      rw [List.flatMap_cons, List.findSome?_append, ih]
      rfl

/-- The error of a part itself comes before those below it. -/
theorem Part.firstFault?_eq (a : Part) :
    a.firstFault? = a.fault?.or (firstFaultOf? a.layout) := by
  rw [firstFault?, parts_eq, List.findSome?_cons, children, findSome?_fault?_parts]
  cases a.fault? <;> rfl

end QueryTree
