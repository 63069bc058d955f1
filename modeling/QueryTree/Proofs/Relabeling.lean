import Mathlib.Data.List.Basic
import QueryTree.Proofs.Tokens

/-! Changes of a tree that leave its structure alone.  A `Relabeling` says what each name and each
scalar becomes.  Nothing else of a tree changes, so that a relabeling acts on every layout entry by
entry (`Part.layout_relabel`); it then acts on the tokens one by one, and keeps the first fault. -/

namespace QueryTree

/-- What names and scalars become; those that are not given stay as they are. -/
structure Relabeling where
  names : String → String := id
  scalars : Scalar → Scalar := id

mutual

/-- Every name and every scalar becomes what `ρ` makes of it, and nothing else changes. -/
def Node.relabel (ρ : Relabeling) : Node → Node
  | .identifier s => .identifier (ρ.names s)
  | .reference t c => .reference (t.relabel ρ) (c.relabel ρ)
  | .table s t => .table (s.map ρ.names) (ρ.names t)
  | .aliased n s => .aliased (n.relabel ρ) (ρ.names s)
  | .selection n => .selection (n.relabel ρ)
  | .selectAll => .selectAll
  | .select s => .select (s.relabel ρ)
  | .query q => .query (q.relabel ρ)
  | .filter l o r => .filter (relabelOption ρ l) (o.relabel ρ) (r.relabel ρ)
  | .and l r => .and (l.relabel ρ) (r.relabel ρ)
  | .or l r => .or (l.relabel ρ) (r.relabel ρ)
  | .parens n => .parens (n.relabel ρ)
  | .value v => .value (ρ.scalars v)
  | .valueList ns => .valueList (relabelNodes ρ ns)
  | .scalarList vs => .scalarList (vs.map ρ.scalars)
  | .join j => .join (j.relabel ρ)
  | .operator s => .operator s
  | .raw r => .raw (r.relabel ρ)

def Select.relabel (ρ : Relabeling) : Select → Select
  | ⟨ns, os, d⟩ => ⟨relabelNodes ρ ns, relabelNodes ρ os, d⟩

def Query.relabel (ρ : Relabeling) : Query → Query
  | ⟨s, ns, js, c, l⟩ =>
    ⟨relabelSelect ρ s, relabelNodes ρ ns, relabelJoins ρ js, relabelOption ρ c, l⟩

def Join.relabel (ρ : Relabeling) : Join → Join
  | ⟨k, t, c⟩ => ⟨k, t.relabel ρ, relabelOption ρ c⟩

def Raw.relabel (ρ : Relabeling) : Raw → Raw
  | ⟨fs, ps⟩ => ⟨fs, relabelNodes ρ ps⟩

def relabelNodes (ρ : Relabeling) : List Node → List Node
  | [] => []
  | n :: ns => n.relabel ρ :: relabelNodes ρ ns

def relabelJoins (ρ : Relabeling) : List Join → List Join
  | [] => []
  | j :: js => j.relabel ρ :: relabelJoins ρ js

def relabelOption (ρ : Relabeling) : Option Node → Option Node
  | none => none
  | some n => some (n.relabel ρ)

def relabelSelect (ρ : Relabeling) : Option Select → Option Select
  | none => none
  | some s => some (s.relabel ρ)

end

def Part.relabel (ρ : Relabeling) : Part → Part
  | .node n => .node (n.relabel ρ)
  | .select s => .select (s.relabel ρ)
  | .query q => .query (q.relabel ρ)
  | .join j => .join (j.relabel ρ)
  | .raw r => .raw (r.relabel ρ)
  | .scalar v => .scalar (ρ.scalars v)

def Token.relabel (ρ : Relabeling) : Token → Token
  | .text s => .text s
  | .name s => .name (ρ.names s)
  | .hole v => .hole (ρ.scalars v)

def Piece.relabel (ρ : Relabeling) : Piece → Piece
  | .token t => .token (t.relabel ρ)
  | .part a => .part (a.relabel ρ)

/-! ### The identity -/

mutual

theorem Node.relabel_id : (n : Node) → n.relabel {} = n
  | .identifier _ | .selectAll | .value _ | .operator _ => rfl
  | .table s _ => by cases s <;> rfl
  | .scalarList vs => by rw [Node.relabel, List.map_id]
  | .valueList ns => by rw [Node.relabel, relabelNodes_id]
  | .reference l r | .and l r | .or l r => by rw [Node.relabel, l.relabel_id, r.relabel_id]
  | .aliased n _ => by
    rw [Node.relabel, n.relabel_id]
    rfl
  | .selection n | .parens n => by rw [Node.relabel, n.relabel_id]
  | .filter l o r => by rw [Node.relabel, relabelOption_id, o.relabel_id, r.relabel_id]
  | .select s => by rw [Node.relabel, s.relabel_id]
  | .query q => by rw [Node.relabel, q.relabel_id]
  | .join j => by rw [Node.relabel, j.relabel_id]
  | .raw r => by rw [Node.relabel, r.relabel_id]

theorem Select.relabel_id : (s : Select) → s.relabel {} = s
  | ⟨ns, os, _⟩ => by rw [Select.relabel, relabelNodes_id ns, relabelNodes_id os]

theorem Query.relabel_id : (q : Query) → q.relabel {} = q
  | ⟨s, ns, js, c, _⟩ => by
    rw [Query.relabel, relabelSelect_id s, relabelNodes_id ns, relabelJoins_id js,
      relabelOption_id c]

theorem Join.relabel_id : (j : Join) → j.relabel {} = j
  | ⟨_, t, c⟩ => by rw [Join.relabel, t.relabel_id, relabelOption_id c]

theorem Raw.relabel_id : (r : Raw) → r.relabel {} = r
  | ⟨_, ps⟩ => by rw [Raw.relabel, relabelNodes_id ps]

theorem relabelNodes_id : (ns : List Node) → relabelNodes {} ns = ns
  | [] => rfl
  | n :: ns => by rw [relabelNodes, n.relabel_id, relabelNodes_id ns]

theorem relabelJoins_id : (js : List Join) → relabelJoins {} js = js
  | [] => rfl
  | j :: js => by rw [relabelJoins, j.relabel_id, relabelJoins_id js]

theorem relabelOption_id : (o : Option Node) → relabelOption {} o = o
  | none => rfl
  | some n => by rw [relabelOption, n.relabel_id]

theorem relabelSelect_id : (o : Option Select) → relabelSelect {} o = o
  | none => rfl
  | some s => by rw [relabelSelect, s.relabel_id]

end

/-! ### Layouts -/

open Piece (text node listed clause alternating)

section Layouts

variable (ρ : Relabeling)

theorem relabelNodes_eq_map (ns : List Node) : relabelNodes ρ ns = ns.map (Node.relabel ρ) := by
  induction ns with
  | nil => rfl
  | cons n ns ih => rw [relabelNodes, ih, List.map_cons]

theorem relabelJoins_eq_map (js : List Join) : relabelJoins ρ js = js.map (Join.relabel ρ) := by
  induction js with
  | nil => rfl
  | cons j js ih => rw [relabelJoins, ih, List.map_cons]

theorem relabelOption_eq_map (n : Option Node) : relabelOption ρ n = n.map (Node.relabel ρ) := by
  cases n <;> rfl

theorem relabelSelect_eq_map (s : Option Select) :
    relabelSelect ρ s = s.map (Select.relabel ρ) := by
  cases s <;> rfl

/-- The commas of a list stay commas. -/
theorem listed_relabel : (pieces : List Piece) →
    listed (pieces.map (Piece.relabel ρ)) = (listed pieces).map (Piece.relabel ρ)
  | [] | [_] => rfl
  | x :: y :: rest => by
    have ih := listed_relabel (y :: rest)
    simp only [listed, List.map_cons, List.intersperse_cons_cons] at ih ⊢
    rw [ih]
    rfl

theorem listed_relabelNodes (ns : List Node) :
    listed ((relabelNodes ρ ns).map node) = (listed (ns.map node)).map (Piece.relabel ρ) := by
  rw [← listed_relabel, relabelNodes_eq_map, List.map_map, List.map_map]
  rfl

theorem clause_relabelOption (keyword : String) (condition : Option Node) :
    clause keyword (relabelOption ρ condition) =
      (clause keyword condition).map (Piece.relabel ρ) := by
  cases condition <;> rfl

theorem alternating_relabelNodes : (fs : List String) → (ns : List Node) →
    alternating fs (relabelNodes ρ ns) = (alternating fs ns).map (Piece.relabel ρ)
  | [], ns => by
    rw [alternating, alternating, relabelNodes_eq_map, List.map_map, List.map_map]
    rfl
  | _ :: _, [] => by simp [alternating, relabelNodes, Piece.relabel, Token.relabel]
  | s :: fs, n :: ns => by
    simp only [relabelNodes, alternating, alternating_relabelNodes fs ns, List.map_cons]
    rfl

theorem Node.layout_relabel (n : Node) :
    (n.relabel ρ).layout = n.layout.map (Piece.relabel ρ) := by
  cases n with
  | table s => cases s <;> rfl
  | filter l => cases l <;> rfl
  | valueList ns =>
    simp only [relabel, layout, listed_relabelNodes, List.map_append]
    rfl
  | scalarList vs =>
    simp only [relabel, layout, List.map_append, List.map_map, ← listed_relabel]
    rfl
  | _ => rfl

theorem Select.layout_relabel (s : Select) :
    (s.relabel ρ).layout = s.layout.map (Piece.relabel ρ) := by
  obtain ⟨ns, os, d⟩ := s
  have hEmpty : (relabelNodes ρ os).isEmpty = os.isEmpty := by cases os <;> rfl
  simp only [relabel, layout, listed_relabelNodes, hEmpty, List.map_append]
  cases os.isEmpty <;> cases d <;> simp [Piece.relabel, Token.relabel]

theorem Query.layout_relabel (q : Query) :
    (q.relabel ρ).layout = q.layout.map (Piece.relabel ρ) := by
  obtain ⟨s, ns, js, c, l⟩ := q
  simp only [relabel, layout, listed_relabelNodes, clause_relabelOption, relabelJoins_eq_map,
    relabelSelect_eq_map, List.map_append, List.flatMap_map, List.map_flatMap]
  cases s <;> cases l <;> rfl

theorem Join.layout_relabel (j : Join) :
    (j.relabel ρ).layout = j.layout.map (Piece.relabel ρ) := by
  obtain ⟨k, t, c⟩ := j
  simp only [relabel, layout, clause_relabelOption, List.map_append]
  rfl

end Layouts

namespace Part

variable (ρ : Relabeling)

/-- A relabeling of a part relabels its layout. -/
theorem layout_relabel (a : Part) : (a.relabel ρ).layout = a.layout.map (Piece.relabel ρ) := by
  cases a with
  | node n => exact n.layout_relabel ρ
  | select s => exact s.layout_relabel ρ
  | query q => exact q.layout_relabel ρ
  | join j => exact j.layout_relabel ρ
  | raw r =>
    obtain ⟨fs, ps⟩ := r
    exact alternating_relabelNodes ρ fs ps
  | scalar v => rfl

theorem fault?_relabel (a : Part) : (a.relabel ρ).fault? = a.fault? := by
  cases a with
  | node | join | scalar => rfl
  | select s =>
    obtain ⟨ns, os, d⟩ := s
    cases ns <;> rfl
  | query q =>
    obtain ⟨s, ns, js, c, l⟩ := q
    cases ns <;> rfl
  | raw r =>
    obtain ⟨fs, ps⟩ := r
    simp only [relabel, Raw.relabel, fault?, relabelNodes_eq_map, List.length_map]

theorem enclose_relabel (a : Part) (inner : List Token) :
    (a.relabel ρ).enclose (inner.map (Token.relabel ρ)) =
      (a.enclose inner).map (Token.relabel ρ) := by
  cases a <;> simp [enclose, relabel, Token.relabel]

theorem children_relabel (a : Part) : (a.relabel ρ).children = a.children.map (relabel ρ) := by
  rw [children, children, layout_relabel, List.filterMap_map, List.map_filterMap]
  congr 1
  funext x
  cases x <;> rfl

theorem flatMap_tokens_relabel_of {pieces : List Piece}
    (h : ∀ b, .part b ∈ pieces → (b.relabel ρ).tokens = b.tokens.map (Token.relabel ρ)) :
    (pieces.map (Piece.relabel ρ)).flatMap Piece.tokens =
      (pieces.flatMap Piece.tokens).map (Token.relabel ρ) := by
  rw [List.flatMap_map, List.map_flatMap]
  refine List.flatMap_congr fun x hx => ?_
  cases x with
  | token t => rfl
  | part b => exact h b hx

theorem tokens_relabel (a : Part) :
    (a.relabel ρ).tokens = a.tokens.map (Token.relabel ρ) := by
  induction a using Part.induction with
  | step a ih =>
    rw [tokens_eq, tokens_eq, layout_relabel, flatMap_tokens_relabel_of ρ ih, enclose_relabel]

theorem parts_relabel (a : Part) : (a.relabel ρ).parts = a.parts.map (relabel ρ) := by
  induction a using Part.induction with
  | step a ih =>
    rw [parts_eq, parts_eq, children_relabel, List.flatMap_map, List.map_cons, List.map_flatMap]
    congr 1
    exact List.flatMap_congr fun b hb => ih b (mem_children.mp hb)

theorem firstFault?_relabel (a : Part) : (a.relabel ρ).firstFault? = a.firstFault? := by
  rw [firstFault?, firstFault?, parts_relabel, List.findSome?_map]
  congr 1
  funext b
  exact b.fault?_relabel ρ

end Part

namespace Query

variable (ρ : Relabeling)

theorem tokens_relabel (q : Query) :
    (q.relabel ρ).tokens = q.tokens.map (Token.relabel ρ) := by
  rw [tokens, q.layout_relabel ρ]
  exact Part.flatMap_tokens_relabel_of ρ fun b _ => b.tokens_relabel ρ

theorem firstFault?_relabel (q : Query) : (q.relabel ρ).firstFault? = q.firstFault? :=
  Part.firstFault?_relabel ρ (.query q)

end Query

end QueryTree
