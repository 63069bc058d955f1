import Mathlib.Data.List.Basic
import QueryTree.Proofs.Tokens

/-! Where the words of a statement come from.  A text token is fixed text of the statement language,
or stands in the tree as it is (`Query.verbatim`); the name tokens are the names of the tree, in the
order in which they are written (`Query.names`). -/

namespace QueryTree

/-- The characters of fixed text: small letters, spaces and punctuation. -/
def isFixed (c : Char) : Bool := c.isLower || [' ', '(', ')', ',', '.', '*'].contains c

/-- The texts of a part itself that are written as they are: an operator, or raw fragments. -/
def Part.verbatim : Part → List String
  | .node (.operator s) => [s]
  | .raw r => r.fragments
  | _ => []

/-- The operator texts and raw fragments of a tree. -/
def Query.verbatim (q : Query) : List String := q.parts.flatMap Part.verbatim

mutual

/-- The names below a node, in the order in which they are written: a schema before its table, a
table before its column, and a fragment before the name it is given. -/
def Node.names : Node → List String
  | .identifier s => [s]
  | .reference t c => t.names ++ c.names
  | .table s t => s.toList ++ [t]
  | .aliased n s => n.names ++ [s]
  | .selection n => n.names
  | .selectAll => []
  | .select s => s.names
  | .query q => q.names
  | .filter l o r => namesOption l ++ o.names ++ r.names
  | .and l r => l.names ++ r.names
  | .or l r => l.names ++ r.names
  | .parens n => n.names
  | .value _ => []
  | .valueList ns => namesNodes ns
  | .scalarList _ => []
  | .join j => j.names
  | .operator _ => []
  | .raw r => r.names

def Select.names : Select → List String
  | ⟨selections, distinctOn, _⟩ => namesNodes distinctOn ++ namesNodes selections

def Query.names : Query → List String
  | ⟨select, sources, joins, condition, _⟩ =>
    namesSelect select ++ namesNodes sources ++ namesJoins joins ++ namesOption condition

def Join.names : Join → List String
  | ⟨_, table, condition⟩ => table.names ++ namesOption condition

def Raw.names : Raw → List String
  | ⟨_, params⟩ => namesNodes params

def namesNodes : List Node → List String
  | [] => []
  | n :: ns => n.names ++ namesNodes ns

def namesJoins : List Join → List String
  | [] => []
  | j :: js => j.names ++ namesJoins js

def namesOption : Option Node → List String
  | none => []
  | some n => n.names

def namesSelect : Option Select → List String
  | none => []
  | some s => s.names

end

def Part.names : Part → List String
  | .node n => n.names
  | .select s => s.names
  | .query q => q.names
  | .join j => j.names
  | .raw r => r.names
  | .scalar _ => []

open Piece (text name node listed clause alternating)

/-! ### Text tokens -/

theorem Piece.text_mem_listed {s : String} {pieces : List Piece}
    (hParts : ∀ x ∈ pieces, ∃ a, x = .part a) (h : text s ∈ listed pieces) : s = ", " := by
  by_cases hs : s = ", "
  · exact hs
  · have hne : text s ≠ text ", " := by simpa using hs
    obtain ⟨a, ha⟩ := hParts _ (mem_of_mem_listed h hne)
    cases ha

theorem Piece.text_mem_alternating {s : String} : {fs : List String} → {ns : List Node} →
    text s ∈ alternating fs ns → s ∈ fs
  | [], _, h => by simp [alternating] at h
  | _ :: _, [], h => by simpa [alternating] using h
  | f :: fs, n :: ns, h => by
    simp only [alternating, List.mem_cons, Piece.token.injEq, Token.text.injEq, reduceCtorEq,
      false_or] at h
    rcases h with rfl | h
    · exact List.mem_cons_self
    · exact List.mem_cons_of_mem f (text_mem_alternating h)

theorem Piece.text_mem_clause {s keyword : String} {condition : Option Node}
    (h : text s ∈ clause keyword condition) : s = keyword := by
  cases condition <;> simp [clause] at h
  exact h

/-- Whether a text has nothing but characters of fixed text. -/
def IsFixedText (s : String) : Prop := s.toList.all isFixed = true

instance (s : String) : Decidable (IsFixedText s) := inferInstanceAs (Decidable (_ = true))

theorem Lock.isFixedText_keyword (l : Lock) : IsFixedText l.keyword := by cases l <;> decide

theorem JoinKind.isFixedText_keyword (k : JoinKind) : IsFixedText k.keyword := by
  cases k <;> decide

theorem Node.text_mem_layout {n : Node} {s : String} (h : text s ∈ n.layout) :
    IsFixedText s ∨ s ∈ (Part.node n).verbatim := by
  cases n with
  | operator t => exact .inr (by simpa [layout, Part.verbatim] using h)
  | identifier | selection | select | query | value | join | raw => simp [layout] at h
  | reference | aliased | selectAll | and | or =>
    simp [layout] at h
    subst h
    exact .inl (by decide)
  | table schema t =>
    cases schema <;> simp [layout] at h
    subst h
    exact .inl (by decide)
  | filter l o r =>
    cases l <;> simp [layout] at h <;> subst h
    all_goals exact .inl (by decide)
  | parens n =>
    simp [layout] at h
    rcases h with rfl | rfl
    all_goals exact .inl (by decide)
  | valueList | scalarList =>
    simp [layout] at h
    rcases h with rfl | h | rfl
    · exact .inl (by decide)
    · rw [Piece.text_mem_listed (by simp) h]
      exact .inl (by decide)
    · exact .inl (by decide)

theorem Select.isFixedText_of_mem_layout {s : Select} {t : String} (h : text t ∈ s.layout) :
    IsFixedText t := by
  obtain ⟨selections, distinctOn, isDistinct⟩ := s
  simp [layout] at h
  rcases h with rfl | ⟨-, rfl | h | rfl⟩ | ⟨-, rfl | rfl⟩ | h
  · decide
  · decide
  · rw [Piece.text_mem_listed (by simp) h]
    decide
  · decide
  · decide
  · decide
  · rw [Piece.text_mem_listed (by simp) h]
    decide

theorem Query.isFixedText_of_mem_layout {q : Query} {t : String} (h : text t ∈ q.layout) :
    IsFixedText t := by
  obtain ⟨select, sources, joins, condition, lock⟩ := q
  simp [layout] at h
  rcases h with ⟨-, rfl⟩ | rfl | h | ⟨-, rfl⟩ | h | ⟨l, -, rfl | rfl⟩
  · decide
  · decide
  · rw [Piece.text_mem_listed (by simp) h]
    decide
  · decide
  · rw [Piece.text_mem_clause h]
    decide
  · decide
  · exact l.isFixedText_keyword

theorem Join.isFixedText_of_mem_layout {j : Join} {t : String} (h : text t ∈ j.layout) :
    IsFixedText t := by
  obtain ⟨kind, table, condition⟩ := j
  simp [layout] at h
  rcases h with rfl | rfl | h
  · exact kind.isFixedText_keyword
  · decide
  · rw [Piece.text_mem_clause h]
    decide

namespace Part

/-- What a part writes as text is fixed, or one of its own texts. -/
theorem text_mem_layout {a : Part} {s : String} (h : text s ∈ a.layout) :
    IsFixedText s ∨ s ∈ a.verbatim := by
  cases a with
  | node n => exact n.text_mem_layout h
  | select t => exact .inl (t.isFixedText_of_mem_layout h)
  | query q => exact .inl (q.isFixedText_of_mem_layout h)
  | join j => exact .inl (j.isFixedText_of_mem_layout h)
  | raw r => exact .inr (Piece.text_mem_alternating h)
  | scalar v => simp [layout] at h

/-- What holds of the parentheses around queries and of every token in a layout holds of all the
tokens of a part. -/
theorem forall_mem_tokens {P : Token → Prop} (hOpen : P (.text "(")) (hClose : P (.text ")"))
    {a : Part} (h : ∀ b ∈ a.parts, ∀ t, .token t ∈ b.layout → P t) : ∀ t ∈ a.tokens, P t := by
  induction a using Part.induction with
  | step a ih =>
    have hInner : ∀ t ∈ a.layout.flatMap Piece.tokens, P t := by
      intro t ht
      obtain ⟨x, hx, ht⟩ := List.mem_flatMap.mp ht
      cases x with
      | token t' =>
        obtain rfl : t = t' := List.mem_singleton.mp ht
        exact h a a.mem_parts_self t hx
      | part b => exact ih b hx (fun c hc => h c (mem_parts_of_mem_layout hx hc)) t ht
    intro t ht
    rw [tokens_eq] at ht
    cases a with
    | query q =>
      simp only [enclose, List.mem_append, List.mem_singleton] at ht
      rcases ht with (rfl | ht) | rfl
      · exact hOpen
      · exact hInner t ht
      · exact hClose
    | node | select | join | raw | scalar => exact hInner t ht

end Part

/-- The text of a statement is fixed, or stands in the tree as it is. -/
theorem Query.text_mem_tokens {q : Query} {s : String} (h : .text s ∈ q.tokens) :
    IsFixedText s ∨ s ∈ q.verbatim := by
  have hAll : ∀ t ∈ (Part.query q).tokens, ∀ s, t = .text s → IsFixedText s ∨ s ∈ q.verbatim := by
    refine Part.forall_mem_tokens ?_ ?_ ?_
    · rintro _ ⟨⟩
      exact .inl (by decide)
    · rintro _ ⟨⟩
      exact .inl (by decide)
    · rintro b hb _ ht s rfl
      refine (Part.text_mem_layout ht).imp_right fun hs => ?_
      exact List.mem_flatMap.mpr ⟨b, hb, hs⟩
  refine hAll _ ?_ s rfl
  rw [Part.tokens_eq, Part.enclose]
  exact List.mem_append_left _ (List.mem_append_right _ h)

/-! ### Name tokens -/

namespace Token

/-- The name of a name token. -/
def name? : Token → Option String
  | .text _ | .hole _ => none
  | .name s => some s

/-- The names of tokens, from left to right. -/
def names (tokens : List Token) : List String := tokens.filterMap name?

@[simp] theorem names_nil : names [] = [] := rfl

@[simp] theorem names_text (s : String) (rest : List Token) :
    names (.text s :: rest) = names rest := rfl

@[simp] theorem names_name (s : String) (rest : List Token) :
    names (.name s :: rest) = s :: names rest := rfl

@[simp] theorem names_hole (v : Scalar) (rest : List Token) :
    names (.hole v :: rest) = names rest := rfl

@[simp] theorem names_append (first second : List Token) :
    names (first ++ second) = names first ++ names second := List.filterMap_append

end Token

/-- The names below an entry of a layout. -/
def Piece.names : Piece → List String
  | .token t => t.name?.toList
  | .part a => a.names

/-- Commas are no names. -/
theorem Piece.names_listed : (pieces : List Piece) →
    (listed pieces).flatMap Piece.names = pieces.flatMap Piece.names
  | [] | [_] => rfl
  | x :: y :: rest => by
    have ih := names_listed (y :: rest)
    simp only [listed] at ih ⊢
    rw [List.intersperse_cons_cons, List.flatMap_cons, List.flatMap_cons, ih]
    rfl

theorem namesNodes_eq (ns : List Node) : namesNodes ns = ns.flatMap Node.names := by
  induction ns with
  | nil => rfl
  | cons n ns ih => rw [namesNodes, ih, List.flatMap_cons]

theorem namesJoins_eq (js : List Join) : namesJoins js = js.flatMap Join.names := by
  induction js with
  | nil => rfl
  | cons j js ih => rw [namesJoins, ih, List.flatMap_cons]

theorem Piece.names_nodes (ns : List Node) :
    (listed (ns.map node)).flatMap Piece.names = namesNodes ns := by
  rw [names_listed, List.flatMap_map, namesNodes_eq]
  rfl

theorem Piece.names_clause (keyword : String) (condition : Option Node) :
    (clause keyword condition).flatMap Piece.names = namesOption condition := by
  cases condition <;> simp [clause, names, Token.name?, namesOption, Part.names]

theorem Piece.names_alternating : (fs : List String) → (ns : List Node) →
    (alternating fs ns).flatMap Piece.names = namesNodes ns
  | [], ns => by
    rw [alternating, List.flatMap_map, namesNodes_eq]
    rfl
  | _ :: _, [] => by
    simp [alternating, namesNodes, names, Token.name?]
  | f :: fs, n :: ns => by
    rw [alternating, List.flatMap_cons, List.flatMap_cons, names_alternating fs ns, namesNodes]
    rfl

theorem Node.names_eq (n : Node) : n.names = n.layout.flatMap Piece.names := by
  cases n with
  | table s t => cases s <;> rfl
  | filter l o r =>
    cases l <;> simp [names, layout, namesOption, Piece.names, Token.name?, Part.names]
  | valueList ns => simp [names, layout, Piece.names_nodes, Piece.names, Token.name?]
  | scalarList vs =>
    simp [names, layout, Piece.names_listed, Piece.names, Token.name?, List.flatMap_map, Part.names]
  | _ => simp [names, layout, Piece.names, Token.name?, Part.names]

theorem Select.names_eq (s : Select) : s.names = s.layout.flatMap Piece.names := by
  obtain ⟨selections, distinctOn, isDistinct⟩ := s
  simp only [names, layout, List.flatMap_append, Piece.names_nodes]
  cases distinctOn <;> cases isDistinct <;>
    simp [-List.map_cons, Piece.names, Token.name?, Piece.names_nodes, namesNodes]

theorem Query.names_eq (q : Query) : q.names = q.layout.flatMap Piece.names := by
  obtain ⟨select, sources, joins, condition, lock⟩ := q
  simp only [names, layout, List.flatMap_append, Piece.names_nodes, Piece.names_clause,
    namesJoins_eq, List.flatMap_assoc]
  cases select <;> cases lock <;>
    simp [Piece.names, Token.name?, Part.names, namesSelect]

theorem Join.names_eq (j : Join) : j.names = j.layout.flatMap Piece.names := by
  obtain ⟨kind, table, condition⟩ := j
  simp [names, layout, Piece.names_clause, Piece.names, Token.name?, Part.names]

namespace Part

/-- The names of a part are those of its layout. -/
theorem names_eq (a : Part) : a.names = a.layout.flatMap Piece.names := by
  cases a with
  | node n => exact n.names_eq
  | select s => exact s.names_eq
  | query q => exact q.names_eq
  | join j => exact j.names_eq
  | raw r =>
    obtain ⟨fragments, params⟩ := r
    exact (Piece.names_alternating fragments params).symm
  | scalar v => rfl

theorem names_flatMap_tokens {pieces : List Piece}
    (h : ∀ b, .part b ∈ pieces → Token.names b.tokens = b.names) :
    Token.names (pieces.flatMap Piece.tokens) = pieces.flatMap Piece.names := by
  rw [Token.names, List.filterMap_flatMap]
  refine List.flatMap_congr fun x hx => ?_
  cases x with
  | token t => cases t <;> rfl
  | part b => exact h b hx

theorem names_enclose (a : Part) (inner : List Token) :
    Token.names (a.enclose inner) = Token.names inner := by
  cases a <;> simp [enclose]

/-- The name tokens of a part are its names. -/
theorem names_tokens (a : Part) : Token.names a.tokens = a.names := by
  induction a using Part.induction with
  | step a ih => rw [tokens_eq, names_enclose, names_flatMap_tokens ih, names_eq]

end Part

theorem Query.names_tokens (q : Query) : Token.names q.tokens = q.names := by
  rw [tokens, Part.names_flatMap_tokens fun b _ => b.names_tokens, names_eq]

/-! ### Characters that a tree avoids -/

/-- No name, operator text or raw fragment of a tree contains a character. -/
def Query.Avoids (q : Query) (c : Char) : Prop :=
  (∀ s ∈ q.names, c ∉ s.toList) ∧ ∀ s ∈ q.verbatim, c ∉ s.toList

/-- A character is in no text and in no name. -/
def Token.Avoids (c : Char) : Token → Prop
  | .text s | .name s => c ∉ s.toList
  | .hole _ => True

/-- What a tree avoids its tokens avoid, but for the characters of fixed text. -/
theorem Query.Avoids.tokens {q : Query} {c : Char} (h : q.Avoids c) (hc : isFixed c = false) :
    ∀ t ∈ q.tokens, t.Avoids c := by
  intro t ht
  cases t with
  | text s =>
    rcases text_mem_tokens ht with hFixed | hs
    · intro hMem
      have hTrue : isFixed c = true := List.all_eq_true.mp hFixed c hMem
      rw [hc] at hTrue
      cases hTrue
    · exact h.2 s hs
  | name s =>
    have hs : s ∈ Token.names q.tokens := List.mem_filterMap.mpr ⟨_, ht, rfl⟩
    rw [names_tokens] at hs
    exact h.1 s hs
  | hole v => trivial

end QueryTree
