import QueryTree.Proofs.Json.Reading

/-! Reading the text of a document back.  `Json.draft` is what a document becomes when its text is
read; the main statements are `Json.Read.readsAs_compact` and `Json.Read.readsAs_indented`, which
say that reading either text gives this draft and leaves what follows, as long as every number of
the document can be read from its own text.  `Json.ofText_compact` and `Json.ofText_indented` say so
of a whole text. -/

namespace QueryTree

namespace Json

mutual

/-- Whether every number of a document is read whole from its own text. -/
def Legible : Json → Prop
  | .number n => n.Legible
  | .array items => LegibleItems items
  | .object members => LegibleMembers members
  | .null | .bool _ | .string _ => True

def LegibleItems : List Json → Prop
  | [] => True
  | item :: rest => item.Legible ∧ LegibleItems rest

def LegibleMembers : List (String × Json) → Prop
  | [] => True
  | (_, value) :: rest => value.Legible ∧ LegibleMembers rest

end

mutual

/-- What a document becomes when its text is read. -/
def draft : Json → Draft
  | .null => .null
  | .bool b => .bool b
  | .number n => (Read.scalar (numberText n).toList).1
  | .string s => .string s
  | .array items => .array (draftItems items) .closed
  | .object members => .object (draftMembers members) .closed

def draftItems : List Json → List Draft
  | [] => []
  | item :: rest => item.draft :: draftItems rest

def draftMembers : List (String × Json) → List (Option String × Draft)
  | [] => []
  | (name, value) :: rest => (some name, value.draft) :: draftMembers rest

end

theorem toList_compact_array (items : List Json) :
    (compact (.array items)).toList = '[' :: ((compactItems items).toList ++ [']']) := by
  simp [compact]

theorem toList_compact_object (members : List (String × Json)) :
    (compact (.object members)).toList =
      '\x7b' :: ((compactMembers members).toList ++ ['\x7d']) := by
  simp [compact]

theorem toList_compactItems_cons (item next : Json) (more : List Json) :
    (compactItems (item :: next :: more)).toList =
      item.compact.toList ++ ',' :: (compactItems (next :: more)).toList := by
  simp [compactItems]

theorem toList_compactMembers_singleton (name : String) (value : Json) :
    (compactMembers [(name, value)]).toList =
      (quoted name).toList ++ ':' :: value.compact.toList := by
  simp [compactMembers]

theorem toList_compactMembers_cons (name : String) (value : Json) (next : String × Json)
    (more : List (String × Json)) :
    (compactMembers ((name, value) :: next :: more)).toList =
      (quoted name).toList ++
        ':' :: (value.compact.toList ++ ',' :: (compactMembers (next :: more)).toList) := by
  simp [compactMembers]

theorem toList_indented_array (depth : Nat) (item : Json) (more : List Json) :
    (indented depth (.array (item :: more))).toList =
      '[' :: (((indentedItems (depth + 1) (item :: more)).toList ++ (lineStart depth).toList)
        ++ [']']) := by
  simp [indented]

theorem toList_indented_object (depth : Nat) (member : String × Json)
    (more : List (String × Json)) :
    (indented depth (.object (member :: more))).toList =
      '\x7b' :: (((indentedMembers (depth + 1) (member :: more)).toList ++
        (lineStart depth).toList) ++ ['\x7d']) := by
  simp [indented]

theorem toList_indentedItems_singleton (depth : Nat) (item : Json) :
    (indentedItems depth [item]).toList =
      (lineStart depth).toList ++ (item.indented depth).toList := by
  simp [indentedItems]

theorem toList_indentedItems_cons (depth : Nat) (item next : Json) (more : List Json) :
    (indentedItems depth (item :: next :: more)).toList =
      ((lineStart depth).toList ++ (item.indented depth).toList) ++
        ',' :: (indentedItems depth (next :: more)).toList := by
  simp [indentedItems]

theorem toList_indentedMembers_singleton (depth : Nat) (name : String) (value : Json) :
    (indentedMembers depth [(name, value)]).toList =
      (lineStart depth).toList ++ ((quoted name).toList ++
        ':' :: ([' '] ++ (value.indented depth).toList)) := by
  simp [indentedMembers]

theorem toList_indentedMembers_cons (depth : Nat) (name : String) (value : Json)
    (next : String × Json) (more : List (String × Json)) :
    (indentedMembers depth ((name, value) :: next :: more)).toList =
      (lineStart depth).toList ++ ((quoted name).toList ++
        ':' :: (([' '] ++ (value.indented depth).toList) ++
          ',' :: (indentedMembers depth (next :: more)).toList)) := by
  simp [indentedMembers]

namespace Read

/-! ### Compact texts -/

-- The recursion is on the document, its items and its members; `ReadsAs` and the predicates beside
-- it keep the lengths of the texts out of it.
mutual

theorem readsAs_compact : (j : Json) → j.Legible → ReadsAs j.compact.toList j.draft
  | .null, _ => NumberText.null.readsAs
  | .bool true, _ => readsAs_cons fun _ _ _ _ => rfl
  | .bool false, _ => readsAs_cons fun _ _ _ _ => rfl
  | .number _, ⟨_, h⟩ => by
    rw [draft, h.scalar_eq]
    exact h.readsAs
  | .string s, _ => readsAs_quoted s
  | .array [], _ => readsAs_cons fun _ _ _ _ => rfl
  | .array (item :: more), h => by
    rw [toList_compact_array]
    exact readsAs_array (itemsReadAs_compact (item :: more) (by simp) h)
  | .object [], _ => readsAs_cons fun _ _ _ _ => rfl
  | .object (member :: more), h => by
    rw [toList_compact_object]
    exact readsAs_object (membersReadAs_compact (member :: more) (by simp) h)

theorem itemsReadAs_compact : (js : List Json) → js ≠ [] → LegibleItems js →
    ItemsReadAs (compactItems js).toList (draftItems js)
  | [], hne, _ => absurd rfl hne
  | [item], _, h => by
    have hItem := itemsReadAs_singleton blank_nil (readsAs_compact item h.1)
    rwa [List.append_nil] at hItem
  | item :: next :: more, _, h => by
    rw [toList_compactItems_cons]
    exact itemsReadAs_cons (readsAs_compact item h.1)
      (itemsReadAs_compact (next :: more) (by simp) h.2)

theorem membersReadAs_compact : (ms : List (String × Json)) → ms ≠ [] → LegibleMembers ms →
    MembersReadAs (compactMembers ms).toList (draftMembers ms)
  | [], hne, _ => absurd rfl hne
  | [(name, item)], _, h => by
    have hMember : MembersReadAs _ [(some name, item.draft)] :=
      membersReadAs_singleton blank_nil (readsAs_compact item h.1)
    rw [toList_compactMembers_singleton]
    rwa [List.append_nil] at hMember
  | (name, item) :: next :: more, _, h => by
    rw [toList_compactMembers_cons]
    exact membersReadAs_cons (readsAs_compact item h.1)
      (membersReadAs_compact (next :: more) (by simp) h.2)

end

/-! ### Indented texts -/

theorem blank_lineStart (depth : Nat) : Blank (lineStart depth).toList := by
  intro c hc
  simp only [lineStart, String.toList_append, String.toList_ofList, List.mem_append] at hc
  rcases hc with hc | hc
  · rw [List.mem_singleton.mp hc]
    rfl
  · rw [List.eq_of_mem_replicate hc]
    rfl

theorem blank_space : Blank [' '] := by
  intro c hc
  rw [List.mem_singleton.mp hc]
  rfl

mutual

theorem readsAs_indented (depth : Nat) : (j : Json) → j.Legible →
    ReadsAs (j.indented depth).toList j.draft
  | .null, h => by
    rw [indented]
    exact readsAs_compact .null h
  | .bool true, h => by
    rw [indented]
    exact readsAs_compact (.bool true) h
  | .bool false, h => by
    rw [indented]
    exact readsAs_compact (.bool false) h
  | .number n, h => by
    rw [indented]
    exact readsAs_compact (.number n) h
  | .string s, h => by
    rw [indented]
    exact readsAs_compact (.string s) h
  | .array [], h => by
    rw [indented]
    exact readsAs_compact (.array []) h
  | .array (item :: more), h => by
    rw [toList_indented_array]
    exact readsAs_array (itemsReadAs_indented (depth + 1) (blank_lineStart depth) (item :: more)
      (by simp) h)
  | .object [], h => by
    rw [indented]
    exact readsAs_compact (.object []) h
  | .object (member :: more), h => by
    rw [toList_indented_object]
    exact readsAs_object (membersReadAs_indented (depth + 1) (blank_lineStart depth)
      (member :: more) (by simp) h)

theorem itemsReadAs_indented (depth : Nat) {ws : List Char} (hBlank : Blank ws) :
    (js : List Json) → js ≠ [] → LegibleItems js →
    ItemsReadAs ((indentedItems depth js).toList ++ ws) (draftItems js)
  | [], hne, _ => absurd rfl hne
  | [item], _, h => by
    rw [toList_indentedItems_singleton]
    exact itemsReadAs_singleton hBlank
      ((readsAs_indented depth item h.1).append_blank (blank_lineStart depth))
  | item :: next :: more, _, h => by
    rw [toList_indentedItems_cons, List.append_assoc, List.cons_append]
    exact itemsReadAs_cons ((readsAs_indented depth item h.1).append_blank (blank_lineStart depth))
      (itemsReadAs_indented depth hBlank (next :: more) (by simp) h.2)

theorem membersReadAs_indented (depth : Nat) {ws : List Char} (hBlank : Blank ws) :
    (ms : List (String × Json)) → ms ≠ [] → LegibleMembers ms →
    MembersReadAs ((indentedMembers depth ms).toList ++ ws) (draftMembers ms)
  | [], hne, _ => absurd rfl hne
  | [(name, item)], _, h => by
    rw [toList_indentedMembers_singleton]
    simp only [List.append_assoc, List.cons_append]
    exact (membersReadAs_singleton hBlank
      ((readsAs_indented depth item h.1).append_blank blank_space)).append_blank
        (blank_lineStart depth)
  | (name, item) :: next :: more, _, h => by
    rw [toList_indentedMembers_cons]
    simp only [List.append_assoc, List.cons_append]
    exact (membersReadAs_cons ((readsAs_indented depth item h.1).append_blank blank_space)
      (membersReadAs_indented depth hBlank (next :: more) (by simp) h.2)).append_blank
        (blank_lineStart depth)

end

end Read

/-- The text of a document is read whole, as the document's draft. -/
theorem ofText_compact {j : Json} (h : j.Legible) :
    Draft.ofText j.compact.toList = (j.draft, .ok []) := by
  have hRead := Read.readsAs_compact j h [] rfl (2 * j.compact.toList.length + 2) (by omega)
  rw [List.append_nil] at hRead
  exact hRead

/-- So is the indented text, up to white space that follows. -/
theorem ofText_indented {j : Json} (h : j.Legible) {ws : List Char} (hBlank : Read.Blank ws) :
    Draft.ofText ((j.indented 0).toList ++ ws) = (j.draft, .ok ws) := by
  have hEnds : Read.endsNumber ws = true := by
    have hAppend := Read.endsNumber_append hBlank (show Read.endsNumber [] = true from rfl)
    rwa [List.append_nil] at hAppend
  refine Read.readsAs_indented 0 j h ws hEnds _ ?_
  rw [List.length_append]
  omega

end Json

end QueryTree
