import QueryTree.Json.Decode
import QueryTree.Proofs.Json.Legibility
import QueryTree.Proofs.Json.Texts
import QueryTree.Proofs.Outcomes

/-! Decoding what was written.  `Decodes levels r j a` says that the reader `r` takes the document
`j`, as it is read from its text, to the value `a`, unless `j` nests deeper than the mode allows.
Readers of texts, choices, optional values, lists and records keep this up, each from what its parts
do; `levels` is the number of levels of nodes that the readers of the parts are good for. -/

namespace QueryTree

namespace Json

mutual

/-- How many arrays and objects stand within one another, the outermost included. -/
def nesting : Json → Nat
  | .array items => nestingItems items + 1
  | .object members => nestingMembers members + 1
  | .null | .bool _ | .number _ | .string _ => 0

def nestingItems : List Json → Nat
  | [] => 0
  | item :: rest => max item.nesting (nestingItems rest)

def nestingMembers : List (String × Json) → Nat
  | [] => 0
  | (_, value) :: rest => max value.nesting (nestingMembers rest)

end

end Json

/-- The refusal of what nests deeper than there is room. -/
def beyond? (room depth : Nat) : Option Refusal := if depth ≤ room then none else some .malformed

theorem beyond?_or (room m n : Nat) :
    (beyond? room m).or (beyond? room n) = beyond? room (max m n) := by
  simp only [beyond?, Nat.max_le]
  by_cases hm : m ≤ room <;> simp [hm]

theorem beyond?_succ (room n : Nat) :
    (if room = 0 then some .malformed else beyond? (room - 1) n) = beyond? room (n + 1) := by
  cases room with
  | zero => rfl
  | succ room => simp [beyond?]

namespace Json

theorem Read.NumberText.refusal? {cs : List Char} {d : Draft} (h : NumberText cs d) (room : Nat) :
    d.refusal? room = none := by
  cases h <;> rfl

theorem refusal?_draft_number {n : Number} (h : n.Legible) (room : Nat) :
    (Json.number n).draft.refusal? room = none := by
  obtain ⟨d, hText⟩ := h
  rw [draft, hText.scalar_eq]
  exact hText.refusal? room

mutual

/-- A legible document is refused only for its nesting. -/
theorem refusal?_draft (room : Nat) : (j : Json) → j.Legible →
    j.draft.refusal? room = beyond? room j.nesting
  | .null, _ | .bool _, _ | .string _, _ => rfl
  | .number _, h => refusal?_draft_number h room
  | .array items, h => by
    rw [draft, Draft.refusal?, itemsRefusal?_draft (room - 1) items h, Ending.refusal?,
      Option.or_none, beyond?_succ, nesting]
  | .object members, h => by
    rw [draft, Draft.refusal?, membersRefusal?_draft (room - 1) members h, Ending.refusal?,
      Option.or_none, beyond?_succ, nesting]

theorem itemsRefusal?_draft (room : Nat) : (js : List Json) → LegibleItems js →
    Draft.itemsRefusal? room (draftItems js) = beyond? room (nestingItems js)
  | [], _ => rfl
  | item :: rest, h => by
    rw [draftItems, Draft.itemsRefusal?, refusal?_draft room item h.1,
      itemsRefusal?_draft room rest h.2, beyond?_or, nestingItems]

theorem membersRefusal?_draft (room : Nat) : (ms : List (String × Json)) → LegibleMembers ms →
    Draft.membersRefusal? room (draftMembers ms) = beyond? room (nestingMembers ms)
  | [], _ => rfl
  | (_, value) :: rest, h => by
    rw [draftMembers, Draft.membersRefusal?, refusal?_draft room value h.1,
      membersRefusal?_draft room rest h.2, beyond?_or, nestingMembers]

end

end Json

/-! ### Room -/

theorem refuse?_ok {r : Option Refusal} (h : refuse? r = .ok ()) : r = none := by
  cases r with
  | none => rfl
  | some r => cases h

theorem Reader.ofText_ok {α : Type} {r : Reader α} {text : String} {a : α}
    (h : r.ofText text = .ok a) :
    ∃ d rest, Draft.ofText text.toList = (d, .ok rest) ∧ r .start d = .ok a ∧
      (Json.Read.skipSpace rest).isEmpty = true := by
  obtain ⟨b, hRead, hRest⟩ := bind_ok h
  split at hRest
  · cases hRest
  · next rest hText =>
    split at hRest
    · next hBlank =>
      cases hRest
      exact ⟨_, rest, Prod.ext rfl hText, hRead, hBlank⟩
    · cases hRest

namespace Mode

/-- A value whose document nests to the given depth, if the mode has room for it. -/
def within {α : Type} (mode : Mode) (depth : Nat) (a : α) : Decoded α :=
  match mode with
  | .streaming room => if depth ≤ room then .ok a else .error (.refused .malformed)
  | .buffered => .ok a

section Within

variable {α β : Type} (mode : Mode)

@[simp] theorem within_zero (a : α) : mode.within 0 a = .ok a := by
  cases mode <;> rfl

theorem within_bind {m n : Nat} {a : α} {b : β} {k : α → Decoded β} (h : k a = mode.within n b) :
    (mode.within m a >>= k) = mode.within (max m n) b := by
  cases mode with
  | buffered => exact h
  | streaming room =>
    simp only [within, Nat.max_le] at h ⊢
    by_cases hm : m ≤ room
    · simp only [hm, if_true, true_and]
      exact h
    · simp only [hm, if_false, false_and]
      rfl

theorem within_bind_ok {m : Nat} {a : α} {b : β} {k : α → Decoded β} (h : k a = .ok b) :
    (mode.within m a >>= k) = mode.within m b := by
  have hZero : k a = mode.within 0 b := by rw [h, within_zero]
  rw [mode.within_bind hZero, Nat.max_zero]

theorem within_map {m : Nat} (g : α → β) (a : α) :
    (mode.within m a).map g = mode.within m (g a) := by
  cases mode with
  | buffered => rfl
  | streaming room =>
    simp only [within]
    split <;> rfl

theorem enter_bind {n : Nat} {b : β} {k : Mode → Decoded β}
    (h : ∀ inner, mode.enter = .ok inner → k inner = inner.within n b) :
    (mode.enter >>= k) = mode.within (n + 1) b := by
  cases mode with
  | buffered => exact h .buffered rfl
  | streaming room =>
    cases room with
    | zero => rfl
    | succ room =>
      have hInner := h (.streaming room) rfl
      simp only [within, Nat.add_le_add_iff_right] at hInner ⊢
      exact hInner

theorem keep_draft {j : Json} (h : j.Legible) : mode.keep j.draft = mode.within j.nesting () := by
  cases mode with
  | buffered => rfl
  | streaming room =>
    rw [keep, Json.refusal?_draft room j h, within, beyond?]
    split <;> rfl

end Within

/-- Whether a number of levels suffices for a document that nests to the given depth: the room
already sees to it, or the depth does. -/
def Meets (mode : Mode) (levels depth : Nat) : Prop :=
  match mode with
  | .streaming room => room ≤ levels
  | .buffered => depth ≤ levels

theorem Meets.of_le {mode : Mode} {levels m n : Nat} (h : mode.Meets levels n) (hmn : m ≤ n) :
    mode.Meets levels m := by
  cases mode with
  | buffered => exact Nat.le_trans hmn h
  | streaming room => exact h

/-- If the levels do not suffice, then there is no room either. -/
theorem Meets.within {α : Type} {mode : Mode} {levels n : Nat} (h : mode.Meets levels n)
    (hn : ¬n ≤ levels) (a : α) : mode.within n a = .error (.refused .malformed) := by
  cases mode with
  | buffered => exact absurd h hn
  | streaming room =>
    have hRoom : ¬n ≤ room := fun hle => hn (Nat.le_trans hle h)
    rw [Mode.within, if_neg hRoom]

theorem Meets.within_bind_ok {α β : Type} {mode : Mode} {levels n : Nat} {a : α} {b : β}
    {k : α → Decoded β} (h : mode.Meets levels n) (hk : n ≤ levels → k a = .ok b) :
    (mode.within n a >>= k) = mode.within n b := by
  by_cases hn : n ≤ levels
  · exact mode.within_bind_ok (hk hn)
  · rw [h.within hn, h.within hn]
    rfl

/-- Within an array or object there may be one level less. -/
theorem Meets.enter {mode inner : Mode} {levels fewer n : Nat} (h : mode.Meets levels (n + 1))
    (hInner : mode.enter = .ok inner) (hFewer : levels ≤ fewer + 1) : inner.Meets fewer n := by
  cases mode with
  | buffered =>
    cases hInner
    exact Nat.le_of_succ_le_succ (Nat.le_trans h hFewer)
  | streaming room =>
    cases room with
    | zero => cases hInner
    | succ room =>
      cases hInner
      exact Nat.le_of_succ_le_succ (Nat.le_trans h hFewer)

end Mode

/-! ### Readers -/

/-- The reader takes the document, as it is read from its text, to the value, unless the document
nests too deeply. -/
structure Decodes {α : Type} (levels : Nat) (r : Reader α) (j : Json) (a : α) : Prop where
  legible : j.Legible
  read : ∀ mode : Mode, mode.Meets levels j.nesting → r mode j.draft = mode.within j.nesting a

namespace Decodes

variable {α : Type} {levels : Nat} {r : Reader α} {j : Json} {a : α}

/-- A document that is read from the start of its text. -/
theorem ofText (h : Decodes levels r j a) (hLevels : nestingLimit ≤ levels) :
    r.ofText j.compact = Mode.start.within j.nesting a := by
  have hRead := h.read .start hLevels
  rw [Reader.ofText, Json.ofText_compact h.legible]
  show (r .start j.draft >>= fun a => Except.ok a) = _
  rw [hRead]
  exact Mode.start.within_bind_ok rfl

theorem text (levels : Nat) (s : String) : Decodes levels Reader.text (.string s) s where
  legible := trivial
  read mode _ := (mode.within_zero s).symm

theorem choice {all : List α} {name : α → String} (levels : Nat)
    (h : Reader.named all name (name a) = .ok a) :
    Decodes levels (Reader.choice all name) (.string (name a)) a where
  legible := trivial
  read mode _ := by
    cases mode with
    | buffered => exact h
    | streaming room => exact h

/-- Only `null` and numbers, which can be written as `null`, are ever taken for it. -/
theorem option (h : Decodes levels r j a)
    (hj : (∃ ms, j = .object ms) ∨ ∃ s, j = .string s) : Decodes levels r.option j (some a) where
  legible := h.legible
  read mode hMeets := by
    have hRead := h.read mode hMeets
    have hOption : r.option mode j.draft = (r mode j.draft).map some := by
      rcases hj with ⟨ms, rfl⟩ | ⟨s, rfl⟩ <;> rfl
    rw [hOption, hRead, mode.within_map]

section Lists

variable {β : Type} {write : β → Json} {value : β → α}

theorem items (mode : Mode) : (xs : List β) → (∀ x ∈ xs, Decodes levels r (write x) (value x)) →
    mode.Meets levels (Json.nestingItems (xs.map write)) →
    Reader.items r mode (Json.draftItems (xs.map write)) =
      mode.within (Json.nestingItems (xs.map write)) (xs.map value)
  | [], _, _ => (mode.within_zero _).symm
  | x :: xs, h, hMeets => by
    simp only [List.map_cons, Json.nestingItems] at hMeets ⊢
    have hFirst := (h x List.mem_cons_self).read mode (hMeets.of_le (Nat.le_max_left _ _))
    have hRest := items mode xs (fun y hy => h y (List.mem_cons_of_mem x hy))
      (hMeets.of_le (Nat.le_max_right _ _))
    rw [Json.draftItems, Reader.items, hFirst]
    refine mode.within_bind ?_
    rw [hRest]
    exact mode.within_bind_ok rfl

theorem legibleItems : {xs : List β} → (∀ x ∈ xs, Decodes levels r (write x) (value x)) →
    Json.LegibleItems (xs.map write)
  | [], _ => trivial
  | x :: _, h => ⟨(h x List.mem_cons_self).legible,
      legibleItems fun y hy => h y (List.mem_cons_of_mem x hy)⟩

theorem list {xs : List β} (h : ∀ x ∈ xs, Decodes levels r (write x) (value x)) :
    Decodes levels r.list (.array (xs.map write)) (xs.map value) where
  legible := legibleItems h
  read mode hMeets := by
    rw [Json.draft, Reader.list, Json.nesting]
    refine mode.enter_bind fun inner hInner => ?_
    rw [items inner xs h (hMeets.enter hInner (Nat.le_succ levels))]
    exact inner.within_bind_ok rfl

end Lists

end Decodes

/-! ### Records -/

namespace Layout

/-- The names of the fields. -/
def names {ρ σ : Type} : Layout ρ σ → List String
  | .done => []
  | .field f rest => f.name :: rest.names

/-- The members are what is written for a record: its fields in order, those left out that have a
default. -/
inductive Writes (levels : Nat) :
    {ρ σ : Type} → Layout ρ σ → List (String × Json) → ρ → Prop
  | done : Writes levels .done [] ()
  | present {α β σ : Type} {f : Field α} {rest : Layout β σ} {ms : List (String × Json)} {j : Json}
      {a : α} {b : β} (read : Decodes levels f.read j a) (more : Writes levels rest ms b) :
      Writes levels (.field f rest) ((f.name, j) :: ms) (a, b)
  | absent {α β σ : Type} {f : Field α} {rest : Layout β σ} {ms : List (String × Json)} {a : α}
      {b : β} (default : f.absent = some a) (more : Writes levels rest ms b) :
      Writes levels (.field f rest) ms (a, b)

/-- Takes in all members and then gives the values of the fields. -/
def collect {ρ σ : Type} (layout : Layout ρ σ) (mode : Mode) (ms : List (Option String × Draft)) :
    Decoded ρ := layout.putAll mode ms layout.empty >>= layout.finish

section Collect

variable {α β ρ σ : Type} {f : Field α} {rest : Layout β σ} {mode : Mode}

/-- Members with other names pass a field by. -/
theorem putAll_field (found : Option α) : (ms : List (String × Json)) → (more : σ) →
    f.name ∉ ms.map Prod.fst →
    (Layout.field f rest).putAll mode (Json.draftMembers ms) (found, more) =
      (rest.putAll mode (Json.draftMembers ms) more).map (found, ·)
  | [], _, _ => rfl
  | (name, j) :: ms, more, hFresh => by
    have hName : (f.name == name) = false :=
      beq_eq_false_iff_ne.mpr fun h => hFresh (List.mem_cons.mpr (.inl h))
    have hMore : f.name ∉ ms.map Prod.fst := fun h => hFresh (List.mem_cons_of_mem _ h)
    simp only [Json.draftMembers, putAll, put, hName]
    cases rest.put mode name j.draft more with
    | error e => rfl
    | ok more => exact putAll_field found ms more hMore

theorem collect_present {ms : List (String × Json)} (j : Json) (hFresh : f.name ∉ ms.map Prod.fst) :
    (Layout.field f rest).collect mode (Json.draftMembers ((f.name, j) :: ms)) =
      f.read mode j.draft >>= fun a =>
        rest.collect mode (Json.draftMembers ms) >>= fun b => .ok (a, b) := by
  simp only [collect, Json.draftMembers, putAll, empty, put, beq_self_eq_true, if_true]
  cases f.read mode j.draft with
  | error e => rfl
  | ok a =>
    show (Layout.field f rest).putAll mode (Json.draftMembers ms) (some a, rest.empty) >>= _ = _
    rw [putAll_field _ _ _ hFresh]
    cases rest.putAll mode (Json.draftMembers ms) rest.empty <;> rfl

theorem collect_absent {ms : List (String × Json)} {a : α} (h : f.absent = some a)
    (hFresh : f.name ∉ ms.map Prod.fst) :
    (Layout.field f rest).collect mode (Json.draftMembers ms) =
      rest.collect mode (Json.draftMembers ms) >>= fun b => .ok (a, b) := by
  rw [collect, empty, putAll_field _ _ _ hFresh, collect]
  cases rest.putAll mode (Json.draftMembers ms) rest.empty with
  | error e => rfl
  | ok found =>
    show (Layout.field f rest).finish (none, found) = _
    simp only [finish, h, Option.none_or]
    rfl

end Collect

namespace Writes

variable {ρ σ : Type} {levels : Nat} {layout : Layout ρ σ} {ms : List (String × Json)} {a : ρ}

theorem legible (h : Writes levels layout ms a) : Json.LegibleMembers ms := by
  induction h with
  | done => trivial
  | present read _ ih => exact ⟨read.legible, ih⟩
  | absent _ _ ih => exact ih

theorem name_mem {name : String} (h : Writes levels layout ms a) (hName : name ∈ ms.map Prod.fst) :
    name ∈ layout.names := by
  induction h with
  | done => cases hName
  | present _ _ ih =>
    rcases List.mem_cons.mp hName with rfl | hName
    · exact List.mem_cons_self
    · exact List.mem_cons_of_mem _ (ih hName)
  | absent _ _ ih => exact List.mem_cons_of_mem _ (ih hName)

theorem collect (h : Writes levels layout ms a) (hNames : layout.names.Nodup) (mode : Mode)
    (hMeets : mode.Meets levels (Json.nestingMembers ms)) :
    layout.collect mode (Json.draftMembers ms) = mode.within (Json.nestingMembers ms) a := by
  induction h with
  | done => exact (mode.within_zero _).symm
  | present read more ih =>
    obtain ⟨hFresh, hRest⟩ := List.nodup_cons.mp hNames
    rw [Json.nestingMembers] at hMeets ⊢
    rw [collect_present _ fun hName => hFresh (more.name_mem hName),
      read.read mode (hMeets.of_le (Nat.le_max_left _ _))]
    refine mode.within_bind ?_
    rw [ih hRest (hMeets.of_le (Nat.le_max_right _ _))]
    exact mode.within_bind_ok rfl
  | absent default more ih =>
    obtain ⟨hFresh, hRest⟩ := List.nodup_cons.mp hNames
    rw [collect_absent default fun hName => hFresh (more.name_mem hName), ih hRest hMeets]
    exact mode.within_bind_ok rfl

end Writes

theorem read_object {ρ σ : Type} (layout : Layout ρ σ) (mode : Mode)
    (ms : List (Option String × Draft)) :
    layout.read mode (.object ms .closed) = mode.enter >>= fun inner => layout.collect inner ms :=
  rfl

/-- A buffered document may have members that are no fields. -/
theorem put_buffered {name : String} {d : Draft} : {ρ σ : Type} → (layout : Layout ρ σ) →
    name ∉ layout.names → (found : σ) → layout.put .buffered name d found = .ok found
  | _, _, .done, _, _ => rfl
  | _, _, .field f rest, hName, (found, more) => by
    have hf : (f.name == name) = false :=
      beq_eq_false_iff_ne.mpr fun h => hName (List.mem_cons.mpr (.inl h.symm))
    have hRest := put_buffered (d := d) rest (fun h => hName (List.mem_cons_of_mem _ h)) more
    simp only [put, hf, hRest]
    rfl

end Layout

/-- The reader takes the members of a buffered document to the value, with a kind before them. -/
structure DecodesContent {α : Type} (levels : Nat) (r : Reader α) (ms : List (String × Json))
    (a : α) : Prop where
  legible : Json.LegibleMembers ms
  fresh : "kind" ∉ ms.map Prod.fst
  read : Json.nestingMembers ms ≤ levels → ∀ tag : Draft,
    r .buffered (.object ((some "kind", tag) :: Json.draftMembers ms) .closed) = .ok a

theorem DecodesContent.map {α β : Type} {levels : Nat} {r : Reader α} {ms : List (String × Json)}
    {a : α} (h : DecodesContent levels r ms a) (g : α → β) :
    DecodesContent levels (fun _ d => (r .buffered d).map g) ms (g a) where
  legible := h.legible
  fresh := h.fresh
  read hLevels tag := congrArg (Except.map g) (h.read hLevels tag)

/-- The reader takes the members to the value, as a document of their own and after a kind. -/
structure DecodesRecord {α : Type} (levels : Nat) (r : Reader α) (ms : List (String × Json))
    (a : α) : Prop where
  alone : Decodes levels r (.object ms) a
  content : DecodesContent levels r ms a

section Records

variable {α ρ σ : Type} {levels : Nat} {layout : Layout ρ σ} {ms : List (String × Json)} {a : ρ}
  {b : α} {k : ρ → Decoded α}

theorem Layout.Writes.alone (h : Writes levels layout ms a) (hNames : layout.names.Nodup)
    (hk : k a = .ok b) :
    Decodes levels (fun mode d => layout.read mode d >>= k) (.object ms) b where
  legible := h.legible
  read mode hMeets := by
    have hRead : layout.read mode (.object (Json.draftMembers ms) .closed) =
        mode.within (Json.nestingMembers ms + 1) a := by
      rw [read_object]
      refine mode.enter_bind fun inner hInner => ?_
      exact h.collect hNames inner (hMeets.enter hInner (Nat.le_succ levels))
    show layout.read mode (.object (Json.draftMembers ms) .closed) >>= k = _
    rw [hRead]
    exact mode.within_bind_ok hk

theorem Layout.Writes.content (h : Writes levels layout ms a)
    (hNames : ("kind" :: layout.names).Nodup) (hk : k a = .ok b) :
    DecodesContent levels (fun mode d => layout.read mode d >>= k) ms b where
  legible := h.legible
  fresh hName := (List.nodup_cons.mp hNames).1 (h.name_mem hName)
  read hLevels tag := by
    obtain ⟨hKind, hRest⟩ := List.nodup_cons.mp hNames
    have hPut := put_buffered (d := tag) layout hKind layout.empty
    have hRead : layout.read .buffered
        (.object ((some "kind", tag) :: Json.draftMembers ms) .closed) =
        (layout.put .buffered "kind" tag layout.empty >>=
          layout.putAll .buffered (Json.draftMembers ms)) >>= layout.finish := rfl
    show layout.read .buffered _ >>= k = _
    rw [hRead, hPut]
    show layout.collect .buffered (Json.draftMembers ms) >>= k = _
    rw [h.collect hRest .buffered hLevels]
    exact hk

/-- A record is read back from the members that are written for its layout. -/
theorem Layout.Writes.record (h : Writes levels layout ms a)
    (hNames : ("kind" :: layout.names).Nodup) (hk : k a = .ok b) :
    DecodesRecord levels (fun mode d => layout.read mode d >>= k) ms b :=
  ⟨h.alone (List.nodup_cons.mp hNames).2 hk, h.content hNames hk⟩

end Records

end QueryTree
