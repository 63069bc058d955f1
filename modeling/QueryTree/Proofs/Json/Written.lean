import QueryTree.Proofs.Json.Legibility
import QueryTree.Proofs.Json.Texts
import QueryTree.Proofs.Json.Rearrangement

/-! Which drafts have a text.  A draft is `Written` if each value in it that is neither an array nor
an object is read from some text, and if all its arrays and objects are closed.  What a text is read
as to its end is written (`Draft.written_ofText`), however it is spelled; the order of members plays
no part in it; and every written draft has a text (`Draft.Written.exists_text`). -/

namespace QueryTree

open Decimal (isDigit)

namespace Draft

/-- All that the draft is made of can be read from some text. -/
inductive Written : Draft → Prop
  | leaf {d : Draft} {text : List Char} (single : d.within? = none)
      (reads : Json.Read.ReadsAs text d) : Written d
  | array {items : List Draft} (below : ∀ e ∈ items, e.Written) : Written (.array items .closed)
  | object {members : List (Option String × Draft)} (below : ∀ m ∈ members, m.2.Written) :
    Written (.object members .closed)

theorem written_array_iff {items : List Draft} {ending : Ending} :
    (Draft.array items ending).Written ↔ (∀ e ∈ items, e.Written) ∧ ending = .closed := by
  constructor
  · intro h
    cases h with
    | leaf single => cases single
    | array below => exact ⟨below, rfl⟩
  · rintro ⟨below, rfl⟩
    exact .array below

theorem written_object_iff {members : List (Option String × Draft)} {ending : Ending} :
    (Draft.object members ending).Written ↔ (∀ m ∈ members, m.2.Written) ∧ ending = .closed := by
  constructor
  · intro h
    cases h with
    | leaf single => cases single
    | object below => exact ⟨below, rfl⟩
  · rintro ⟨below, rfl⟩
    exact .object below

theorem Rearranged.written {d e : Draft} (h : d.Rearranged e) (hd : d.Written) : e.Written := by
  apply transfer (P := fun _ d => d.Written) (O := fun _ => True)
    (N := fun _ => True) (E := fun ending => ending = .closed) ?_ ?_ 0 h hd
  · intro n items ending
    simp [written_array_iff]
  · intro n members ending
    simp [written_object_iff]

end Draft

namespace Json.Read

/-! ### Texts of values that are neither arrays nor objects -/

theorem nameReadsAs_flawed : NameReadsAs ['\\', 'u', 'd', '8', '0', '0'] none := by
  intro rest
  simp [stringText, units, Text.hexQuad?, Text.hexValue?, before, join, isLow, isHigh]

theorem readsAs_flawed : ReadsAs ('"' :: (['\\', 'u', 'd', '8', '0', '0'] ++ ['"'])) .flawed := by
  refine readsAs_cons fun rest _ fuel _ => ?_
  rw [value_scalar (by decide) (by decide) (by decide), List.append_assoc, List.singleton_append]
  simp only [scalar, Read.string, nameReadsAs_flawed rest]

section Numbers

variable {text rest : List Char} {d : Draft}

/-- A numeral is the same whatever follows it. -/
theorem numeral_ok {n : Numeral} (h : numeral n text = (d, .ok rest)) :
    numeral n [] = (d, .ok []) := by
  unfold numeral at h ⊢
  split at h <;> simp_all

theorem afterDigits_ok {negative : Bool} {whole fraction : List Char}
    (h : afterDigits ⟨negative, whole, fraction, none⟩ text = (d, .ok rest)) :
    ∃ e, numeral ⟨negative, whole, fraction, e⟩ [] = (d, .ok []) := by
  have hExponent {text : List Char}
      (h : exponent ⟨negative, whole, fraction, none⟩ text = (d, .ok rest)) :
      ∃ e, numeral ⟨negative, whole, fraction, e⟩ [] = (d, .ok []) := by
    rw [exponent_eq, exponentDigits] at h
    split at h
    · exact absurd h (noDigit_ne_ok _ d)
    · exact ⟨_, numeral_ok h⟩
  unfold afterDigits at h
  split at h
  · exact hExponent h
  · exact hExponent h
  · exact ⟨none, numeral_ok h⟩

theorem afterWhole_ok {negative : Bool} {whole : List Char}
    (h : afterWhole ⟨negative, whole, [], none⟩ text = (d, .ok rest)) :
    ∃ fraction e, (∀ c ∈ fraction, isDigit c = true) ∧
      numeral ⟨negative, whole, fraction, e⟩ [] = (d, .ok []) := by
  unfold afterWhole at h
  split at h
  · split at h
    · exact absurd h (noDigit_ne_ok _ d)
    · obtain ⟨e, he⟩ := afterDigits_ok h
      exact ⟨_, e, List.all_eq_true.mp List.all_takeWhile, he⟩
  · obtain ⟨e, he⟩ := afterDigits_ok h
    exact ⟨[], e, nofun, he⟩

/-- A number that is read is that of a numeral. -/
theorem unsigned_ok {negative : Bool} (h : unsigned negative text = (d, .ok rest)) :
    ∃ n : Numeral, n.WellFormed ∧ n.negative = negative ∧ numeral n [] = (d, .ok []) := by
  unfold unsigned at h
  split at h
  · exact absurd h (noDigit_ne_ok _ d)
  · cases h
  · next hNil hZero =>
    obtain ⟨fraction, e, hFraction, hNumeral⟩ := afterWhole_ok h
    exact ⟨_, ⟨hNil, List.all_eq_true.mp List.all_takeWhile, hZero, hFraction⟩, rfl, hNumeral⟩

end Numbers

section Leaves

variable {text rest : List Char} {d : Draft}

theorem written_flawed : Draft.flawed.Written := .leaf rfl readsAs_flawed

theorem NumberText.written {cs : List Char} {m : Number} (h : NumberText cs (.number m)) :
    (Draft.number m).Written := .leaf rfl h.readsAs

/-- The value of a numeral is read from the text of the numeral, unless it is too large. -/
theorem written_of_unsigned {negative : Bool} (h : unsigned negative text = (d, .ok rest)) :
    d.Written := by
  obtain ⟨n, hWellFormed, rfl, hNumeral⟩ := unsigned_ok h
  have hText := unsigned_text hWellFormed
  rw [hNumeral] at hText
  unfold numeral at hNumeral
  split at hNumeral
  · cases hNumeral
    cases hNegative : n.negative with
    | true =>
      rw [hNegative] at hText
      exact (NumberText.negative hText).written
    | false =>
      rw [hNegative] at hText
      cases hWhole : n.whole with
      | nil => exact absurd hWhole hWellFormed.whole_ne_nil
      | cons c cs =>
        have hDigit : isDigit c = true :=
          hWellFormed.whole_digits c (by rw [hWhole]; exact List.mem_cons_self)
        rw [Numeral.text, hWhole, List.cons_append] at hText
        exact (NumberText.positive hDigit hText).written
  · cases hNumeral
    exact written_flawed

theorem word_ok {begun : Begun} {word' : Draft} {letters : List Char}
    (h : word begun word' letters text = (d, .ok rest)) : d = word' := by
  fun_induction word begun word' letters text with
  | case1 => cases h; rfl
  | case2 => cases h
  | case3 _ _ _ ih => exact ih h
  | case4 => cases h

theorem written_of_string (h : string text = (d, .ok rest)) : d.Written := by
  rw [Read.string] at h
  split at h
  · cases h
    exact .leaf rfl (readsAs_quoted _)
  · cases h
    exact written_flawed
  · cases h

theorem written_of_scalar (h : scalar text = (d, .ok rest)) : d.Written := by
  have hBool (b : Bool) : (Draft.bool b).Written :=
    .leaf rfl (readsAs_compact (.bool b) trivial)
  rw [scalar.eq_def] at h
  split at h
  · cases h
  · rw [word_ok h]
    exact .leaf rfl NumberText.null.readsAs
  · rw [word_ok h]
    exact hBool true
  · rw [word_ok h]
    exact hBool false
  · exact written_of_string h
  · exact written_of_unsigned h
  · split at h
    · exact written_of_unsigned h
    · cases h

end Leaves

/-! ### Whole texts -/

/-- With so much fuel, a value, items and members that are read to their end are written. -/
structure ReadsWritten (fuel : Nat) : Prop where
  value : ∀ {text rest : List Char} {d : Draft}, value fuel text = (d, .ok rest) → d.Written
  items : ∀ {text rest : List Char} {ds : List Draft} {ending : Ending},
    items fuel text = (ds, ending, .ok rest) → (∀ e ∈ ds, e.Written) ∧ ending = .closed
  members : ∀ {text rest : List Char} {ms : List (Option String × Draft)} {ending : Ending},
    members fuel text = (ms, ending, .ok rest) → (∀ m ∈ ms, m.2.Written) ∧ ending = .closed

namespace ReadsWritten

variable {fuel : Nat} {text rest : List Char} {ending : Ending}

theorem value_succ (h : ReadsWritten fuel) {d : Draft}
    (hRead : Read.value (fuel + 1) text = (d, .ok rest)) : d.Written := by
  rw [Read.value] at hRead
  split at hRead
  · split at hRead
    · cases hRead
    · cases hRead
      exact .array (List.forall_mem_nil _)
    · obtain ⟨hArray, hRest⟩ := Prod.mk.inj hRead
      rw [← hArray]
      exact Draft.written_array_iff.mpr (h.items (Prod.ext rfl (Prod.ext rfl hRest)))
  · split at hRead
    · cases hRead
    · cases hRead
      exact .object (List.forall_mem_nil _)
    · obtain ⟨hObject, hRest⟩ := Prod.mk.inj hRead
      rw [← hObject]
      exact Draft.written_object_iff.mpr (h.members (Prod.ext rfl (Prod.ext rfl hRest)))
  · exact written_of_scalar hRead

theorem items_succ (h : ReadsWritten fuel) {ds : List Draft}
    (hRead : Read.items (fuel + 1) text = (ds, ending, .ok rest)) :
    (∀ e ∈ ds, e.Written) ∧ ending = .closed := by
  rw [Read.items] at hRead
  split at hRead
  · cases hRead
  · next hValue =>
    have hItem := h.value hValue
    split at hRead
    · cases hRead
    · cases hRead
      exact ⟨List.forall_mem_singleton.mpr hItem, rfl⟩
    · obtain ⟨hItems, hMore⟩ := Prod.mk.inj hRead
      obtain ⟨hEnding, hRest⟩ := Prod.mk.inj hMore
      obtain ⟨hBelow, hClosed⟩ := h.items (Prod.ext rfl (Prod.ext rfl hRest))
      rw [← hItems, ← hEnding]
      exact ⟨List.forall_mem_cons.mpr ⟨hItem, hBelow⟩, hClosed⟩
    · cases hRead

theorem members_succ (h : ReadsWritten fuel) {ms : List (Option String × Draft)}
    (hRead : Read.members (fuel + 1) text = (ms, ending, .ok rest)) :
    (∀ m ∈ ms, m.2.Written) ∧ ending = .closed := by
  rw [Read.members] at hRead
  split at hRead
  · split at hRead
    · cases hRead
    · split at hRead
      · cases hRead
      · split at hRead
        · cases hRead
        · next hValue =>
          have hItem := h.value hValue
          split at hRead
          · cases hRead
          · cases hRead
            exact ⟨List.forall_mem_singleton.mpr hItem, rfl⟩
          · obtain ⟨hMembers, hMore⟩ := Prod.mk.inj hRead
            obtain ⟨hEnding, hRest⟩ := Prod.mk.inj hMore
            obtain ⟨hBelow, hClosed⟩ := h.members (Prod.ext rfl (Prod.ext rfl hRest))
            rw [← hMembers, ← hEnding]
            exact ⟨List.forall_mem_cons.mpr ⟨hItem, hBelow⟩, hClosed⟩
          · cases hRead
      · cases hRead
  · cases hRead

end ReadsWritten

theorem readsWritten (fuel : Nat) : ReadsWritten fuel := by
  induction fuel with
  | zero => exact ⟨nofun, nofun, nofun⟩
  | succ fuel ih => exact ⟨ih.value_succ, ih.items_succ, ih.members_succ⟩

/-- A name, or what stands for one that is missing, is written between quotes. -/
theorem exists_nameReadsAs (name? : Option String) : ∃ key, NameReadsAs key name? := by
  cases name? with
  | none => exact ⟨_, nameReadsAs_flawed⟩
  | some name => exact ⟨_, nameReadsAs_escaped name⟩

theorem exists_itemsReadAs {ds : List Draft} (hNil : ds ≠ [])
    (h : ∀ e ∈ ds, ∃ text, ReadsAs text e) : ∃ text, ItemsReadAs text ds := by
  induction ds with
  | nil => exact absurd rfl hNil
  | cons d ds ih =>
    obtain ⟨⟨text, hText⟩, hRest⟩ := List.forall_mem_cons.mp h
    cases ds with
    | nil => exact ⟨_, itemsReadAs_singleton blank_nil hText⟩
    | cons next more =>
      obtain ⟨rest, hMore⟩ := ih (List.cons_ne_nil next more) hRest
      exact ⟨_, itemsReadAs_cons hText hMore⟩

theorem exists_membersReadAs {ms : List (Option String × Draft)} (hNil : ms ≠ [])
    (h : ∀ m ∈ ms, ∃ text, ReadsAs text m.2) : ∃ text, MembersReadAs text ms := by
  induction ms with
  | nil => exact absurd rfl hNil
  | cons m ms ih =>
    obtain ⟨name?, d⟩ := m
    obtain ⟨⟨text, hText⟩, hRest⟩ := List.forall_mem_cons.mp h
    obtain ⟨key, hKey⟩ := exists_nameReadsAs name?
    cases ms with
    | nil => exact ⟨_, hKey.singleton blank_nil hText⟩
    | cons next more =>
      obtain ⟨rest, hMore⟩ := ih (List.cons_ne_nil next more) hRest
      exact ⟨_, hKey.cons hText hMore⟩

end Json.Read

namespace Draft

/-- What is read to its end is written. -/
theorem written_ofText {text rest : List Char} {d : Draft} (h : ofText text = (d, .ok rest)) :
    d.Written := (Json.Read.readsWritten _).value h

theorem Written.exists_readsAs {d : Draft} (h : d.Written) :
    ∃ text, Json.Read.ReadsAs text d := by
  induction h with
  | leaf _ reads => exact ⟨_, reads⟩
  | array _ ih =>
    rename_i items below
    cases items with
    | nil => exact ⟨_, Json.Read.readsAs_compact (.array []) trivial⟩
    | cons =>
      obtain ⟨text, hText⟩ := Json.Read.exists_itemsReadAs (List.cons_ne_nil _ _) ih
      exact ⟨_, Json.Read.readsAs_array hText⟩
  | object _ ih =>
    rename_i members below
    cases members with
    | nil => exact ⟨_, Json.Read.readsAs_compact (.object []) trivial⟩
    | cons =>
      obtain ⟨text, hText⟩ := Json.Read.exists_membersReadAs (List.cons_ne_nil _ _) ih
      exact ⟨_, Json.Read.readsAs_object hText⟩

end Draft

/-- A text is JSON, and the draft is what it is read as. -/
def IsText (text : String) (d : Draft) : Prop :=
  ∃ rest, Draft.ofText text.toList = (d, .ok rest) ∧ (Json.Read.skipSpace rest).isEmpty = true

/-- A reader takes a text to what it takes the draft of the text to. -/
theorem Reader.ofText_eq_ok_iff {α : Type} {r : Reader α} {text : String} {a : α} :
    r.ofText text = .ok a ↔ ∃ d, IsText text d ∧ r .start d = .ok a := by
  constructor
  · intro h
    obtain ⟨d, rest, hDraft, hRead, hBlank⟩ := ofText_ok h
    exact ⟨d, ⟨rest, hDraft, hBlank⟩, hRead⟩
  · rintro ⟨d, ⟨rest, hDraft, hBlank⟩, hRead⟩
    simp only [ofText, hDraft, hRead, ok_bind, hBlank, if_true]

/-- Every written draft has a text. -/
theorem Draft.Written.exists_text {d : Draft} (h : d.Written) : ∃ text, IsText text d := by
  obtain ⟨text, hText⟩ := h.exists_readsAs
  have hRead := hText [] rfl (2 * text.length + 2) (by omega)
  rw [List.append_nil] at hRead
  refine ⟨String.ofList text, [], ?_, rfl⟩
  rw [String.toList_ofList]
  exact hRead

end QueryTree
