import QueryTree.Toml.Document

/-! The integers of a TOML document fit a signed 64-bit word, wherever they stand in it
(`Toml.bounded_of_ofText?`): every reader gives items that are bounded, and the operations that
enter items in tables keep them so. -/

namespace QueryTree.Toml

/-- The items directly within an item. -/
def Item.within : Item → List Item
  | .array items => items
  | .table _ entries => entries.map Prod.snd
  | .tables elements => elements.flatMap fun entries => entries.map Prod.snd
  | _ => []

/-- All integers are below `2^63`. -/
inductive Item.Bounded : Item → Prop
  | intro {item : Item} (integer : ∀ n, item = .integer n → n < 0x8000000000000000)
      (within : ∀ i ∈ item.within, i.Bounded) : Bounded item

def Entries.Bounded (entries : Entries) : Prop := ∀ e ∈ entries, e.2.Bounded

namespace Item

/-- What is neither an integer nor holds other items is bounded. -/
theorem bounded_of_single {item : Item} (hInteger : ∀ n, item ≠ .integer n)
    (hWithin : item.within = []) : item.Bounded := by
  constructor
  · intro n hn
    exact absurd hn (hInteger n)
  · rw [hWithin]
    exact List.forall_mem_nil _

theorem bounded_integer {n : Int} (h : n < 0x8000000000000000) : (Item.integer n).Bounded :=
  ⟨fun _ hn => Item.integer.inj hn ▸ h, nofun⟩

theorem Bounded.integer_lt {n : Int} (h : (Item.integer n).Bounded) : n < 0x8000000000000000 := by
  cases h with
  | intro integer => exact integer n rfl

theorem bounded_array_iff {items : List Item} :
    (Item.array items).Bounded ↔ ∀ i ∈ items, i.Bounded := by
  constructor
  · rintro ⟨-, hWithin⟩
    exact hWithin
  · intro h
    exact ⟨nofun, h⟩

theorem bounded_table_iff {origin : Origin} {entries : Entries} :
    (Item.table origin entries).Bounded ↔ entries.Bounded := by
  constructor
  · rintro ⟨-, hWithin⟩ e he
    exact hWithin e.2 (List.mem_map_of_mem he)
  · intro h
    refine ⟨nofun, fun i hi => ?_⟩
    obtain ⟨e, he, rfl⟩ := List.mem_map.mp hi
    exact h e he

theorem bounded_tables_iff {elements : List Entries} :
    (Item.tables elements).Bounded ↔ ∀ entries ∈ elements, entries.Bounded := by
  constructor
  · rintro ⟨-, hWithin⟩ entries hEntries e he
    exact hWithin e.2 (List.mem_flatMap.mpr ⟨entries, hEntries, List.mem_map_of_mem he⟩)
  · intro h
    refine ⟨nofun, fun i hi => ?_⟩
    obtain ⟨entries, hEntries, hi⟩ := List.mem_flatMap.mp hi
    obtain ⟨e, he, rfl⟩ := List.mem_map.mp hi
    exact h entries hEntries e he

end Item

/-! ### Tables -/

namespace Entries

variable {entries entries' : Entries} {key : String} {item : Item}

theorem bounded_nil : Bounded [] := nofun

theorem Bounded.find? (h : entries.Bounded) (hFind : entries.find? key = some item) :
    item.Bounded := by
  obtain ⟨before, after, rfl, -⟩ := List.lookup_eq_some_iff.mp hFind
  exact h (key, item) (by simp)

theorem Bounded.replace (h : entries.Bounded) (hItem : item.Bounded) :
    (entries.replace key item).Bounded := by
  intro e he
  obtain ⟨⟨k, old⟩, hOld, rfl⟩ := List.mem_map.mp he
  by_cases hKey : (k == key) = true
  · simpa [hKey] using hItem
  · simpa [hKey] using h (k, old) hOld

theorem Bounded.add (h : entries.Bounded) (hItem : item.Bounded)
    (hAdd : entries.add key item = some entries') : entries'.Bounded := by
  unfold Entries.add at hAdd
  split at hAdd
  · cases hAdd
  · cases hAdd
    exact List.forall_mem_append.mpr ⟨h, List.forall_mem_singleton.mpr hItem⟩

/-- A change that keeps entries bounded keeps them so in the last of some elements. -/
theorem bounded_changeLast {change : Entries → Option Entries}
    (hChange : ∀ {es es' : Entries}, es.Bounded → change es = some es' → es'.Bounded)
    {elements elements' : List Entries} (h : ∀ es ∈ elements, es.Bounded)
    (hLast : changeLast change elements = some elements') : ∀ es ∈ elements', es.Bounded := by
  fun_induction changeLast change elements generalizing elements' with
  | case1 => cases hLast
  | case2 element =>
    obtain ⟨element', hElement, rfl⟩ := Option.map_eq_some_iff.mp hLast
    exact List.forall_mem_singleton.mpr (hChange (h element List.mem_cons_self) hElement)
  | case3 element rest _ ih =>
    obtain ⟨rest', hRest, rfl⟩ := Option.map_eq_some_iff.mp hLast
    obtain ⟨hFirst, hMore⟩ := List.forall_mem_cons.mp h
    exact List.forall_mem_cons.mpr ⟨hFirst, ih hMore hRest⟩

theorem Bounded.put {path : List String} (hItem : item.Bounded) (h : entries.Bounded)
    (hPut : Entries.put key item path entries = some entries') : entries'.Bounded := by
  induction path generalizing entries entries' with
  | nil => exact h.add hItem hPut
  | cons part path ih =>
    unfold Entries.put at hPut
    split at hPut
    · obtain ⟨inner, hInner, hAdd⟩ := Option.bind_eq_some_iff.mp hPut
      exact h.add (Item.bounded_table_iff.mpr (ih bounded_nil hInner)) hAdd
    · next inner hFind =>
      have hBelow := Item.bounded_table_iff.mp (h.find? hFind)
      obtain ⟨inner', hInner, hOk⟩ := Option.bind_eq_some_iff.mp hPut
      cases hOk
      exact h.replace (Item.bounded_table_iff.mpr (ih hBelow hInner))
    · next inner hFind =>
      have hBelow := Item.bounded_table_iff.mp (h.find? hFind)
      split at hPut
      · cases hPut
      · obtain ⟨inner', hInner, hOk⟩ := Option.bind_eq_some_iff.mp hPut
        cases hOk
        exact h.replace (Item.bounded_table_iff.mpr (ih hBelow hInner))
    · next elements hFind =>
      have hBelow := Item.bounded_tables_iff.mp (h.find? hFind)
      split at hPut
      · cases hPut
      · obtain ⟨elements', hElements, hOk⟩ := Option.bind_eq_some_iff.mp hPut
        cases hOk
        exact h.replace (Item.bounded_tables_iff.mpr (bounded_changeLast ih hBelow hElements))
    · cases hPut

theorem Bounded.changeAt {change : Entries → Option Entries} {path : List String}
    (hChange : ∀ {es es' : Entries}, es.Bounded → change es = some es' → es'.Bounded)
    (h : entries.Bounded) (hAt : Entries.changeAt change path entries = some entries') :
    entries'.Bounded := by
  induction path generalizing entries entries' with
  | nil => exact hChange h hAt
  | cons part path ih =>
    unfold Entries.changeAt at hAt
    split at hAt
    · obtain ⟨inner, hInner, hAdd⟩ := Option.bind_eq_some_iff.mp hAt
      exact h.add (Item.bounded_table_iff.mpr (ih bounded_nil hInner)) hAdd
    · cases hAt
    · next origin inner hFind =>
      have hBelow := Item.bounded_table_iff.mp (h.find? hFind)
      obtain ⟨inner', hInner, hOk⟩ := Option.bind_eq_some_iff.mp hAt
      cases hOk
      exact h.replace (Item.bounded_table_iff.mpr (ih hBelow hInner))
    · next elements hFind =>
      have hBelow := Item.bounded_tables_iff.mp (h.find? hFind)
      obtain ⟨elements', hElements, hOk⟩ := Option.bind_eq_some_iff.mp hAt
      cases hOk
      exact h.replace (Item.bounded_tables_iff.mpr (bounded_changeLast ih hBelow hElements))
    · cases hAt

theorem Bounded.openTable (h : entries.Bounded)
    (hOpen : Entries.openTable key entries = some entries') : entries'.Bounded := by
  unfold Entries.openTable at hOpen
  split at hOpen
  · exact h.add (Item.bounded_table_iff.mpr bounded_nil) hOpen
  · next inner hFind =>
    cases hOpen
    exact h.replace (Item.bounded_table_iff.mpr (Item.bounded_table_iff.mp (h.find? hFind)))
  · cases hOpen

theorem Bounded.openElement (h : entries.Bounded)
    (hOpen : Entries.openElement key entries = some entries') : entries'.Bounded := by
  unfold Entries.openElement at hOpen
  split at hOpen
  · exact h.add (Item.bounded_tables_iff.mpr (List.forall_mem_singleton.mpr bounded_nil)) hOpen
  · next elements hFind =>
    have hBelow := Item.bounded_tables_iff.mp (h.find? hFind)
    cases hOpen
    refine h.replace (Item.bounded_tables_iff.mpr ?_)
    exact List.forall_mem_append.mpr ⟨hBelow, List.forall_mem_singleton.mpr bounded_nil⟩
  · cases hOpen

end Entries

/-! ### Values -/

section Values

variable {text rest : List Char} {item : Item}

theorem bounded_of_integerItem? {n : Int} (h : integerItem? n text = some (item, rest)) :
    item.Bounded := by
  unfold integerItem? at h
  split at h
  · next hRange =>
    cases h
    exact Item.bounded_integer hRange.2
  · cases h

theorem bounded_of_integer? (h : integer? text = some (item, rest)) : item.Bounded := by
  have hBased {base : Nat} {digits : List Char}
      (h : basedInteger? base digits = some (item, rest)) : item.Bounded := by
    obtain ⟨⟨ds, after⟩, -, hItem⟩ := Option.bind_eq_some_iff.mp h
    exact bounded_of_integerItem? hItem
  unfold integer? at h
  split at h
  · exact hBased h
  · exact hBased h
  · exact hBased h
  · obtain ⟨⟨ds, after⟩, -, hItem⟩ := Option.bind_eq_some_iff.mp h
    exact bounded_of_integerItem? hItem

theorem eq_moment_of_moment? (h : moment? text = some (item, rest)) : item = .moment := by
  unfold moment? at h
  split at h
  all_goals
    obtain ⟨after, -, hItem⟩ := Option.map_eq_some_iff.mp h
    cases hItem
    rfl

theorem eq_real_of_real? (h : real? text = some (item, rest)) : item = .real := by
  obtain ⟨⟨whole, after⟩, -, hFraction⟩ := Option.bind_eq_some_iff.mp h
  dsimp only at hFraction
  split at hFraction
  · obtain ⟨⟨fraction, after⟩, -, hExponent⟩ := Option.bind_eq_some_iff.mp hFraction
    dsimp only at hExponent
    split at hExponent
    all_goals
      obtain ⟨_, -, hFinite⟩ := Option.bind_eq_some_iff.mp hExponent
      obtain ⟨_, -, hItem⟩ := Option.bind_eq_some_iff.mp hFinite
      cases hItem
      rfl
  · obtain ⟨⟨e, after⟩, -, hExponent⟩ := Option.bind_eq_some_iff.mp hFraction
    obtain ⟨_, -, hFinite⟩ := Option.bind_eq_some_iff.mp hExponent
    obtain ⟨_, -, hItem⟩ := Option.bind_eq_some_iff.mp hFinite
    cases hItem
    rfl

theorem eq_real_of_specialReal? (h : specialReal? text = some (item, rest)) : item = .real := by
  obtain ⟨after, -, hItem⟩ := Option.bind_eq_some_iff.mp h
  cases hItem
  rfl

theorem bounded_of_numeric? (h : numeric? text = some (item, rest)) : item.Bounded := by
  unfold numeric? at h
  rcases Option.or_eq_some_iff.mp h with h | ⟨-, h⟩
  · rw [eq_moment_of_moment? h]
    exact Item.bounded_of_single nofun rfl
  rcases Option.or_eq_some_iff.mp h with h | ⟨-, h⟩
  · rw [eq_real_of_real? h]
    exact Item.bounded_of_single nofun rfl
  rcases Option.or_eq_some_iff.mp h with h | ⟨-, h⟩
  · rw [eq_real_of_specialReal? h]
    exact Item.bounded_of_single nofun rfl
  · exact bounded_of_integer? h

end Values

/-- With so much fuel, what is read as a value, as items or as entries is bounded. -/
structure ReadsBounded (fuel : Nat) : Prop where
  value : ∀ {room : Nat} {text rest : List Char} {item : Item},
    value? room fuel text = some (item, rest) → item.Bounded
  items : ∀ {room : Nat} {text rest : List Char} {items : List Item},
    items? room fuel text = some (items, rest) → ∀ i ∈ items, i.Bounded
  entries : ∀ {room : Nat} {text rest : List Char} {found entries : Entries}, found.Bounded →
    entries? room fuel text found = some (entries, rest) → entries.Bounded

namespace ReadsBounded

variable {fuel room : Nat} {text rest : List Char}

theorem value_succ (h : ReadsBounded fuel) {item : Item}
    (hRead : value? room (fuel + 1) text = some (item, rest)) : item.Bounded := by
  unfold value? at hRead
  split at hRead
  · cases hRead
  · split at hRead
    · cases hRead
    · obtain ⟨⟨items, after⟩, hItems, hOk⟩ := Option.bind_eq_some_iff.mp hRead
      cases hOk
      exact Item.bounded_array_iff.mpr (h.items hItems)
  · split at hRead
    · cases hRead
    · split at hRead
      · cases hRead
        exact Item.bounded_table_iff.mpr Entries.bounded_nil
      · obtain ⟨⟨entries, after⟩, hEntries, hOk⟩ := Option.bind_eq_some_iff.mp hRead
        cases hOk
        exact Item.bounded_table_iff.mpr (h.entries Entries.bounded_nil hEntries)
  · split at hRead
    · obtain ⟨s, -, hOk⟩ := Option.map_eq_some_iff.mp hRead
      cases hOk
      exact Item.bounded_of_single nofun rfl
    · split at hRead
      · obtain ⟨after, -, hOk⟩ := Option.map_eq_some_iff.mp hRead
        cases hOk
        exact Item.bounded_of_single nofun rfl
      · split at hRead
        · obtain ⟨after, -, hOk⟩ := Option.map_eq_some_iff.mp hRead
          cases hOk
          exact Item.bounded_of_single nofun rfl
        · exact bounded_of_numeric? hRead

theorem items_succ (h : ReadsBounded fuel) {items : List Item}
    (hRead : items? room (fuel + 1) text = some (items, rest)) : ∀ i ∈ items, i.Bounded := by
  unfold items? at hRead
  split at hRead
  · cases hRead
    exact List.forall_mem_nil _
  · obtain ⟨⟨item, after⟩, hItem, hMore⟩ := Option.bind_eq_some_iff.mp hRead
    have hFirst := h.value hItem
    dsimp only at hMore
    split at hMore
    · cases hMore
      exact List.forall_mem_singleton.mpr hFirst
    · obtain ⟨⟨more, after'⟩, hItems, hOk⟩ := Option.bind_eq_some_iff.mp hMore
      cases hOk
      exact List.forall_mem_cons.mpr ⟨hFirst, h.items hItems⟩
    · cases hMore

theorem entries_succ (h : ReadsBounded fuel) {found entries : Entries} (hFound : found.Bounded)
    (hRead : entries? room (fuel + 1) text found = some (entries, rest)) : entries.Bounded := by
  unfold entries? at hRead
  obtain ⟨⟨⟨path, key⟩, after⟩, -, hAssign⟩ := Option.bind_eq_some_iff.mp hRead
  obtain ⟨after, -, hValue⟩ := Option.bind_eq_some_iff.mp hAssign
  obtain ⟨⟨item, after⟩, hItem, hEntry⟩ := Option.bind_eq_some_iff.mp hValue
  obtain ⟨found', hPut, hMore⟩ := Option.bind_eq_some_iff.mp hEntry
  have hFound' := hFound.put (h.value hItem) hPut
  split at hMore
  · cases hMore
    exact hFound'
  · exact h.entries hFound' hMore
  · cases hMore

end ReadsBounded

theorem readsBounded (fuel : Nat) : ReadsBounded fuel := by
  induction fuel with
  | zero =>
    constructor
    · intro room text rest item h
      cases h
    · intro room text rest items h
      cases h
    · intro room text rest found entries _ h
      cases h
  | succ fuel ih => exact ⟨ih.value_succ, ih.items_succ, ih.entries_succ⟩

/-! ### Documents -/

theorem bounded_of_assignment? {text rest : List Char} {path : List String} {key : String}
    {item : Item} (h : assignment? text = some ((path, key, item), rest)) : item.Bounded := by
  obtain ⟨⟨⟨path', key'⟩, after⟩, -, hAssign⟩ := Option.bind_eq_some_iff.mp h
  obtain ⟨after, -, hValue⟩ := Option.bind_eq_some_iff.mp hAssign
  obtain ⟨⟨item', after⟩, hItem, hEnd⟩ := Option.bind_eq_some_iff.mp hValue
  obtain ⟨after, -, hOk⟩ := Option.bind_eq_some_iff.mp hEnd
  cases hOk
  exact (readsBounded _).value hItem

/-- Every line keeps the table bounded. -/
theorem Entries.Bounded.lines? {fuel : Nat} {text : List Char} {place : List String}
    {root entries : Entries} (h : root.Bounded)
    (hLines : Toml.lines? fuel text place root = some entries) : entries.Bounded := by
  induction fuel generalizing text place root with
  | zero => cases hLines
  | succ fuel ih =>
    unfold Toml.lines? at hLines
    split at hLines
    · cases hLines
      exact h
    · obtain ⟨after, -, hMore⟩ := Option.bind_eq_some_iff.mp hLines
      exact ih h hMore
    · obtain ⟨⟨⟨path, key⟩, after⟩, -, hHeader⟩ := Option.bind_eq_some_iff.mp hLines
      obtain ⟨root', hRoot, hMore⟩ := Option.bind_eq_some_iff.mp hHeader
      exact ih (h.changeAt Bounded.openElement hRoot) hMore
    · obtain ⟨⟨⟨path, key⟩, after⟩, -, hHeader⟩ := Option.bind_eq_some_iff.mp hLines
      obtain ⟨root', hRoot, hMore⟩ := Option.bind_eq_some_iff.mp hHeader
      exact ih (h.changeAt Bounded.openTable hRoot) hMore
    · split at hLines
      · exact ih h hLines
      · obtain ⟨⟨⟨path, key, item⟩, after⟩, hLine, hEntry⟩ := Option.bind_eq_some_iff.mp hLines
        obtain ⟨root', hRoot, hMore⟩ := Option.bind_eq_some_iff.mp hEntry
        exact ih (h.changeAt (Bounded.put (bounded_of_assignment? hLine)) hRoot) hMore

/-- The integers of a document fit a signed word. -/
theorem bounded_of_ofText? {text : String} {root : Entries} (h : ofText? text = some root) :
    root.Bounded := Entries.bounded_nil.lines? h

end QueryTree.Toml
