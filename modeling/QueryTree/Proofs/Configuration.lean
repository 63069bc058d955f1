import QueryTree.Config
import QueryTree.Proofs.Toml.Integers
import QueryTree.Proofs.Toml.Tables

/-! Settings and the documents that give them.  Every document that is accepted gives valid
settings, and each of these is given by the table that lists it, with its strings in any spelling;
a key that the table leaves out keeps its default. -/

namespace QueryTree.Settings

open QueryTree.Toml (Item Entries Spelling)

variable {s : Settings}

/-- Settings that a document can give: a base is an integer of 64 bits with a sign. -/
structure Valid (s : Settings) : Prop where
  lead : s.placeholderLead ≠ ""
  quote : Text.isBlank s.identifierQuote = false
  base : s.placeholderBase ≤ 0x7FFFFFFFFFFFFFFF

/-! ### What a document gives -/

theorem problem?_eq_none_iff :
    s.problem? = none ↔ s.placeholderLead ≠ "" ∧ Text.isBlank s.identifierQuote = false := by
  rw [problem?, Ne, ← String.isEmpty_iff]
  split
  · next hEmpty => simp [hEmpty]
  · next hEmpty =>
    split
    · next hBlank => simp [hBlank]
    · next hBlank => simp [hEmpty, hBlank]

theorem ofToml_eq_ok_iff {text : String} :
    ofToml text = .ok s ↔ (Toml.ofText? text).bind ofRoot? = some s ∧ s.problem? = none := by
  constructor
  · intro h
    rw [ofToml] at h
    split at h
    · cases h
    · next hSome =>
      split at h
      · cases h
      · next hNone =>
        cases h
        exact ⟨hSome, hNone⟩
  · rintro ⟨hSome, hNone⟩
    rw [ofToml, hSome]
    dsimp only
    rw [hNone]

theorem base_le_of_baseOf? {item : Item} (hItem : item.Bounded) {base : Nat}
    (h : baseOf? item = some base) : base ≤ 0x7FFFFFFFFFFFFFFF := by
  cases item with
  | integer n =>
    have hBound := hItem.integer_lt
    rw [baseOf?] at h
    split at h
    · cases h
      omega
    · cases h
  | _ => cases h

theorem base_le_of_ofItems? {quote lead base : Option Item}
    (hBase : ∀ item, base = some item → item.Bounded) (h : ofItems? quote lead base = some s) :
    s.placeholderBase ≤ 0x7FFFFFFFFFFFFFFF := by
  simp only [ofItems?, Option.bind_eq_bind, Option.bind_eq_some_iff] at h
  obtain ⟨_, -, _, -, b, hRead, hSettings⟩ := h
  cases hSettings
  cases base with
  | none =>
    cases hRead
    exact Nat.zero_le _
  | some item => exact base_le_of_baseOf? (hBase item rfl) hRead

theorem base_le_of_ofItem? {item : Item} (hItem : item.Bounded) (h : ofItem? item = some s) :
    s.placeholderBase ≤ 0x7FFFFFFFFFFFFFFF := by
  cases item with
  | table origin entries =>
    have hEntries := Item.bounded_table_iff.mp hItem
    exact base_le_of_ofItems? (fun _ hFind => hEntries.find? hFind) h
  | array items =>
    have hItems := Item.bounded_array_iff.mp hItem
    exact base_le_of_ofItems? (fun item hGet => hItems item (List.mem_of_getElem? hGet)) h
  | tables elements =>
    have hElements := Item.bounded_tables_iff.mp hItem
    refine base_le_of_ofItems? (fun item hGet => ?_) h
    obtain ⟨element, hMem, rfl⟩ := List.mem_map.mp (List.mem_of_getElem? hGet)
    exact Item.bounded_table_iff.mpr (hElements element hMem)
  | moment =>
    cases h
    exact Nat.zero_le _
  | string | integer | bool | real => cases h

theorem base_le_of_ofRoot? {root : Entries} (hRoot : root.Bounded) (h : ofRoot? root = some s) :
    s.placeholderBase ≤ 0x7FFFFFFFFFFFFFFF := by
  rw [ofRoot?] at h
  split at h
  · cases h
    exact Nat.zero_le _
  · next hFind => exact base_le_of_ofItem? (hRoot.find? hFind) h

theorem valid_of_ofToml {text : String} (h : ofToml text = .ok s) : s.Valid := by
  obtain ⟨hRoot, hNone⟩ := ofToml_eq_ok_iff.mp h
  obtain ⟨root, hText, hRoot⟩ := Option.bind_eq_some_iff.mp hRoot
  obtain ⟨hLead, hQuote⟩ := problem?_eq_none_iff.mp hNone
  exact ⟨hLead, hQuote, base_le_of_ofRoot? (Toml.bounded_of_ofText? hText) hRoot⟩

/-- A placeholder shows its index. -/
theorem placeholder_inj {i j : Nat} (h : s.dialect.placeholder i = s.dialect.placeholder j) :
    i = j := by
  have hText := congrArg String.toList h
  simp only [dialect, String.toList_append, List.append_cancel_left_eq, Nat.toString_eq_repr,
    Nat.toList_repr] at hText
  have hValue := congrArg Decimal.natOfDigits hText
  rw [Decimal.natOfDigits_toDigits, Decimal.natOfDigits_toDigits] at hValue
  exact Nat.add_right_cancel hValue

/-! ### Documents of settings -/

/-- The keys of the table `compiler`. -/
inductive Key where
  | quote
  | lead
  | base
deriving DecidableEq

namespace Key

def name : Key → String
  | quote => "identifier_quote"
  | lead => "placeholder_prefix"
  | base => "placeholder_base"

theorem name_inj {k l : Key} (h : k.name = l.name) : k = l := by
  cases k <;> cases l <;> first | rfl | exact absurd h (by decide)

def item (s : Settings) : Key → Item
  | quote => .string (String.singleton s.identifierQuote)
  | lead => .string s.placeholderLead
  | base => .integer s.placeholderBase

/-- The value of a key as it is written: strings are in quotes, and the base is decimal. -/
def text (w : Spelling) (s : Settings) : Key → List Char
  | quote => w.quoted (String.singleton s.identifierQuote)
  | lead => w.quoted s.placeholderLead
  | base => Nat.toDigits 10 s.placeholderBase

def line (w : Spelling) (s : Settings) (k : Key) : Toml.Line :=
  ⟨k.name.toList, k.text w s, k.item s⟩

theorem line_entry (w : Spelling) (s : Settings) (k : Key) :
    (k.line w s).entry = (k.name, k.item s) := by
  show (String.ofList k.name.toList, k.item s) = _
  rw [String.ofList_toList]

theorem bare_name (k : Key) : Toml.Bare k.name.toList := by
  cases k <;> decide

theorem line_proper (w : Spelling) (h : s.Valid) (k : Key) : (k.line w s).Proper where
  bare := k.bare_name
  reads := by
    cases k with
    | quote => exact Toml.valueText_quoted w (by simp)
    | lead => exact Toml.valueText_quoted w h.lead
    | base => exact Toml.valueText_toDigits (Nat.lt_succ_of_le h.base)

/-- Each key is found where it is listed. -/
theorem find?_name (s : Settings) (keys : List Key) (k : Key) :
    Entries.find? (keys.map fun l => (l.name, l.item s)) k.name =
      if k ∈ keys then some (k.item s) else none := by
  rw [Entries.find?]
  induction keys with
  | nil => rfl
  | cons l keys ih =>
    rw [List.map_cons, List.lookup_cons]
    by_cases hKey : k = l
    · subst hKey
      simp
    · have hName : (k.name == l.name) = false :=
        beq_eq_false_iff_ne.mpr fun hName => hKey (name_inj hName)
      simp [hName, hKey, ih]

end Key

/-- The document with the table of some keys, in their order. -/
def document (w : Spelling) (s : Settings) (keys : List Key) : String :=
  Toml.tableText "compiler" (keys.map (Key.line w s))

/-- The settings of some keys, with the defaults of the others. -/
def keeping (s : Settings) (keys : List Key) : Settings :=
  let defaults : Settings := {}
  { identifierQuote := if .quote ∈ keys then s.identifierQuote else defaults.identifierQuote
    placeholderLead := if .lead ∈ keys then s.placeholderLead else defaults.placeholderLead
    placeholderBase := if .base ∈ keys then s.placeholderBase else defaults.placeholderBase }

theorem keeping_eq_self {keys : List Key} (h : ∀ k, k ∈ keys) : s.keeping keys = s := by
  simp [keeping, h]

theorem valid_default : ({} : Settings).Valid := ⟨by decide, by decide, by decide⟩

theorem Valid.keeping (h : s.Valid) (keys : List Key) : (s.keeping keys).Valid where
  lead := by
    show (if _ then _ else _) ≠ _
    split
    · exact h.lead
    · exact valid_default.lead
  quote := by
    show Text.isBlank (if _ then _ else _) = _
    split
    · exact h.quote
    · exact valid_default.quote
  base := by
    show (if _ then _ else _) ≤ _
    split
    · exact h.base
    · exact valid_default.base

theorem orDefault_ite {α : Type} {read : Item → Option α} {item : Item} {value : α}
    (h : read item = some value) (default : α) (p : Prop) [Decidable p] :
    orDefault read default (if p then some item else none) =
      some (if p then value else default) := by
  split
  · exact h
  · rfl

theorem ofEntries?_eq (entries : Entries) :
    ofEntries? entries = ofItems? (entries.find? Key.quote.name) (entries.find? Key.lead.name)
      (entries.find? Key.base.name) := rfl

theorem ofEntries?_map (s : Settings) (keys : List Key) :
    ofEntries? (keys.map fun k => (k.name, k.item s)) = some (s.keeping keys) := by
  have hQuote : quoteOf? (Key.quote.item s) = some s.identifierQuote := by
    simp [Key.item, quoteOf?]
  have hLead : leadOf? (Key.lead.item s) = some s.placeholderLead := rfl
  have hBase : baseOf? (Key.base.item s) = some s.placeholderBase := by
    simp [Key.item, baseOf?]
  have hFind := Key.find?_name s keys
  rw [ofEntries?_eq, hFind, hFind, hFind, ofItems?]
  simp only [orDefault_ite hQuote, orDefault_ite hLead, orDefault_ite hBase, Option.bind_eq_bind,
    Option.bind_some]
  rfl

theorem ofRoot?_table (entries : Entries) :
    ofRoot? [("compiler", .table .header entries)] = ofEntries? entries := by
  simp [ofRoot?, Entries.find?, ofItem?]

theorem ofToml_document (w : Spelling) (h : s.Valid) {keys : List Key} (hKeys : keys.Nodup) :
    ofToml (s.document w keys) = .ok (s.keeping keys) := by
  have hEntries : (keys.map (Key.line w s)).map Toml.Line.entry =
      keys.map fun k => (k.name, k.item s) := by
    rw [List.map_map]
    exact List.map_congr_left fun k _ => Key.line_entry w s k
  have hProper : ∀ l ∈ keys.map (Key.line w s), l.Proper := by
    intro l hl
    obtain ⟨k, -, rfl⟩ := List.mem_map.mp hl
    exact k.line_proper w h
  have hFresh : (((keys.map (Key.line w s)).map Toml.Line.entry).map Prod.fst).Nodup := by
    rw [hEntries, List.map_map]
    exact List.pairwise_map.mpr (hKeys.imp fun hne hName => hne (Key.name_inj hName))
  have hText := Toml.ofText?_tableText (show Toml.Bare "compiler".toList by decide) hProper hFresh
  have hKept := h.keeping keys
  have hRoot : (Toml.ofText? (s.document w keys)).bind ofRoot? = some (s.keeping keys) := by
    rw [document, hText, hEntries, Option.bind_some, ofRoot?_table]
    exact ofEntries?_map s keys
  exact ofToml_eq_ok_iff.mpr ⟨hRoot, problem?_eq_none_iff.mpr ⟨hKept.lead, hKept.quote⟩⟩

/-- An accepted document gives valid settings, and their placeholders are all different.
Conversely, the document of valid settings is accepted and gives them back, and without some of its
keys it gives the defaults for these. -/
theorem documents_give_the_valid_settings (w : Spelling) :
    (∀ text s, ofToml text = .ok s →
      s.Valid ∧ ∀ i j, i ≠ j → s.dialect.placeholder i ≠ s.dialect.placeholder j) ∧
    ∀ s : Settings, s.Valid →
      ofToml (s.document w [.quote, .lead, .base]) = .ok s ∧
      ∀ keys : List Key, keys.Nodup → ofToml (s.document w keys) = .ok (s.keeping keys) := by
  constructor
  · intro text s h
    exact ⟨valid_of_ofToml h, fun i j hij hText => hij (placeholder_inj hText)⟩
  · intro s h
    constructor
    · have hAll : ∀ k, k ∈ [Key.quote, .lead, .base] := by
        intro k
        cases k <;> decide
      have hText := ofToml_document w h (show [Key.quote, .lead, .base].Nodup by decide)
      rwa [keeping_eq_self hAll] at hText
    · intro keys hKeys
      exact ofToml_document w h hKeys

/-- The largest base, and characters that have to be escaped. -/
def extreme : Settings := ⟨'\x7f', "\"\\\n", 0x7FFFFFFFFFFFFFFF⟩

theorem documents_give_the_valid_settings_extreme :
    extreme.document .sparing [.lead, .base] =
      "[compiler]\nplaceholder_prefix = \"\\\"\\\\\\u000a\"\n" ++
        "placeholder_base = 9223372036854775807\n" ∧
    ofToml (extreme.document .sparing [.lead, .base]) =
      .ok { extreme with identifierQuote := '"' } ∧
    ofToml (extreme.document .sparing [.quote, .lead, .base]) = .ok extreme := by
  have h := (documents_give_the_valid_settings .sparing).2 extreme ⟨by decide, by decide, by decide⟩
  exact ⟨by cbv, h.2 [.lead, .base] (by decide), h.1⟩

end QueryTree.Settings
