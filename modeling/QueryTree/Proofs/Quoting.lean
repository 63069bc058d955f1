import QueryTree.Proofs.Compilation
import QueryTree.Proofs.Numerals
import QueryTree.Proofs.Relabeling
import QueryTree.Proofs.Wording

/-! Names stay between their quotes.  Cut at every quote, a statement falls into segments: those
with odd numbers are its names, in order, and those with even numbers are what it would have
between its names whatever they were called.  Two trees differ only in their names when they agree
after all names are made empty (`Query.nameless`). -/

namespace QueryTree

/-- The tree with empty names: what it is but for its names. -/
def Query.nameless (q : Query) : Query := q.relabel { names := fun _ => "" }

/-! ### Segments -/

/-- Puts characters in front of the first segment. -/
def prepend (cs : List Char) : List (List Char) → List (List Char)
  | [] => [cs]
  | segment :: rest => (cs ++ segment) :: rest

theorem prepend_ne_nil (cs : List Char) (segments : List (List Char)) :
    prepend cs segments ≠ [] := by
  cases segments <;> simp [prepend]

theorem intercalate_cons {w : Char} {segment : List Char} {rest : List (List Char)}
    (h : rest ≠ []) : [w].intercalate (segment :: rest) = segment ++ w :: [w].intercalate rest := by
  cases rest with
  | nil => exact absurd rfl h
  | cons next rest => simp [List.intercalate]

theorem intercalate_prepend {w : Char} (cs : List Char) {segments : List (List Char)}
    (h : segments ≠ []) :
    [w].intercalate (prepend cs segments) = cs ++ [w].intercalate segments := by
  match segments with
  | [] => exact absurd rfl h
  | [segment] => simp [prepend, List.intercalate]
  | segment :: next :: rest =>
    have hNext : next :: rest ≠ [] := List.cons_ne_nil next rest
    rw [prepend, intercalate_cons hNext, intercalate_cons hNext, List.append_assoc]

theorem length_prepend (cs : List Char) {segments : List (List Char)} (h : segments ≠ []) :
    (prepend cs segments).length = segments.length := by
  cases segments with
  | nil => exact absurd rfl h
  | cons segment rest => rfl

theorem getElem?_prepend_succ (cs : List Char) (segments : List (List Char)) (i : Nat) :
    (prepend cs segments)[i + 1]? = segments[i + 1]? := by
  cases segments <;> simp [prepend]

theorem getElem?_prepend_zero (cs : List Char) {segments : List (List Char)} (h : segments ≠ []) :
    (prepend cs segments)[0]? = segments[0]?.map (cs ++ ·) := by
  cases segments with
  | nil => exact absurd rfl h
  | cons segment rest => rfl

theorem not_mem_prepend {w : Char} {cs : List Char} {segments : List (List Char)}
    (hcs : w ∉ cs) (h : ∀ segment ∈ segments, w ∉ segment) :
    ∀ segment ∈ prepend cs segments, w ∉ segment := by
  cases segments with
  | nil => simpa [prepend] using hcs
  | cons segment rest =>
    have hSegment := h segment List.mem_cons_self
    have hRest := fun next hNext => h next (List.mem_cons_of_mem segment hNext)
    simpa [prepend, hcs, hSegment] using hRest

namespace Token

/-- The segments of tokens between the quotes of their names. -/
def segments (d : Dialect) (index : Nat) : List Token → List (List Char)
  | [] => [[]]
  | .text s :: rest => prepend s.toList (segments d index rest)
  | .name s :: rest => [] :: s.toList :: segments d index rest
  | .hole _ :: rest => prepend (d.placeholder index).toList (segments d (index + 1) rest)

variable (d : Dialect)

theorem segments_ne_nil (index : Nat) (tokens : List Token) : segments d index tokens ≠ [] := by
  match tokens with
  | [] | .name _ :: _ => simp [segments]
  | .text _ :: _ | .hole _ :: _ => exact prepend_ne_nil _ _

/-- The text of tokens is that of their segments with quotes between them. -/
theorem toList_render (index : Nat) (tokens : List Token) :
    (render d index tokens).toList = [d.quote].intercalate (segments d index tokens) := by
  induction tokens generalizing index with
  | nil => simp [render, segments, List.intercalate]
  | cons t rest ih =>
    have hRest := segments_ne_nil d index rest
    cases t with
    | text s => rw [render, segments, intercalate_prepend _ hRest, String.toList_append, ih]
    | name s =>
      rw [segments, intercalate_cons (by simp), intercalate_cons hRest, ← ih]
      simp [render]
    | hole v =>
      rw [render, segments, intercalate_prepend _ (segments_ne_nil d (index + 1) rest),
        String.toList_append, ih]

theorem not_mem_segments {tokens : List Token} (hAvoid : ∀ t ∈ tokens, t.Avoids d.quote)
    (hHoles : ∀ index, d.quote ∉ (d.placeholder index).toList) (index : Nat) :
    ∀ segment ∈ segments d index tokens, d.quote ∉ segment := by
  induction tokens generalizing index with
  | nil => simp [segments]
  | cons t rest ih =>
    have hRest := ih fun t' ht => hAvoid t' (List.mem_cons_of_mem t ht)
    have hHead : t.Avoids d.quote := hAvoid t List.mem_cons_self
    cases t with
    | text s => exact not_mem_prepend hHead (hRest index)
    | name s =>
      simp only [segments, List.forall_mem_cons]
      exact ⟨List.not_mem_nil, hHead, hRest index⟩
    | hole v => exact not_mem_prepend (hHoles index) (hRest (index + 1))

theorem length_segments (index : Nat) (tokens : List Token) :
    (segments d index tokens).length = 2 * (names tokens).length + 1 := by
  induction tokens generalizing index with
  | nil => rfl
  | cons t rest ih =>
    cases t with
    | text s => rw [segments, length_prepend _ (segments_ne_nil d index rest), ih, names_text]
    | name s =>
      rw [segments, List.length_cons, List.length_cons, ih, names_name, List.length_cons]
      omega
    | hole v =>
      rw [segments, length_prepend _ (segments_ne_nil d (index + 1) rest), ih, names_hole]

/-- The segments with odd numbers are the names. -/
theorem getElem?_segments_odd (index : Nat) (tokens : List Token) (i : Nat) :
    (segments d index tokens)[2 * i + 1]? = (names tokens)[i]?.map String.toList := by
  induction tokens generalizing index i with
  | nil => rfl
  | cons t rest ih =>
    cases t with
    | text s => rw [segments, getElem?_prepend_succ, ih, names_text]
    | name s =>
      cases i with
      | zero => rfl
      | succ i =>
        have hIndex : 2 * (i + 1) + 1 = 2 * i + 1 + 1 + 1 := by omega
        rw [segments, names_name, hIndex, List.getElem?_cons_succ, List.getElem?_cons_succ, ih,
          List.getElem?_cons_succ]
    | hole v => rw [segments, getElem?_prepend_succ, ih, names_hole]

/-- The segments with even numbers are the same after a relabeling. -/
theorem getElem?_segments_even (ρ : Relabeling) (index : Nat) (tokens : List Token) (i : Nat) :
    (segments d index (tokens.map (relabel ρ)))[2 * i]? = (segments d index tokens)[2 * i]? := by
  induction tokens generalizing index i with
  | nil => rfl
  | cons t rest ih =>
    have hPrepend : ∀ (cs : List Char) (index : Nat),
        (prepend cs (segments d index (rest.map (relabel ρ))))[2 * i]? =
          (prepend cs (segments d index rest))[2 * i]? := by
      intro cs index
      cases i with
      | zero =>
        rw [getElem?_prepend_zero _ (segments_ne_nil d index _),
          getElem?_prepend_zero _ (segments_ne_nil d index _), ih index 0]
      | succ i =>
        have hIndex : 2 * (i + 1) = 2 * i + 1 + 1 := by omega
        rw [hIndex, getElem?_prepend_succ, getElem?_prepend_succ, ← hIndex, ih]
    cases t with
    | text s => exact hPrepend _ index
    | name s =>
      cases i with
      | zero => rfl
      | succ i => exact ih index i
    | hole v => exact hPrepend _ (index + 1)

end Token

/-- Settings whose quote is in neither fixed text nor placeholders. -/
structure Settings.Quotes (settings : Settings) (quote : Char) : Prop where
  identifierQuote : settings.identifierQuote = quote
  not_digit : Decimal.isDigit quote = false
  not_fixed : isFixed quote = false
  not_mem_lead : quote ∉ settings.placeholderLead.toList

theorem Settings.Quotes.not_mem_placeholder {settings : Settings} {quote : Char}
    (h : settings.Quotes quote) (index : Nat) :
    quote ∉ (settings.dialect.placeholder index).toList := by
  simp only [dialect, String.toList_append, Nat.toString_eq_repr, Nat.toList_repr, List.mem_append,
    not_or]
  exact ⟨h.not_mem_lead, Decimal.not_mem_toDigits h.not_digit _⟩

namespace Query

theorem verbatim_relabel (ρ : Relabeling) (q : Query) : (q.relabel ρ).verbatim = q.verbatim := by
  have hParts : (q.relabel ρ).parts = q.parts.map (Part.relabel ρ) :=
    Part.parts_relabel ρ (.query q)
  rw [verbatim, verbatim, hParts, List.flatMap_map]
  refine List.flatMap_congr fun a _ => ?_
  cases a with
  | node n => cases n <;> rfl
  | raw r =>
    obtain ⟨fs, ps⟩ := r
    rfl
  | select | query | join | scalar => rfl

section Segments

variable {q : Query} {settings : Settings} {quote : Char} {s : Statement}

theorem splitOn_sql (hQuotes : settings.Quotes quote) (hAvoids : q.Avoids quote)
    (hs : q.compile settings.dialect = .ok s) :
    s.sql.toList.splitOn quote = Token.segments settings.dialect 0 q.tokens := by
  obtain ⟨-, rfl⟩ := compile_eq_ok_iff.mp hs
  have hQuote : settings.dialect.quote = quote := hQuotes.identifierQuote
  have hText : (Statement.ofTokens settings.dialect q.tokens).sql.toList =
      [quote].intercalate (Token.segments settings.dialect 0 q.tokens) := by
    rw [← hQuote]
    exact Token.toList_render settings.dialect 0 q.tokens
  have hFree : ∀ segment ∈ Token.segments settings.dialect 0 q.tokens, quote ∉ segment := by
    have hTokens := hAvoids.tokens hQuotes.not_fixed
    have hHoles := hQuotes.not_mem_placeholder
    rw [← hQuote] at hTokens hHoles ⊢
    exact Token.not_mem_segments settings.dialect hTokens hHoles 0
  rw [hText, List.splitOn_intercalate quote hFree (Token.segments_ne_nil _ 0 _)]

/-- A tree that differs in its names only has a statement too, with the same segments between the
names. -/
theorem splitOn_sql_of_nameless_eq (hQuotes : settings.Quotes quote) (hAvoids : q.Avoids quote)
    (hs : q.compile settings.dialect = .ok s) {q' : Query} (hSame : q'.nameless = q.nameless)
    (hNames : ∀ n ∈ q'.names, quote ∉ n.toList) :
    ∃ s', q'.compile settings.dialect = .ok s' ∧
      ∀ i, (s'.sql.toList.splitOn quote)[2 * i]? = (s.sql.toList.splitOn quote)[2 * i]? := by
  have hVerbatim : q'.verbatim = q.verbatim := by
    rw [← verbatim_relabel, ← nameless, hSame, nameless, verbatim_relabel]
  have hAvoids' : q'.Avoids quote := ⟨hNames, hVerbatim ▸ hAvoids.2⟩
  have hFault : q'.firstFault? = none := by
    rw [← firstFault?_relabel, ← nameless, hSame, nameless, firstFault?_relabel]
    exact (compile_eq_ok_iff.mp hs).1
  refine ⟨_, compile_of_fault_none _ hFault, fun i => ?_⟩
  have hTokens : q'.nameless.tokens = q.nameless.tokens := by rw [hSame]
  rw [nameless, nameless, tokens_relabel, tokens_relabel] at hTokens
  rw [splitOn_sql hQuotes hAvoids' (compile_of_fault_none _ hFault), splitOn_sql hQuotes hAvoids hs,
    ← Token.getElem?_segments_even _ { names := fun _ => "" }, hTokens,
    Token.getElem?_segments_even]

end Segments

/-- Names never leave their quotes.  Cut at its quotes, a statement has its names at the odd places,
in the order in which they are written, and what stands at the even places is the same for every
tree that differs in its names only. -/
theorem names_stay_quoted (d : Dialect) (quote : Char)
    (hDialect : (d = .standard ∧ quote = '"') ∨
      ∃ settings : Settings, d = settings.dialect ∧ settings.Quotes quote)
    (q : Query) (hAvoids : q.Avoids quote) (s : Statement) (hs : q.compile d = .ok s) :
    (s.sql.toList.splitOn quote).length = 2 * q.names.length + 1 ∧
    (∀ i, (s.sql.toList.splitOn quote)[2 * i + 1]? = q.names[i]?.map String.toList) ∧
    ∀ q' : Query, q'.nameless = q.nameless → (∀ n ∈ q'.names, quote ∉ n.toList) →
      ∃ s', q'.compile d = .ok s' ∧
        ∀ i, (s'.sql.toList.splitOn quote)[2 * i]? = (s.sql.toList.splitOn quote)[2 * i]? := by
  obtain ⟨settings, rfl, hQuotes⟩ :
      ∃ settings : Settings, d = settings.dialect ∧ settings.Quotes quote := by
    rcases hDialect with ⟨rfl, rfl⟩ | hSettings
    · exact ⟨{}, Settings.dialect_default.symm, rfl, by decide, by decide, by decide⟩
    · exact hSettings
  have hSplit := splitOn_sql hQuotes hAvoids hs
  refine ⟨?_, fun i => ?_, fun q' hSame hNames => ?_⟩
  · rw [hSplit, Token.length_segments, names_tokens]
  · rw [hSplit, Token.getElem?_segments_odd, names_tokens]
  · exact splitOn_sql_of_nameless_eq hQuotes hAvoids hs hSame hNames

/-- Orders from a subquery with an empty name, and with two names side by side in raw text. -/
def plainOrders : Query where
  select := some { selections := [.raw ⟨["", "", ""], [.identifier "total", .identifier "id"]⟩] }
  sources := [.aliased (.query { sources := [.table (some "shop") "orders"] }) ""]

/-- The same with names that are more like statement text. -/
def oddOrders : Query where
  select := some { selections := [.raw ⟨["", "", ""], [.identifier "\" or 1", .identifier " "]⟩] }
  sources := [.aliased (.query { sources := [.table (some "(") ", $0"] }) "--"]

theorem names_stay_quoted_orders :
    let settings : Settings := ⟨'|', "$", 0⟩
    let s : Statement := ⟨"select |total||id| from (from |shop|.|orders|) as ||", []⟩
    settings.Quotes '|' ∧ plainOrders.Avoids '|' ∧ plainOrders.compile settings.dialect = .ok s ∧
    oddOrders.nameless = plainOrders.nameless ∧ (∀ n ∈ oddOrders.names, '|' ∉ n.toList) ∧
    (∀ i, (s.sql.toList.splitOn '|')[2 * i + 1]? =
      ["total", "id", "shop", "orders", ""][i]?.map String.toList) ∧
    ∃ s', oddOrders.compile settings.dialect = .ok s' ∧
      ∀ i, (s'.sql.toList.splitOn '|')[2 * i]? = (s.sql.toList.splitOn '|')[2 * i]? := by
  intro settings s
  have hVerbatim : plainOrders.verbatim = ["", "", ""] := by cbv
  have hAvoids : plainOrders.Avoids '|' := by
    rw [Avoids, hVerbatim]
    decide
  have hQuotes : settings.Quotes '|' := ⟨rfl, by decide, by decide, by decide⟩
  have hs : plainOrders.compile settings.dialect = .ok s := by cbv
  have hSame : oddOrders.nameless = plainOrders.nameless := rfl
  have hNames : ∀ n ∈ oddOrders.names, '|' ∉ n.toList := by decide
  obtain ⟨-, hOdd, hEven⟩ := names_stay_quoted settings.dialect '|'
    (.inr ⟨settings, rfl, hQuotes⟩) plainOrders hAvoids s hs
  exact ⟨hQuotes, hAvoids, hs, hSame, hNames, hOdd, hEven oddOrders hSame hNames⟩

end Query

end QueryTree
