import QueryTree.Proofs.Compilation
import QueryTree.Proofs.Numerals
import QueryTree.Proofs.Wording

/-! Parentheses in statements.  A query within another one, a node between parentheses, a list of
values and the fragments that a select list is distinct on write one pair of parentheses each, and
no other part writes any (`Part.layout_brackets`).  So where names, operators, raw fragments,
placeholders and quotes bring none along, the parentheses of a statement match, and there is a pair
for each such part of its tree. -/

namespace QueryTree

/-- A text without parentheses. -/
def Bare (s : String) : Prop := '(' ∉ s.toList ∧ ')' ∉ s.toList

instance (s : String) : Decidable (Bare s) := inferInstanceAs (Decidable (_ ∧ _))

/-- A text with `pairs` parentheses of either kind, of which no start has more closing ones. -/
structure Matched (pairs : Nat) (text : List Char) : Prop where
  opened : text.count '(' = pairs
  closed : text.count ')' = pairs
  covered : ∀ k, (text.take k).count ')' ≤ (text.take k).count '('

namespace Matched

variable {m n : Nat} {first second text : List Char}

theorem of_not_mem (hOpen : '(' ∉ text) (hClose : ')' ∉ text) : Matched 0 text := by
  refine ⟨List.count_eq_zero_of_not_mem hOpen, List.count_eq_zero_of_not_mem hClose, fun k => ?_⟩
  have hStart : ')' ∉ text.take k := fun h => hClose (List.mem_of_mem_take h)
  rw [List.count_eq_zero_of_not_mem hStart]
  exact Nat.zero_le _

theorem append (h : Matched m first) (h' : Matched n second) :
    Matched (m + n) (first ++ second) := by
  refine ⟨?_, ?_, fun k => ?_⟩
  · rw [List.count_append, h.opened, h'.opened]
  · rw [List.count_append, h.closed, h'.closed]
  · have hFirst := h.covered k
    have hSecond := h'.covered (k - first.length)
    rw [List.take_append, List.count_append, List.count_append]
    omega

theorem enclose (h : Matched n text) : Matched (n + 1) ('(' :: (text ++ [')'])) := by
  refine ⟨?_, ?_, fun k => ?_⟩
  · simp [h.opened]
  · simp [h.closed]
  · cases k with
    | zero => simp
    | succ k =>
      -- The last parenthesis is made up for by the first.
      have hInner := h.covered k
      have hLast : ([')'].take (k - text.length)).count ')' ≤ 1 :=
        List.Sublist.count_le ')' (List.take_sublist _ _)
      rw [List.take_succ_cons, List.count_cons_of_ne (by decide), List.count_cons_self,
        List.take_append, List.count_append, List.count_append]
      omega

end Matched

/-- A dialect that writes no parentheses. -/
structure Dialect.Bare (d : Dialect) : Prop where
  quote_ne_open : d.quote ≠ '('
  quote_ne_close : d.quote ≠ ')'
  placeholder : ∀ index, QueryTree.Bare (d.placeholder index)

/-- Settings that bring no parentheses along make such a dialect: numbers have none. -/
theorem Settings.bare_dialect {settings : Settings} (hOpen : settings.identifierQuote ≠ '(')
    (hClose : settings.identifierQuote ≠ ')') (hLead : Bare settings.placeholderLead) :
    settings.dialect.Bare where
  quote_ne_open := hOpen
  quote_ne_close := hClose
  placeholder index := by
    have hText : (settings.dialect.placeholder index).toList = settings.placeholderLead.toList ++
        Nat.toDigits 10 (index + settings.placeholderBase) := by
      simp [dialect, Nat.toString_eq_repr, Nat.toList_repr]
    rw [Bare, hText, List.mem_append, List.mem_append, not_or, not_or]
    exact ⟨⟨hLead.1, Decimal.not_mem_toDigits rfl _⟩, hLead.2, Decimal.not_mem_toDigits rfl _⟩

namespace Token

def Bare : Token → Prop
  | .text s | .name s => QueryTree.Bare s
  | .hole _ => True

/-- Wherever they stand, tokens are written with `pairs` pairs of parentheses that match. -/
def Paired (d : Dialect) (pairs : Nat) (tokens : List Token) : Prop :=
  ∀ index, Matched pairs (render d index tokens).toList

end Token

namespace Token.Paired

variable {d : Dialect} {m n : Nat} {first second tokens : List Token}

theorem nil : Paired d 0 [] := fun _ => .of_not_mem (by simp [render]) (by simp [render])

theorem append (h : Paired d m first) (h' : Paired d n second) :
    Paired d (m + n) (first ++ second) := by
  intro index
  rw [render_append, String.toList_append]
  exact (h index).append (h' _)

theorem token (hd : d.Bare) {t : Token} (ht : t.Bare) : Paired d 0 [t] := by
  intro index
  cases t with
  | text s => exact .of_not_mem (by simpa [render] using ht.1) (by simpa [render] using ht.2)
  | name s =>
    apply Matched.of_not_mem
    · simpa [render, hd.quote_ne_open.symm] using ht.1
    · simpa [render, hd.quote_ne_close.symm] using ht.2
  | hole v =>
    have hHole := hd.placeholder index
    exact .of_not_mem (by simpa [render] using hHole.1) (by simpa [render] using hHole.2)

/-- What opens a parenthesis may begin with other text, and what closes it may end with some. -/
theorem enclose (h : Paired d n tokens) (opening closing : String)
    (hOpening : QueryTree.Bare opening) (hClosing : QueryTree.Bare closing) :
    Paired d (n + 1) (.text (opening ++ "(") :: (tokens ++ [.text (")" ++ closing)])) := by
  intro index
  have hText : (render d index (.text (opening ++ "(") ::
      (tokens ++ [.text (")" ++ closing)]))).toList =
      opening.toList ++ ('(' :: ((render d index tokens).toList ++ [')']) ++ closing.toList) := by
    simp [render, render_append]
  have hInner := (h index).enclose.append (.of_not_mem hClosing.1 hClosing.2)
  have hAll := (Matched.of_not_mem hOpening.1 hOpening.2).append hInner
  rw [hText]
  rwa [Nat.zero_add] at hAll

end Token.Paired

open Token (Paired)
open Piece (text name node listed clause alternating)

/-! ### Parts with parentheses -/

namespace Part

def isQuery : Part → Bool
  | .query _ => true
  | _ => false

/-- Nodes that stand between parentheses: those in parentheses and the two kinds of list. -/
def isBracketed : Part → Bool
  | .node (.parens _) | .node (.valueList _) | .node (.scalarList _) => true
  | _ => false

def isDistinctOn : Part → Bool
  | .select s => !s.distinctOn.isEmpty
  | _ => false

/-- The pairs of parentheses in the layout of a part. -/
def ownPairs (a : Part) : Nat := a.isBracketed.toNat + a.isDistinctOn.toNat

/-- No name, operator text or raw fragment below a part has a parenthesis. -/
structure Bare (a : Part) : Prop where
  names : ∀ s ∈ a.names, QueryTree.Bare s
  verbatim : ∀ b ∈ a.parts, ∀ s ∈ b.verbatim, QueryTree.Bare s

end Part

/-- The pairs of parentheses that parts write: their own, and those around queries. -/
def pairsOf (parts : List Part) : Nat :=
  (parts.map fun a => a.isQuery.toNat + a.ownPairs).sum

@[simp] theorem pairsOf_cons (a : Part) (rest : List Part) :
    pairsOf (a :: rest) = a.isQuery.toNat + a.ownPairs + pairsOf rest := by
  simp [pairsOf]

theorem pairsOf_append (first second : List Part) :
    pairsOf (first ++ second) = pairsOf first + pairsOf second := by
  simp [pairsOf]

theorem pairsOf_eq (parts : List Part) : pairsOf parts =
    parts.countP Part.isQuery + parts.countP Part.isBracketed + parts.countP Part.isDistinctOn := by
  induction parts with
  | nil => rfl
  | cons a rest ih =>
    have hCount : ∀ p : Part → Bool, (a :: rest).countP p = rest.countP p + (p a).toNat := by
      intro p
      rw [List.countP_cons]
      cases p a <;> rfl
    rw [hCount, hCount, hCount]
    simp only [pairsOf, List.map_cons, List.sum_cons, Part.ownPairs] at ih ⊢
    omega

/-- The parts below the entries of a layout. -/
def Piece.below (pieces : List Piece) : List Part :=
  (pieces.filterMap Piece.part?).flatMap Part.parts

@[simp] theorem Piece.below_nil : below [] = [] := rfl

@[simp] theorem Piece.below_token (t : Token) (rest : List Piece) :
    below (.token t :: rest) = below rest := rfl

@[simp] theorem Piece.below_part (b : Part) (rest : List Piece) :
    below (.part b :: rest) = b.parts ++ below rest := rfl

@[simp] theorem Piece.below_append (first second : List Piece) :
    below (first ++ second) = below first ++ below second := by
  simp [below]

theorem Part.parts_eq_cons (a : Part) : a.parts = a :: Piece.below a.layout := a.parts_eq

/-! ### Layouts -/

theorem Piece.bare_of_mem_listed {s : String} {pieces : List Piece}
    (hParts : ∀ x ∈ pieces, ∃ a, x = .part a) (h : text s ∈ listed pieces) : Bare s := by
  rw [text_mem_listed hParts h]
  decide

theorem Lock.bare_keyword (l : Lock) : Bare l.keyword := by cases l <;> decide

theorem JoinKind.bare_keyword (k : JoinKind) : Bare k.keyword := by cases k <;> decide

theorem Node.bare_of_text_mem_layout {n : Node} (hOwn : (Part.node n).isBracketed = false)
    {s : String} (h : text s ∈ n.layout) : Bare s ∨ s ∈ (Part.node n).verbatim := by
  cases n with
  | parens | valueList | scalarList => cases hOwn
  | operator t => exact .inr (by simpa [layout, Part.verbatim] using h)
  | identifier | selection | select | query | value | join | raw => simp [layout] at h
  | reference | aliased | selectAll | and | or =>
    simp [layout] at h
    subst h
    exact .inl (by decide)
  | table schema t =>
    cases schema <;> simp [layout] at h
    subst h
    exact .inl (by decide)
  | filter l o r =>
    cases l <;> simp [layout] at h <;> subst h
    all_goals exact .inl (by decide)

theorem Query.bare_of_text_mem_layout {q : Query} {t : String} (h : text t ∈ q.layout) :
    Bare t := by
  obtain ⟨select, sources, joins, condition, lock⟩ := q
  simp [layout] at h
  rcases h with ⟨-, rfl⟩ | rfl | h | ⟨-, rfl⟩ | h | ⟨l, -, rfl | rfl⟩
  · decide
  · decide
  · exact Piece.bare_of_mem_listed (by simp) h
  · decide
  · rw [Piece.text_mem_clause h]
    decide
  · decide
  · exact l.bare_keyword

theorem Join.bare_of_text_mem_layout {j : Join} {t : String} (h : text t ∈ j.layout) :
    Bare t := by
  obtain ⟨kind, table, condition⟩ := j
  simp [layout] at h
  rcases h with rfl | rfl | h
  · exact kind.bare_keyword
  · decide
  · rw [Piece.text_mem_clause h]
    decide

/-- The entries of a select list, after what it is distinct on. -/
def Select.entries (s : Select) : List Piece :=
  (if s.distinct then [text distinctKeyword, text " "] else []) ++ listed (s.selections.map node)

theorem Select.layout_eq_of_distinctOn {s : Select} (h : s.distinctOn ≠ []) :
    s.layout = [text "select "] ++ text "distinct on (" ::
      (listed (s.distinctOn.map node) ++ text ") " :: s.entries) := by
  have hFilled : s.distinctOn.isEmpty = false := List.isEmpty_eq_false_iff.mpr h
  simp [layout, entries, hFilled]

theorem Select.layout_eq {s : Select} (h : s.distinctOn = []) :
    s.layout = text "select " :: s.entries := by
  simp [layout, entries, h]

theorem Select.bare_of_text_mem_entries {s : Select} {t : String} (h : text t ∈ s.entries) :
    Bare t := by
  simp [entries] at h
  rcases h with ⟨-, rfl | rfl⟩ | h
  · decide
  · decide
  · exact Piece.bare_of_mem_listed (by simp) h

namespace Part

/-- A part writes no parentheses of its own, or one pair. -/
theorem layout_brackets (a : Part) :
    (a.ownPairs = 0 ∧ ∀ s, text s ∈ a.layout → QueryTree.Bare s ∨ s ∈ a.verbatim) ∨
    (a.ownPairs = 1 ∧ ∃ (before inner after : List Piece) (opening closing : String),
      a.layout = before ++ text (opening ++ "(") :: (inner ++ text (")" ++ closing) :: after) ∧
      QueryTree.Bare opening ∧ QueryTree.Bare closing ∧
      ∀ s, text s ∈ before ++ (inner ++ after) → QueryTree.Bare s) := by
  cases a with
  | node n =>
    cases n with
    | parens n =>
      exact .inr ⟨rfl, [], [Piece.node n], [], "", "", rfl, by decide, by decide, by simp⟩
    | valueList ns =>
      refine .inr ⟨rfl, [], listed (ns.map Piece.node), [], "", "", rfl, by decide, by decide, ?_⟩
      intro s hs
      rw [List.nil_append, List.append_nil] at hs
      exact Piece.bare_of_mem_listed (by simp) hs
    | scalarList vs =>
      refine .inr ⟨rfl, [], listed (vs.map fun v => .part (.scalar v)), [], "", "", rfl,
        by decide, by decide, ?_⟩
      intro s hs
      rw [List.nil_append, List.append_nil] at hs
      exact Piece.bare_of_mem_listed (by simp) hs
    | _ => exact .inl ⟨rfl, fun s hs => Node.bare_of_text_mem_layout rfl hs⟩
  | select t =>
    by_cases hDistinct : t.distinctOn = []
    · refine .inl ⟨by simp [ownPairs, isBracketed, isDistinctOn, hDistinct], fun s hs => .inl ?_⟩
      rw [layout, t.layout_eq hDistinct, List.mem_cons] at hs
      rcases hs with hs | hs
      · cases hs
        decide
      · exact t.bare_of_text_mem_entries hs
    · refine .inr ⟨by simp [ownPairs, isBracketed, isDistinctOn, hDistinct], [text "select "],
        listed (t.distinctOn.map Piece.node), t.entries, "distinct on ", " ",
        t.layout_eq_of_distinctOn hDistinct, by decide, by decide, fun s hs => ?_⟩
      rw [List.mem_append, List.mem_append, List.mem_singleton] at hs
      rcases hs with hs | hs | hs
      · cases hs
        decide
      · exact Piece.bare_of_mem_listed (by simp) hs
      · exact t.bare_of_text_mem_entries hs
  | query q => exact .inl ⟨rfl, fun s hs => .inl (q.bare_of_text_mem_layout hs)⟩
  | join j => exact .inl ⟨rfl, fun s hs => .inl (j.bare_of_text_mem_layout hs)⟩
  | raw r => exact .inl ⟨rfl, fun s hs => .inr (Piece.text_mem_alternating hs)⟩
  | scalar v => exact .inl ⟨rfl, fun s hs => by simp [layout] at hs⟩

namespace Bare

variable {a b : Part}

theorem of_part_mem_layout (h : a.Bare) (hb : .part b ∈ a.layout) : b.Bare := by
  constructor
  · intro s hs
    refine h.names s ?_
    rw [names_eq]
    exact List.mem_flatMap.mpr ⟨_, hb, hs⟩
  · intro c hc
    exact h.verbatim c (mem_parts_of_mem_layout hb hc)

/-- The tokens of a layout have no parentheses but those that the part itself writes. -/
theorem token (h : a.Bare) {t : Token} (ht : .token t ∈ a.layout)
    (hText : ∀ s, t = .text s → QueryTree.Bare s ∨ s ∈ a.verbatim) : t.Bare := by
  cases t with
  | text s =>
    rcases hText s rfl with hs | hs
    · exact hs
    · exact h.verbatim a a.mem_parts_self s hs
  | name s =>
    refine h.names s ?_
    rw [names_eq]
    exact List.mem_flatMap.mpr ⟨_, ht, by simp [Piece.names, Token.name?]⟩
  | hole v => trivial

end Bare

end Part

/-! ### Statements -/

section Statements

variable {d : Dialect}

theorem paired_pieces (hd : d.Bare) {pieces : List Piece}
    (hTokens : ∀ t, .token t ∈ pieces → t.Bare)
    (hParts : ∀ b, .part b ∈ pieces → Paired d (pairsOf b.parts) b.tokens) :
    Paired d (pairsOf (Piece.below pieces)) (pieces.flatMap Piece.tokens) := by
  induction pieces with
  | nil => exact .nil
  | cons x rest ih =>
    have hRest := ih (fun t ht => hTokens t (List.mem_cons_of_mem x ht))
      (fun b hb => hParts b (List.mem_cons_of_mem x hb))
    cases x with
    | token t =>
      have hAll := (Paired.token hd (hTokens t List.mem_cons_self)).append hRest
      rwa [Nat.zero_add] at hAll
    | part b =>
      have hAll := (hParts b List.mem_cons_self).append hRest
      rwa [← pairsOf_append] at hAll

/-- The layout of a part is written with the parentheses of the part itself and of all below it. -/
theorem Part.paired_layout (hd : d.Bare) {a : Part} (ha : a.Bare)
    (hParts : ∀ b, .part b ∈ a.layout → Paired d (pairsOf b.parts) b.tokens) :
    Paired d (a.ownPairs + pairsOf (Piece.below a.layout)) (a.layout.flatMap Piece.tokens) := by
  rcases a.layout_brackets with ⟨hOwn, hTexts⟩ |
    ⟨hOwn, before, inner, after, opening, closing, hLayout, hOpening, hClosing, hTexts⟩
  · rw [hOwn, Nat.zero_add]
    refine paired_pieces hd (fun t ht => ha.token ht ?_) hParts
    rintro s rfl
    exact hTexts s ht
  · -- The entries before, between and after the two parentheses are written apart.
    have hMem : ∀ x ∈ before ++ (inner ++ after), x ∈ a.layout := by
      intro x hx
      rw [hLayout]
      simp only [List.mem_append, List.mem_cons] at hx ⊢
      tauto
    have hPieces : ∀ pieces : List Piece, (∀ x ∈ pieces, x ∈ before ++ (inner ++ after)) →
        Paired d (pairsOf (Piece.below pieces)) (pieces.flatMap Piece.tokens) := by
      intro pieces hSub
      refine paired_pieces hd (fun t ht => ha.token (hMem _ (hSub _ ht)) ?_)
        fun b hb => hParts b (hMem _ (hSub _ hb))
      rintro s rfl
      exact .inl (hTexts s (hSub _ ht))
    have hBefore := hPieces before fun x hx => List.mem_append_left _ hx
    have hInner := hPieces inner fun x hx => List.mem_append_right _ (List.mem_append_left _ hx)
    have hAfter := hPieces after fun x hx => List.mem_append_right _ (List.mem_append_right _ hx)
    have hAll := hBefore.append ((hInner.enclose opening closing hOpening hClosing).append hAfter)
    have hPairs : a.ownPairs + pairsOf (Piece.below a.layout) =
        pairsOf (Piece.below before) + (pairsOf (Piece.below inner) + 1 +
          pairsOf (Piece.below after)) := by
      simp only [hOwn, hLayout, Piece.below_append, Piece.below_token, pairsOf_append]
      omega
    rw [hPairs, hLayout]
    simpa [Piece.tokens] using hAll

/-- Within a query, a part is written with parentheses that match. -/
theorem Part.paired (hd : d.Bare) {a : Part} (ha : a.Bare) :
    Paired d (pairsOf a.parts) a.tokens := by
  induction a using Part.induction with
  | step a ih =>
    have hLayout := Part.paired_layout hd ha fun b hb => ih b hb (ha.of_part_mem_layout hb)
    rw [tokens_eq, parts_eq_cons, pairsOf_cons]
    cases a with
    | query q =>
      have hEnclosed := hLayout.enclose "" "" (by decide) (by decide)
      have hPairs : (Part.query q).isQuery.toNat + (Part.query q).ownPairs +
          pairsOf (Piece.below (Part.query q).layout) =
          (Part.query q).ownPairs + pairsOf (Piece.below (Part.query q).layout) + 1 := by
        simp only [isQuery, Bool.toNat_true]
        omega
      rw [hPairs]
      exact hEnclosed
    | node | select | join | raw | scalar =>
      simp only [isQuery, Bool.toNat_false, Nat.zero_add]
      exact hLayout

end Statements

namespace Query

theorem bare_of_avoids {q : Query} (hOpen : q.Avoids '(') (hClose : q.Avoids ')') :
    (Part.query q).Bare where
  names s hs := ⟨hOpen.1 s hs, hClose.1 s hs⟩
  verbatim b hb s hs := by
    have hMem : s ∈ q.verbatim := List.mem_flatMap.mpr ⟨b, hb, hs⟩
    exact ⟨hOpen.2 s hMem, hClose.2 s hMem⟩

/-- The parentheses of a statement match: no start of it has more closing than opening ones, and
the whole has as many of either.  There is one pair for each query but the outermost, for each node
that stands between parentheses, and for each select list that is distinct on some fragments. -/
theorem parentheses_match (d : Dialect) (hd : d.Bare) (q : Query) (hOpen : q.Avoids '(')
    (hClose : q.Avoids ')') (s : Statement) (hs : q.compile d = .ok s) :
    (∀ start, start <+: s.sql.toList → start.count ')' ≤ start.count '(') ∧
    s.sql.toList.count ')' = s.sql.toList.count '(' ∧
    s.sql.toList.count '(' = q.parts.tail.countP Part.isQuery +
      q.parts.countP Part.isBracketed + q.parts.countP Part.isDistinctOn := by
  obtain ⟨-, rfl⟩ := compile_eq_ok_iff.mp hs
  have hBare := bare_of_avoids hOpen hClose
  have hLayout := Part.paired_layout hd hBare fun b hb =>
    Part.paired hd (hBare.of_part_mem_layout hb)
  have hMatched := hLayout 0
  have hParts : q.parts = .query q :: Piece.below q.layout := Part.parts_eq_cons (.query q)
  refine ⟨fun start hStart => ?_, ?_, ?_⟩
  · rw [List.prefix_iff_eq_take.mp hStart]
    exact hMatched.covered start.length
  · exact hMatched.closed.trans hMatched.opened.symm
  · have hOwn : (Part.query q).ownPairs = 0 := rfl
    have hOpened := hMatched.opened
    rw [hOwn, Nat.zero_add] at hOpened
    rw [hParts, List.tail_cons, List.countP_cons_of_neg Bool.false_ne_true,
      List.countP_cons_of_neg Bool.false_ne_true, ← pairsOf_eq]
    exact hOpened

/-- The last order of each customer, with an empty list, a list within parentheses, and a subquery
as the parameter of raw text. -/
def lastOrders : Query where
  select := some {
    selections := [.raw ⟨["", ""], [.query { sources := [.table none "p"] }]⟩]
    distinctOn := [.parens (.identifier "c")] }
  sources := [.query { select := some { selections := [.valueList []] }, sources := [.selectAll] }]
  condition := some (.parens (.scalarList [.int 1, .string ")"]))

theorem parentheses_match_lastOrders :
    let s : Statement :=
      ⟨"select distinct on ((#c#)) (from #p#) from (select () from *) where (($5, $6))",
        [.int 1, .string ")"]⟩
    let d := Settings.dialect ⟨'#', "$", 5⟩
    d.Bare ∧ lastOrders.Avoids '(' ∧ lastOrders.Avoids ')' ∧ lastOrders.compile d = .ok s ∧
    (∀ start, start <+: s.sql.toList → start.count ')' ≤ start.count '(') ∧
    s.sql.toList.count '(' = 2 + 4 + 1 := by
  intro s d
  have hDialect : d.Bare := Settings.bare_dialect (by decide) (by decide) (by decide)
  have hVerbatim : lastOrders.verbatim = ["", ""] := by cbv
  have hOpen : lastOrders.Avoids '(' := by
    rw [Avoids, hVerbatim]
    decide
  have hClose : lastOrders.Avoids ')' := by
    rw [Avoids, hVerbatim]
    decide
  have hs : lastOrders.compile d = .ok s := by cbv
  have hParts : lastOrders.parts = .query lastOrders :: Piece.below lastOrders.layout :=
    Part.parts_eq_cons _
  have hQueries : lastOrders.parts.tail.countP Part.isQuery = 2 := by
    rw [hParts, List.tail_cons]
    cbv
  have hBracketed : lastOrders.parts.countP Part.isBracketed = 4 := by cbv
  have hDistinct : lastOrders.parts.countP Part.isDistinctOn = 1 := by cbv
  obtain ⟨hStarts, -, hCount⟩ := parentheses_match d hDialect lastOrders hOpen hClose s hs
  rw [hQueries, hBracketed, hDistinct] at hCount
  exact ⟨hDialect, hOpen, hClose, hs, hStarts, hCount⟩

end Query

end QueryTree
