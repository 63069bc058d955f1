import Mathlib.Algebra.Ring.Parity
import Mathlib.Data.List.Chain
import Mathlib.Data.Nat.Find
import QueryTree.Outline

/-! How the lines of an outline are nested.  Below the line of a part stand the outlines of the
parts under it, one level deeper and one after the other: the entries of an outline are a `Forest`.
So no line goes down by more than one level, and the line that another belongs to can be found from
the indentation alone (`outline_is_nested`). -/

namespace QueryTree.Outline

/-! ### Trees of lines -/

/-- The text of the label begins with no space.  Only a clause can have any text. -/
def Label.Flush : Label → Prop
  | .clause word => word.toList.head? ≠ some ' '
  | .kind _ | .named _ _ | .operator _ | .value _ | .scalars _ | .distinctSelect | .raw _
  | .lock _ => True

/-- Trees one after the other: a line at the given depth, and below it trees one level deeper. -/
inductive Forest : Nat → List Entry → Prop
  | nil {depth : Nat} : Forest depth []
  | tree {depth : Nat} {label : Label} {below rest : List Entry} (flush : label.Flush)
      (deeper : Forest (depth + 1) below) (further : Forest depth rest) :
      Forest depth (⟨depth, label⟩ :: below ++ rest)

namespace Forest

variable {depth : Nat} {label : Label} {entries below more : List Entry}

theorem line (hFlush : label.Flush) (hBelow : Forest (depth + 1) below) :
    Forest depth (⟨depth, label⟩ :: below) := by
  have hTree := Forest.tree hFlush hBelow .nil
  rwa [List.append_nil] at hTree

theorem append (h : Forest depth entries) (h' : Forest depth more) :
    Forest depth (entries ++ more) := by
  induction h with
  | nil => exact h'
  | tree hFlush hDeeper _ _ ih =>
    rw [List.append_assoc]
    exact .tree hFlush hDeeper (ih h')

end Forest

theorem lock?_forest (depth : Nat) (l : Option Lock) :
    Forest depth (match l with | none => [] | some l => [⟨depth, .lock l⟩]) := by
  cases l with
  | none => exact .nil
  | some l => exact .line trivial .nil

mutual

theorem node_forest (depth : Nat) : (n : Node) → Forest depth (node depth n)
  | .identifier _ | .table _ _ | .selectAll | .value _ | .scalarList _ | .operator _ =>
    .line trivial .nil
  | .selection n => node_forest depth n
  | .select s => select_forest depth s
  | .query q => by
    obtain ⟨below, hQuery, hBelow⟩ := query_below depth q
    rw [node, hQuery]
    exact .line trivial hBelow
  | .join j => join_forest depth j
  | .raw r => raw_forest depth r
  | .aliased n _ | .parens n => .line trivial (node_forest (depth + 1) n)
  | .reference l r | .and l r | .or l r =>
    .line trivial ((node_forest (depth + 1) l).append (node_forest (depth + 1) r))
  | .filter none o r =>
    .line trivial ((node_forest (depth + 1) o).append (node_forest (depth + 1) r))
  | .filter (some l) o r =>
    .line trivial (((node_forest (depth + 1) l).append (node_forest (depth + 1) o)).append
      (node_forest (depth + 1) r))
  | .valueList ns => .line trivial (nodes_forest (depth + 1) ns)

theorem select_forest (depth : Nat) : (s : Select) → Forest depth (select depth s)
  | ⟨ns, os, distinct⟩ =>
    .line (by cases distinct <;> trivial)
      ((clauses_forest "distinct on" (by decide) (depth + 1) os).append
        (nodes_forest (depth + 1) ns))

/-- Below the line of a query all lines are deeper. -/
theorem query_below (depth : Nat) : (q : Query) →
    ∃ below, query depth q = ⟨depth, .kind .query⟩ :: below ∧ Forest (depth + 1) below
  | ⟨s, ns, js, c, l⟩ => by
    have hSources := (select?_forest (depth + 1) s).append
      (clauses_forest "from" (by decide) (depth + 1) ns)
    have hJoins := hSources.append (joins_forest (depth + 1) js)
    have hCondition := hJoins.append (condition_forest "where" (by decide) (depth + 1) c)
    refine ⟨_, ?_, hCondition.append (lock?_forest (depth + 1) l)⟩
    rw [query.eq_def]
    rfl

theorem join_forest (depth : Nat) : (j : Join) → Forest depth (join depth j)
  | ⟨_, t, c⟩ => by
    rw [join.eq_def]
    exact .line trivial
      ((node_forest (depth + 1) t).append (condition_forest "on" (by decide) (depth + 1) c))

theorem raw_forest (depth : Nat) : (r : Raw) → Forest depth (raw depth r)
  | ⟨_, ps⟩ => .line trivial (nodes_forest (depth + 1) ps)

theorem nodes_forest (depth : Nat) : (ns : List Node) → Forest depth (nodes depth ns)
  | [] => .nil
  | n :: ns => (node_forest depth n).append (nodes_forest depth ns)

theorem clauses_forest (word : String) (hWord : word.toList.head? ≠ some ' ') (depth : Nat) :
    (ns : List Node) → Forest depth (clauses word depth ns)
  | [] => .nil
  | n :: ns => .tree hWord (node_forest (depth + 1) n) (clauses_forest word hWord depth ns)

theorem joins_forest (depth : Nat) : (js : List Join) → Forest depth (joins depth js)
  | [] => .nil
  | j :: js => (join_forest depth j).append (joins_forest depth js)

theorem select?_forest (depth : Nat) : (s : Option Select) →
    Forest depth (match s with | none => [] | some s => select depth s)
  | none => .nil
  | some s => select_forest depth s

theorem condition_forest (word : String) (hWord : word.toList.head? ≠ some ' ') (depth : Nat) :
    (c : Option Node) → Forest depth (match c with
      | none => []
      | some n => ⟨depth, .clause word⟩ :: node (depth + 1) n)
  | none => .nil
  | some n => .line hWord (node_forest (depth + 1) n)

end

/-! ### Levels -/

namespace Forest

variable {depth : Nat} {entries : List Entry}

/-- No line stands above the first, and all begin at their depth. -/
theorem of_mem (h : Forest depth entries) : ∀ e ∈ entries, depth ≤ e.depth ∧ e.label.Flush := by
  induction h with
  | nil => exact nofun
  | tree hFlush _ _ ihDeeper ihFurther =>
    intro e he
    rcases List.mem_append.mp he with he | he
    · rcases List.mem_cons.mp he with rfl | he
      · exact ⟨Nat.le_refl _, hFlush⟩
      · obtain ⟨hDepth, hLabel⟩ := ihDeeper e he
        exact ⟨Nat.le_of_succ_le hDepth, hLabel⟩
    · exact ihFurther e he

theorem depth_of_mem_head? (h : Forest depth entries) : ∀ e ∈ entries.head?, e.depth = depth := by
  cases h with
  | nil => exact nofun
  | tree =>
    rintro e ⟨⟩
    rfl

/-- From one line to the next it goes down by one level at most. -/
theorem isChain (h : Forest depth entries) :
    entries.IsChain fun above e => e.depth ≤ above.depth + 1 := by
  induction h with
  | nil => exact .nil
  | @tree depth label below rest hFlush hDeeper hFurther ihDeeper ihFurther =>
    refine List.isChain_append.mpr ⟨List.isChain_cons.mpr ⟨?_, ihDeeper⟩, ihFurther, ?_⟩
    · intro e he
      exact Nat.le_of_eq (hDeeper.depth_of_mem_head? e he)
    · -- the next tree begins no deeper than the last line of this one
      intro above hAbove e he
      have hTree := (Forest.line hFlush hDeeper).of_mem above (List.mem_of_mem_getLast? hAbove)
      rw [hFurther.depth_of_mem_head? e he]
      exact Nat.le_succ_of_le hTree.1

end Forest

/-! ### Indentation -/

/-- The number of spaces that a text begins with. -/
def indent (s : String) : Nat := (s.toList.takeWhile (· == ' ')).length

/-- The lines of entries as they are printed without colours. -/
def texts (entries : List Entry) : List String := entries.map fun e => e.line.render false

theorem indent_of_head? {n : Nat} {s : String} (h : s.toList.head? ≠ some ' ') :
    indent (String.ofList (List.replicate n ' ') ++ s) = n := by
  have hStop : s.toList.takeWhile (· == ' ') = [] := by
    cases hs : s.toList with
    | nil => rfl
    | cons c cs =>
      rw [hs] at h
      exact List.takeWhile_cons_of_neg (by simpa using h)
  rw [indent, String.toList_append, String.toList_ofList,
    List.takeWhile_append_of_pos (by simp), hStop, List.append_nil, List.length_replicate]

theorem render_line (e : Entry) : e.line.render false =
    String.ofList (List.replicate (2 * e.depth) ' ')
      ++ (String.join (e.label.spans.map Span.text) ++ "\n") := by
  simp only [Line.render, Entry.line, List.map_cons, String.join_cons, Span.render_false,
    String.append_assoc]
  rfl

/-- The name of a kind begins with no space, whatever follows it. -/
theorem head?_kindName_append (k : Kind) (rest : String) :
    (k.name ++ rest).toList.head? ≠ some ' ' := by
  cases k <;> simp [Kind.name]

/-- The text of a label begins with the name of a kind, or with another word. -/
theorem Label.Flush.head? {label : Label} (h : label.Flush) :
    (String.join (label.spans.map Span.text) ++ "\n").toList.head? ≠ some ' ' := by
  cases label with
  | clause word =>
    have hWord : word.toList.head? ≠ some ' ' := h
    cases hHead : word.toList.head? <;> simp_all [spans, Span.dimmed]
  | lock l => simp [spans, Span.dimmed, Span.plain]
  | kind | named | operator | value | scalars | distinctSelect | raw =>
    simp only [spans, List.map_cons, String.join_cons, String.append_assoc]
    exact head?_kindName_append _ _

theorem Forest.indent_eq {depth : Nat} {entries : List Entry} (h : Forest depth entries) {e : Entry}
    (he : e ∈ entries) : indent (e.line.render false) = 2 * e.depth := by
  rw [render_line]
  exact indent_of_head? (h.of_mem e he).2.head?

/-! ### Parents -/

/-- Where even numbers rise by two at most, the last smaller number before one is smaller by two. -/
theorem exists_last_smaller {f : Nat → Nat} {k : Nat} (hEven : ∀ l ≤ k, Even (f l))
    (hStep : ∀ l < k, f (l + 1) ≤ f l + 2) (hFirst : f 0 < f k) :
    ∃ j < k, f j + 2 = f k ∧ ∀ l, j < l → l < k → f k ≤ f l := by
  let j := Nat.findGreatest (fun l => f l < f k) k
  have hSmaller : f j < f k :=
    Nat.findGreatest_spec (P := fun l => f l < f k) (Nat.zero_le k) hFirst
  have hLast : ∀ l, j < l → l ≤ k → f k ≤ f l := fun l hj hk =>
    Nat.le_of_not_lt (Nat.findGreatest_is_greatest (P := fun l => f l < f k) hj hk)
  have hj : j < k := by
    refine Nat.lt_of_le_of_ne (Nat.findGreatest_le k) fun hEq => ?_
    rw [hEq] at hSmaller
    exact Nat.lt_irrefl _ hSmaller
  refine ⟨j, hj, ?_, fun l hl hk => hLast l hl hk.le⟩
  have hNext := hLast (j + 1) (Nat.lt_succ_self j) hj
  have hRise := hStep j hj
  obtain ⟨a, ha⟩ := hEven j hj.le
  obtain ⟨b, hb⟩ := hEven k (Nat.le_refl k)
  omega

/-- Line `j` is the nearest line above line `k` that is indented by two spaces less. -/
structure IsParent (lines : List String) (j k : Fin lines.length) : Prop where
  above : j < k
  two_less : indent (lines.get j) + 2 = indent (lines.get k)
  nearest : ∀ l, j < l → l < k → indent (lines.get l) + 2 ≠ indent (lines.get k)

section Parents

variable {lines : List String} {i j k : Fin lines.length}

theorem IsParent.unique (h : IsParent lines i k) (h' : IsParent lines j k) : i = j := by
  rcases Nat.lt_trichotomy i j with hLt | hEq | hLt
  · exact absurd h'.two_less (h.nearest j hLt h'.above)
  · exact Fin.ext hEq
  · exact absurd h.two_less (h'.nearest i hLt h.above)

/-- The last line above that is indented less is the parent. -/
theorem exists_isParent (hEven : ∀ line ∈ lines, Even (indent line))
    (hStep : lines.IsChain fun above line => indent line ≤ indent above + 2)
    (hFirst : ∀ line ∈ lines.head?, indent line < indent (lines.get k)) :
    ∃ j, IsParent lines j k := by
  let f (l : Nat) : Nat := indent (lines.getD l "")
  have hf (l : Fin lines.length) : f l = indent (lines.get l) := by
    simp [f]
  obtain ⟨j, hj, hLess, hBetween⟩ : ∃ j < k.val, f j + 2 = f k ∧
      ∀ l, j < l → l < k.val → f k ≤ f l := by
    apply exists_last_smaller
    · intro l hl
      rw [hf ⟨l, hl.trans_lt k.isLt⟩]
      exact hEven _ (List.get_mem ..)
    · intro l hl
      have hNext : l + 1 < lines.length := by omega
      rw [hf ⟨l + 1, hNext⟩, hf ⟨l, by omega⟩]
      exact List.isChain_iff_getElem.mp hStep l hNext
    · rw [hf k, hf ⟨0, Nat.zero_lt_of_lt k.isLt⟩]
      exact hFirst _ (List.head?_eq_getElem? ▸ List.getElem?_eq_getElem _)
  refine ⟨⟨j, hj.trans k.isLt⟩, hj, ?_, fun l hl hk => ?_⟩
  · rw [← hf, ← hf]
    exact hLess
  · have hDeep := hBetween l hl hk
    rw [hf, hf] at hDeep
    omega

end Parents

/-- The line of a query. -/
def heading (depth : Nat) : String := String.ofList (List.replicate (2 * depth) ' ') ++ "Query\n"

theorem indent_heading (depth : Nat) : indent (heading depth) = 2 * depth :=
  indent_of_head? (by decide)

/-- The printed lines are those of a tree: the first shows a query, all others are indented further,
by two spaces for each level, no line is more than one level below the line before it, and so each
line but the first has one parent. -/
structure Nested (depth : Nat) (lines : List String) : Prop where
  first : lines.head? = some (heading depth)
  later : ∀ line ∈ lines.tail, Even (indent line) ∧ 2 * (depth + 1) ≤ indent line
  step : lines.IsChain fun above line => indent line ≤ indent above + 2
  parent : ∀ k : Fin lines.length, 0 < k.val → ∃! j, IsParent lines j k

/-- Where indentations are even and never rise by more than two spaces, there are parents. -/
theorem Nested.of_cons {depth : Nat} {rest : List String}
    (hLater : ∀ line ∈ rest, Even (indent line) ∧ 2 * (depth + 1) ≤ indent line)
    (hStep : (heading depth :: rest).IsChain fun above line => indent line ≤ indent above + 2) :
    Nested depth (heading depth :: rest) := by
  refine ⟨rfl, hLater, hStep, fun k hk => ?_⟩
  have hEven : ∀ line ∈ heading depth :: rest, Even (indent line) := by
    refine List.forall_mem_cons.mpr ⟨?_, fun line hLine => (hLater line hLine).1⟩
    rw [indent_heading]
    exact even_two_mul depth
  have hDeeper : 2 * (depth + 1) ≤ indent ((heading depth :: rest).get k) := by
    obtain ⟨k, hLength⟩ := k
    obtain ⟨m, rfl⟩ := Nat.exists_eq_succ_of_ne_zero hk.ne'
    exact (hLater _ (List.get_mem rest ⟨m, Nat.lt_of_succ_lt_succ hLength⟩)).2
  have hFirst : ∀ line ∈ (heading depth :: rest).head?,
      indent line < indent ((heading depth :: rest).get k) := by
    rintro line ⟨⟩
    rw [indent_heading]
    omega
  obtain ⟨j, hj⟩ := exists_isParent hEven hStep hFirst
  exact ⟨j, hj, fun i hi => hi.unique hj⟩

/-- The outline of a query, at any depth, is printed as the nested lines of a tree. -/
theorem outline_is_nested (depth : Nat) (q : Query) : Nested depth (texts (query depth q)) := by
  obtain ⟨below, hQuery, hBelow⟩ := query_below depth q
  have hForest : Forest depth (query depth q) := node_forest depth (.query q)
  have hTexts : texts (query depth q) = heading depth :: texts below := by
    rw [hQuery, texts, List.map_cons, render_line]
    rfl
  have hStep : (texts (query depth q)).IsChain
      fun above line => indent line ≤ indent above + 2 := by
    rw [texts, List.isChain_map]
    refine hForest.isChain.imp_of_mem_imp fun above e hAbove he hDepth => ?_
    rw [hForest.indent_eq hAbove, hForest.indent_eq he]
    omega
  rw [hTexts] at hStep ⊢
  refine .of_cons (List.forall_mem_map.mpr fun e he => ?_) hStep
  have hDepth := (hBelow.of_mem e he).1
  rw [hBelow.indent_eq he]
  exact ⟨even_two_mul e.depth, by omega⟩

example : (texts (query 1 {
    sources := [.selectAll]
    condition := some (.and (.value .null) .selectAll)
    lock := some .update })).map indent = [2, 4, 6, 4, 6, 8, 8, 4] := by rfl

end QueryTree.Outline
