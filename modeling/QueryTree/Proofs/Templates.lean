import Mathlib.Tactic.Tauto
import QueryTree.Template

/-! Templates as an encoding of fragments.  The fragments of a template can be told in one pass over
its characters (`Template.split`), and `Template.parse` finds just these.  `Template.write` puts a
question mark between fragments and doubles those within them; reading undoes it exactly on the
lists that are `Writable`. -/

namespace QueryTree.Template

/-- Puts a character in front of the first fragment. -/
def extend (c : Char) : List (List Char) → List (List Char)
  | [] => [[c]]
  | fragment :: rest => (c :: fragment) :: rest

/-- The fragments of a template in one pass. -/
def split : List Char → List (List Char)
  | [] => [[]]
  | '?' :: '?' :: rest => extend '?' (split rest)
  | '?' :: rest => [] :: split rest
  | c :: rest => extend c (split rest)

def fragments (template : String) : List String := (split template.toList).map String.ofList

/-- A character within a fragment, as a template has it: a question mark is doubled. -/
def doubled (c : Char) : List Char := if c = '?' then ['?', '?'] else [c]

/-- Doubles the question marks of a text. -/
def double (text : List Char) : List Char := text.flatMap doubled

/-- The template of fragments, as characters. -/
def join (fragments : List (List Char)) : List Char := ['?'].intercalate (fragments.map double)

/-- The template of fragments: a question mark between each two, and those within them doubled. -/
def write (fragments : List String) : String :=
  String.ofList (join (fragments.map String.toList))

/-- The fragments that some template has. -/
structure Writable (fragments : List String) : Prop where
  nonempty : fragments ≠ []
  /-- A mark at the start of a fragment would be taken together with the hole before it. -/
  unmarked : ∀ f ∈ fragments.tail, f.toList.head? ≠ some '?'
  /-- Two holes next to each other would be taken for one mark. -/
  filled : ∀ f ∈ fragments.tail.dropLast, f ≠ ""

/-! ### One step of a template -/

section Steps

variable {c : Char} {rest : List Char}

theorem split_pair (rest : List Char) : split ('?' :: '?' :: rest) = extend '?' (split rest) := by
  rw [split]

theorem split_hole (h : rest.head? ≠ some '?') : split ('?' :: rest) = [] :: split rest := by
  rw [split]
  rintro more rfl
  exact h rfl

theorem split_char (h : c ≠ '?') : split (c :: rest) = extend c (split rest) := by
  rw [split]
  · exact fun _ hc => absurd hc h
  · exact h

/-- What a reader of templates meets in turn: a pair of marks, a hole, or another character. -/
@[elab_as_elim]
theorem marks_induction {motive : List Char → Prop} (nil : motive [])
    (pair : ∀ rest, motive rest → motive ('?' :: '?' :: rest))
    (hole : ∀ rest, rest.head? ≠ some '?' → motive rest → motive ('?' :: rest))
    (char : ∀ c rest, c ≠ '?' → motive rest → motive (c :: rest)) (text : List Char) :
    motive text := by
  fun_induction split text with
  | case1 => exact nil
  | case2 rest ih => exact pair rest ih
  | case3 rest hPair ih =>
    refine hole rest (fun h => ?_) ih
    obtain ⟨more, rfl⟩ := List.head?_eq_some_iff.mp h
    exact hPair more rfl
  | case4 c rest _ hMark ih => exact char c rest hMark ih

end Steps

/-! ### Reading piece by piece -/

/-- Puts a text in front of the first fragment. -/
def prepend (text : List Char) (fragments : List (List Char)) : List (List Char) :=
  text.foldr extend fragments

theorem prepend_cons (text f : List Char) (fs : List (List Char)) :
    prepend text (f :: fs) = (text ++ f) :: fs := by
  induction text with
  | nil => rfl
  | cons c text ih =>
    show extend c (prepend text (f :: fs)) = _
    rw [ih]
    rfl

theorem split_plain {run : List Char} (h : ∀ c ∈ run, c ≠ '?') (rest : List Char) :
    split (run ++ rest) = prepend run (split rest) := by
  induction run with
  | nil => rfl
  | cons c run ih =>
    rw [List.cons_append, split_char (h c List.mem_cons_self),
      ih fun e he => h e (List.mem_cons_of_mem c he)]
    rfl

section Many

variable {α : Type} {take? : List Char → Option (α × List Char)} {text rest : List Char} {a : α}

theorem many_none (h : take? text = none) : many take? text = .ok ([], text) := by
  rw [many, h]

theorem many_some (h : take? text = some (a, rest)) (hLess : rest.length < text.length) :
    many take? text = (many take? rest).map fun (more, left) => (a :: more, left) := by
  rw [many, h]
  exact dif_pos hLess

end Many

theorem piece?_plain {c : Char} (h : c ≠ '?') (rest : List Char) : piece? (c :: rest) =
    some (c :: rest.takeWhile (· != '?'), rest.dropWhile (· != '?')) := by
  have hTake : (c :: rest).takeWhile (· != '?') = c :: rest.takeWhile (· != '?') :=
    List.takeWhile_cons_of_pos (bne_iff_ne.mpr h)
  have hDrop : (c :: rest).dropWhile (· != '?') = rest.dropWhile (· != '?') :=
    List.dropWhile_cons_of_pos (bne_iff_ne.mpr h)
  rw [piece?]
  · simp only [hTake, hDrop, List.isEmpty_cons, Bool.false_eq_true, if_false]
  · exact fun _ hc => h (List.cons.inj hc).1

theorem piece?_hole {rest : List Char} (h : rest.head? ≠ some '?') :
    piece? ('?' :: rest) = none := by
  rw [piece?]
  · rfl
  · intro more hPair
    rw [(List.cons.inj hPair).2] at h
    exact h rfl

/-- A piece takes up some text, and stands at the start of a fragment. -/
theorem piece?_ok {text first rest : List Char} (h : piece? text = some (first, rest)) :
    rest.length < text.length ∧ split text = prepend first (split rest) := by
  cases text using marks_induction with
  | nil => cases h
  | pair more =>
    cases h
    exact ⟨by simp only [List.length_cons]; omega, split_pair rest⟩
  | hole more hMore =>
    rw [piece?_hole hMore] at h
    cases h
  | char c more hc =>
    rw [piece?_plain hc] at h
    cases h
    have hTake : ∀ e ∈ more.takeWhile (· != '?'), e ≠ '?' := fun e he =>
      bne_iff_ne.mp (List.all_eq_true.mp List.all_takeWhile e he)
    refine ⟨Nat.lt_succ_of_le (List.dropWhile_suffix _).length_le, ?_⟩
    show _ = extend c (prepend _ _)
    rw [split_char hc, ← split_plain hTake, List.takeWhile_append_dropWhile]

/-- Where there is no piece, the text ends or has a hole. -/
theorem piece?_none {text : List Char} (h : piece? text = none) :
    text = [] ∨ ∃ rest, text = '?' :: rest ∧ split text = [] :: split rest := by
  cases text using marks_induction with
  | nil => exact .inl rfl
  | pair rest => cases h
  | hole rest hRest => exact .inr ⟨rest, rfl, split_hole hRest⟩
  | char c rest hc =>
    rw [piece?_plain hc] at h
    cases h

/-- The first fragment of a text with what is left, which is nothing or the hole after it. -/
def Begins (text first left : List Char) : Prop :=
  (left = [] ∧ split text = [first]) ∨
    ∃ rest, left = '?' :: rest ∧ rest.length < text.length ∧ split text = first :: split rest

theorem exists_many_piece? (text : List Char) :
    ∃ pieces left, many piece? text = .ok (pieces, left) ∧ Begins text pieces.flatten left := by
  fun_induction many piece? text with
  | case1 text hNone =>
    refine ⟨[], text, rfl, ?_⟩
    rcases piece?_none hNone with rfl | ⟨rest, rfl, hSplit⟩
    · exact .inl ⟨rfl, rfl⟩
    · exact .inr ⟨rest, rfl, Nat.lt_succ_self _, hSplit⟩
  | case2 text first rest hFirst hLess ih =>
    obtain ⟨pieces, left, hMany, hBegins⟩ := ih
    refine ⟨first :: pieces, left, by rw [hMany]; rfl, ?_⟩
    rw [List.flatten_cons]
    rcases hBegins with ⟨hLeft, hSplit⟩ | ⟨more, hLeft, hMore, hSplit⟩
    · exact .inl ⟨hLeft, by rw [(piece?_ok hFirst).2, hSplit, prepend_cons]⟩
    · refine .inr ⟨more, hLeft, Nat.lt_trans hMore hLess, ?_⟩
      rw [(piece?_ok hFirst).2, hSplit, prepend_cons]
  | case3 text first rest hFirst hLess => exact absurd (piece?_ok hFirst).1 hLess

theorem exists_fragment (text : List Char) :
    ∃ first left, fragment text = .ok (first, left) ∧ Begins text first left := by
  obtain ⟨pieces, left, hMany, hBegins⟩ := exists_many_piece? text
  exact ⟨pieces.flatten, left, by rw [fragment, hMany]; rfl, hBegins⟩

/-- The fragments after a question mark are those of the text after it, and nothing is left. -/
theorem many_following? (rest : List Char) :
    many following? ('?' :: rest) = .ok (split rest, []) := by
  obtain ⟨first, left, hFragment, hBegins⟩ := exists_fragment rest
  have hTake : following? ('?' :: rest) = some (first, left) := by
    rw [following?, hFragment]
    rfl
  rcases hBegins with ⟨rfl, hSplit⟩ | ⟨more, rfl, hLess, hSplit⟩
  · rw [many_some hTake (Nat.succ_pos _), many_none rfl, hSplit]
    rfl
  · rw [many_some hTake (Nat.succ_lt_succ hLess), many_following? more, hSplit]
    rfl
termination_by rest.length

theorem cut_eq (text : List Char) : cut text = .ok (split text, []) := by
  obtain ⟨first, left, hFragment, hBegins⟩ := exists_fragment text
  have hCut : cut text = (many following? left).map fun found => (first :: found.1, found.2) := by
    rw [cut, hFragment]
    show (many following? left >>= fun found => pure (first :: found.1, found.2)) = _
    cases many following? left <;> rfl
  rcases hBegins with ⟨rfl, hSplit⟩ | ⟨more, rfl, -, hSplit⟩
  · rw [hCut, many_none rfl, hSplit]
    rfl
  · rw [hCut, many_following?, hSplit]
    rfl

/-- Every piece takes up some text and nothing is left over, so every template has its fragments. -/
theorem parse_eq (template : String) : parse template = .ok (fragments template) := by
  rw [parse, cut_eq]
  rfl

/-! ### Lists of fragments -/

theorem extend_ne_nil (c : Char) (fs : List (List Char)) : extend c fs ≠ [] := by
  cases fs <;> exact List.cons_ne_nil _ _

theorem split_ne_nil (text : List Char) : split text ≠ [] := by
  induction text using marks_induction with
  | nil => exact List.cons_ne_nil _ _
  | pair rest _ => rw [split_pair]; exact extend_ne_nil _ _
  | hole rest h _ => rw [split_hole h]; exact List.cons_ne_nil _ _
  | char c rest h _ => rw [split_char h]; exact extend_ne_nil _ _

/-! ### Writing what was read -/

@[simp] theorem double_nil : double [] = [] := rfl

theorem double_cons (c : Char) (text : List Char) :
    double (c :: text) = doubled c ++ double text :=
  List.flatMap_cons

@[simp] theorem join_singleton (f : List Char) : join [f] = double f := by
  simp [join, List.intercalate]

theorem join_cons (f : List Char) {fs : List (List Char)} (h : fs ≠ []) :
    join (f :: fs) = double f ++ '?' :: join fs := by
  obtain ⟨g, gs, rfl⟩ := List.exists_cons_of_ne_nil h
  simp [join, List.intercalate]

theorem join_extend (c : Char) (fs : List (List Char)) :
    join (extend c fs) = doubled c ++ join fs := by
  cases fs with
  | nil => simp [extend, double_cons, join, List.intercalate]
  | cons f fs =>
    by_cases h : fs = []
    · rw [h, extend, join_singleton, join_singleton, double_cons]
    · rw [extend, join_cons _ h, join_cons _ h, double_cons, List.append_assoc]

theorem join_split (text : List Char) : join (split text) = text := by
  induction text using marks_induction with
  | nil => rfl
  | pair rest ih => rw [split_pair, join_extend, ih]; rfl
  | hole rest h ih => rw [split_hole h, join_cons _ (split_ne_nil rest), ih]; rfl
  | char c rest h ih => rw [split_char h, join_extend, ih, doubled, if_neg h]; rfl

/-! ### Reading what was written -/

theorem split_doubled (c : Char) (rest : List Char) :
    split (doubled c ++ rest) = extend c (split rest) := by
  by_cases h : c = '?'
  · rw [doubled, if_pos h, h]
    exact split_pair rest
  · rw [doubled, if_neg h]
    exact split_char h

theorem split_double (f : List Char) : split (double f) = [f] := by
  induction f with
  | nil => rfl
  | cons c f ih => rw [double_cons, split_doubled, ih, extend]

theorem split_double_hole (f : List Char) {rest : List Char} (hRest : rest.head? ≠ some '?') :
    split (double f ++ '?' :: rest) = f :: split rest := by
  induction f with
  | nil => exact split_hole hRest
  | cons c f ih => rw [double_cons, List.append_assoc, split_doubled, ih, extend]

theorem head?_double (f : List Char) : (double f).head? = f.head? := by
  cases f with
  | nil => rfl
  | cons c f =>
    rw [double_cons, doubled]
    split <;> simp_all

/-- Fragments that can stand after a hole. -/
def Follows : List (List Char) → Prop
  | [] => True
  | [f] => f.head? ≠ some '?'
  | f :: fs => f.head? ≠ some '?' ∧ f ≠ [] ∧ Follows fs

theorem Follows.head?_join {fs : List (List Char)} (h : Follows fs) :
    (join fs).head? ≠ some '?' := by
  match fs, h with
  | [], _ => decide
  | [f], h => rwa [join_singleton, head?_double]
  | f :: g :: gs, ⟨hMark, hFilled, _⟩ =>
    rw [join_cons _ (List.cons_ne_nil g gs), List.head?_append, head?_double]
    cases f with
    | nil => exact absurd rfl hFilled
    | cons c f => exact hMark

theorem split_join {f : List Char} {fs : List (List Char)} (h : Follows fs) :
    split (join (f :: fs)) = f :: fs := by
  induction fs generalizing f with
  | nil => rw [join_singleton, split_double]
  | cons g gs ih =>
    have hRest : Follows gs := by
      cases gs with
      | nil => trivial
      | cons _ _ => exact h.2.2
    rw [join_cons _ (List.cons_ne_nil g gs), split_double_hole f h.head?_join, ih hRest]

theorem tail_extend {c : Char} {fs : List (List Char)} : (extend c fs).tail = fs.tail := by
  cases fs <;> rfl

/-- What follows a hole can follow one. -/
theorem follows_split {rest : List Char} (h : rest.head? ≠ some '?')
    (hTail : Follows (split rest).tail) : Follows (split rest) := by
  cases rest with
  | nil => exact h
  | cons c rest =>
    have hc : c ≠ '?' := fun hc => h (congrArg some hc)
    rw [split_char hc] at hTail ⊢
    cases hSplit : split rest with
    | nil => exact absurd hSplit (split_ne_nil rest)
    | cons f fs =>
      rw [hSplit] at hTail
      cases fs with
      | nil => exact h
      | cons g gs => exact ⟨h, List.cons_ne_nil c f, hTail⟩

theorem follows_tail_split (text : List Char) : Follows (split text).tail := by
  induction text using marks_induction with
  | nil => trivial
  | pair rest ih => rwa [split_pair, tail_extend]
  | hole rest h ih =>
    rw [split_hole h]
    exact follows_split h ih
  | char c rest h ih => rwa [split_char h, tail_extend]

/-! ### Fragments as texts -/

theorem follows_iff (fs : List String) : Follows (fs.map String.toList) ↔
    (∀ f ∈ fs, f.toList.head? ≠ some '?') ∧ ∀ f ∈ fs.dropLast, f ≠ "" := by
  induction fs with
  | nil => simp [Follows]
  | cons f fs ih =>
    cases fs with
    | nil => simp [Follows]
    | cons g gs =>
      have hStep : Follows ((f :: g :: gs).map String.toList) ↔ f.toList.head? ≠ some '?' ∧
          f.toList ≠ [] ∧ Follows ((g :: gs).map String.toList) := Iff.rfl
      rw [hStep, ih, List.dropLast_cons_cons]
      simp only [List.forall_mem_cons, ne_eq, String.toList_eq_nil_iff]
      tauto

theorem writable_iff {fs : List String} :
    Writable fs ↔ fs ≠ [] ∧ Follows (fs.tail.map String.toList) := by
  rw [follows_iff]
  exact ⟨fun h => ⟨h.nonempty, h.unmarked, h.filled⟩, fun h => ⟨h.1, h.2.1, h.2.2⟩⟩

theorem toList_fragments (template : String) :
    (fragments template).map String.toList = split template.toList := by
  simp [fragments, Function.comp_def]

theorem write_fragments (template : String) : write (fragments template) = template := by
  rw [write, toList_fragments, join_split, String.ofList_toList]

theorem writable_fragments (template : String) : Writable (fragments template) := by
  have hSplit := toList_fragments template
  refine writable_iff.mpr ⟨fun h => ?_, ?_⟩
  · rw [h] at hSplit
    exact split_ne_nil _ hSplit.symm
  · rw [List.map_tail, hSplit]
    exact follows_tail_split _

theorem fragments_write {fs : List String} (h : Writable fs) : fragments (write fs) = fs := by
  obtain ⟨hNonempty, hFollows⟩ := writable_iff.mp h
  obtain ⟨f, fs, rfl⟩ := List.exists_cons_of_ne_nil hNonempty
  rw [List.tail_cons] at hFollows
  rw [fragments, write, String.toList_ofList, List.map_cons, split_join hFollows]
  simp [Function.comp_def]

/-- Templates encode lists of fragments faithfully.  Every template is read, as the fragments that
are written as that template; so two templates never have the same fragments.  The fragments that
are read back from what is written for them are those that some template has. -/
theorem templates_encode_fragments :
    (∀ template, ∃ fs, parse template = .ok fs ∧ fs ≠ [] ∧ write fs = template) ∧
    Function.Injective parse ∧
    (∀ fs, parse (write fs) = .ok fs ↔ Writable fs) ∧
    (∀ fs, (∃ template, parse template = .ok fs) ↔ Writable fs) := by
  have hWritable : ∀ {template fs}, parse template = .ok fs → Writable fs := by
    intro template fs h
    rw [parse_eq] at h
    cases h
    exact writable_fragments template
  have hWrite : ∀ {fs}, Writable fs → parse (write fs) = .ok fs := by
    intro fs h
    rw [parse_eq, fragments_write h]
  refine ⟨fun template => ?_, fun t t' h => ?_, fun fs => ⟨hWritable, hWrite⟩, fun fs => ?_⟩
  · exact ⟨_, parse_eq template, (writable_fragments template).nonempty, write_fragments template⟩
  · rw [parse_eq, parse_eq, Except.ok.injEq] at h
    rw [← write_fragments t, h, write_fragments]
  · exact ⟨fun ⟨_, h⟩ => hWritable h, fun h => ⟨_, hWrite h⟩⟩

end QueryTree.Template
