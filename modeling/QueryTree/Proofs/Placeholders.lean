import QueryTree.Proofs.Compilation
import QueryTree.Proofs.Numerals
import QueryTree.Proofs.Wording

/-! Reading the placeholders of a statement back from its text.  A placeholder is a mark with a
number after it.  Where the mark occurs in nothing else, and nothing that can follow a placeholder
begins with a digit, the marks and the digits after them give the numbers of all the placeholders,
in order. -/

namespace QueryTree

open Decimal (isDigit natOfDigits startsWithDigit)

/-- The number that the digits at the start of a text denote, if there are any. -/
def numberAt? (text : List Char) : Option Nat :=
  match text.takeWhile isDigit with
  | [] => none
  | digits => some (natOfDigits digits)

/-- The number after each occurrence of a mark, from left to right. -/
def numbersAfter (mark : Char) : List Char → List (Option Nat)
  | [] => []
  | c :: rest =>
    if c = mark then numberAt? rest :: numbersAfter mark rest else numbersAfter mark rest

theorem numberAt?_toDigits_append (n : Nat) {rest : List Char}
    (h : startsWithDigit rest = false) : numberAt? (Nat.toDigits 10 n ++ rest) = some n := by
  have hRun : (Nat.toDigits 10 n ++ rest).takeWhile isDigit = Nat.toDigits 10 n :=
    Decimal.takeWhile_isDigit_append (fun _ => Decimal.isDigit_of_mem_toDigits) h
  rw [numberAt?, hRun]
  split
  · next hNil => exact absurd hNil Nat.toDigits_ne_nil
  · rw [Decimal.natOfDigits_toDigits]

theorem numbersAfter_append {mark : Char} {first : List Char} (h : mark ∉ first)
    (second : List Char) : numbersAfter mark (first ++ second) = numbersAfter mark second := by
  induction first with
  | nil => rfl
  | cons c first ih =>
    obtain ⟨hc, hFirst⟩ := not_or.mp (mt List.mem_cons.mpr h)
    rw [List.cons_append, numbersAfter, if_neg (Ne.symm hc), ih hFirst]

theorem startsWithDigit_append {first second : List Char} (hFirst : startsWithDigit first = false)
    (hSecond : startsWithDigit second = false) : startsWithDigit (first ++ second) = false := by
  cases first with
  | nil => exact hSecond
  | cons c first => exact hFirst

/-- Settings whose placeholders are numbers after a mark that neither fixed text nor the quotes of
names contain. -/
structure Settings.Marks (settings : Settings) (mark : Char) : Prop where
  lead : settings.placeholderLead = mark.toString
  mark_not_digit : isDigit mark = false
  mark_not_fixed : isFixed mark = false
  quote_ne : settings.identifierQuote ≠ mark
  quote_not_digit : isDigit settings.identifierQuote = false

namespace Token

variable {settings : Settings} {mark : Char}

theorem toList_placeholder (h : settings.Marks mark) (index : Nat) :
    (settings.dialect.placeholder index).toList =
      mark :: Nat.toDigits 10 (index + settings.placeholderBase) := by
  simp [Settings.dialect, h.lead, Nat.toString_eq_repr, Nat.toList_repr]

/-- Tokens never begin with a digit unless a text among them does. -/
theorem startsWithDigit_render (h : settings.Marks mark) {tokens : List Token}
    (hTexts : ∀ s, .text s ∈ tokens → startsWithDigit s.toList = false) (index : Nat) :
    startsWithDigit (render settings.dialect index tokens).toList = false := by
  induction tokens generalizing index with
  | nil => rfl
  | cons t rest ih =>
    have hRest := ih fun s hs => hTexts s (List.mem_cons_of_mem t hs)
    cases t with
    | text s =>
      rw [render, String.toList_append]
      exact startsWithDigit_append (hTexts s List.mem_cons_self) (hRest index)
    | name s =>
      simp only [render, String.toList_append, Char.toString, String.toList_singleton]
      exact h.quote_not_digit
    | hole v =>
      rw [render, String.toList_append, toList_placeholder h]
      exact h.mark_not_digit

/-- The numbers after the marks are those of the holes. -/
theorem numbersAfter_render (h : settings.Marks mark) {tokens : List Token}
    (hAvoid : ∀ t ∈ tokens, t.Avoids mark)
    (hTexts : ∀ s, .text s ∈ tokens → startsWithDigit s.toList = false) (index : Nat) :
    numbersAfter mark (render settings.dialect index tokens).toList =
      (List.range' (settings.placeholderBase + index) (scalars tokens).length).map some := by
  induction tokens generalizing index with
  | nil => rfl
  | cons t rest ih =>
    have hRest : ∀ s, .text s ∈ rest → startsWithDigit s.toList = false :=
      fun s hs => hTexts s (List.mem_cons_of_mem t hs)
    have hNumbers := ih (fun t' ht => hAvoid t' (List.mem_cons_of_mem t ht)) hRest
    have hHead : t.Avoids mark := hAvoid t List.mem_cons_self
    cases t with
    | text s =>
      rw [render, String.toList_append, numbersAfter_append hHead, hNumbers, scalars_text]
    | name s =>
      have hName : mark ∉ settings.identifierQuote :: (s.toList ++ [settings.identifierQuote]) := by
        simp only [List.mem_cons, List.mem_append, List.not_mem_nil, or_false, not_or]
        exact ⟨h.quote_ne.symm, hHead, h.quote_ne.symm⟩
      have hText : (render settings.dialect index (.name s :: rest)).toList =
          settings.identifierQuote :: (s.toList ++ [settings.identifierQuote]) ++
            (render settings.dialect index rest).toList := by
        simp [render, Settings.dialect]
      rw [hText, numbersAfter_append hName, hNumbers, scalars_name]
    | hole v =>
      -- The digits of this placeholder end where the text of the rest begins.
      have hDigits := Decimal.not_mem_toDigits h.mark_not_digit (index + settings.placeholderBase)
      have hEnd := startsWithDigit_render h hRest (index + 1)
      rw [render, String.toList_append, toList_placeholder h, List.cons_append, numbersAfter,
        if_pos rfl, numberAt?_toDigits_append _ hEnd, numbersAfter_append hDigits, hNumbers,
        scalars_hole, List.length_cons, List.range'_succ, List.map_cons]
      congr 2
      omega

end Token

/-- Fixed text has no digits. -/
theorem isDigit_eq_false_of_isFixed {c : Char} (h : isFixed c = true) : isDigit c = false := by
  simp only [isFixed, Bool.or_eq_true, List.contains_iff_mem, List.mem_cons, List.not_mem_nil,
    or_false] at h
  rcases h with hLower | rfl | rfl | rfl | rfl | rfl | rfl
  · have hLow : 'a'.toNat ≤ c.toNat := by
      have hRange := Bool.and_eq_true_iff.mp hLower
      exact of_decide_eq_true hRange.1
    have hNot : ¬c ≤ '9' := by
      intro hHigh
      have hHigh : c.toNat ≤ '9'.toNat := hHigh
      exact absurd (Nat.le_trans hLow hHigh) (by decide)
    simp [isDigit, hNot]
  all_goals decide

namespace Query

/-- What the texts of a tree do not begin with, the text tokens of its statement do not. -/
theorem startsWithDigit_of_text_mem_tokens {q : Query}
    (h : ∀ s ∈ q.verbatim, startsWithDigit s.toList = false) {s : String}
    (hs : .text s ∈ q.tokens) : startsWithDigit s.toList = false := by
  rcases text_mem_tokens hs with hFixed | hVerbatim
  · cases hText : s.toList with
    | nil => rfl
    | cons c rest =>
      have hc : c ∈ s.toList := by
        rw [hText]
        exact List.mem_cons_self
      exact isDigit_eq_false_of_isFixed (List.all_eq_true.mp hFixed c hc)
  · exact h s hVerbatim

theorem numbersAfter_sql {q : Query} {settings : Settings} {mark : Char} {s : Statement}
    (hMarks : settings.Marks mark) (hAvoids : q.Avoids mark)
    (hTexts : ∀ s ∈ q.verbatim, startsWithDigit s.toList = false)
    (hs : q.compile settings.dialect = .ok s) :
    numbersAfter mark s.sql.toList =
      (List.range' settings.placeholderBase s.bindings.length).map some := by
  obtain ⟨-, rfl⟩ := compile_eq_ok_iff.mp hs
  have hAvoid := hAvoids.tokens hMarks.mark_not_fixed
  exact Token.numbersAfter_render hMarks hAvoid
    (fun _ => startsWithDigit_of_text_mem_tokens hTexts) 0

/-- The placeholders of a statement can be read back from its text: the numbers after the mark are
those of the bindings, in order.  The standard dialect has the mark `$` and counts from zero. -/
theorem placeholders_read_back (q : Query) (mark : Char) (hAvoids : q.Avoids mark)
    (hTexts : ∀ s ∈ q.verbatim, startsWithDigit s.toList = false) :
    (∀ (settings : Settings) (s : Statement), settings.Marks mark →
      q.compile settings.dialect = .ok s →
      numbersAfter mark s.sql.toList =
        (List.range' settings.placeholderBase s.bindings.length).map some) ∧
    (mark = '$' → ∀ s, q.compile .standard = .ok s →
      numbersAfter mark s.sql.toList = (List.range s.bindings.length).map some) := by
  refine ⟨fun settings s hMarks hs => numbersAfter_sql hMarks hAvoids hTexts hs, ?_⟩
  rintro rfl s hs
  have hMarks : Settings.Marks {} '$' := ⟨rfl, by decide, by decide, by decide, by decide⟩
  rw [← Settings.dialect_default] at hs
  rw [numbersAfter_sql hMarks hAvoids hTexts hs, List.range_eq_range']

/-- Points with adjacent parameters, an empty operator, and a name that is all digits. -/
def adjacentPoints : Query where
  select := some { selections := [.raw ⟨["", "", "::point"], [.value (.int 7), .value .null]⟩] }
  sources := [.aliased (.table none "42") "p"]
  condition := some (.filter (some (.value (.int 1))) (.operator "") (.scalarList [.int 2, .int 3]))

theorem placeholders_read_back_adjacentPoints :
    let settings : Settings := ⟨'"', "#", 8⟩
    let s : Statement := ⟨"select #8#9::point from \"42\" as \"p\" where #10  (#11, #12)",
      [.int 7, .null, .int 1, .int 2, .int 3]⟩
    adjacentPoints.Avoids '#' ∧ settings.Marks '#' ∧
    adjacentPoints.compile settings.dialect = .ok s ∧
    numbersAfter '#' s.sql.toList = [some 8, some 9, some 10, some 11, some 12] := by
  intro settings s
  have hVerbatim : adjacentPoints.verbatim = ["", "", "::point", ""] := by cbv
  have hAvoids : adjacentPoints.Avoids '#' := by
    rw [Avoids, hVerbatim]
    decide
  have hTexts : ∀ s ∈ adjacentPoints.verbatim, startsWithDigit s.toList = false := by
    rw [hVerbatim]
    decide
  have hMarks : settings.Marks '#' := ⟨rfl, by decide, by decide, by decide, by decide⟩
  have hs : adjacentPoints.compile settings.dialect = .ok s := by cbv
  exact ⟨hAvoids, hMarks, hs,
    (placeholders_read_back adjacentPoints '#' hAvoids hTexts).1 settings s hMarks hs⟩

end Query

end QueryTree
