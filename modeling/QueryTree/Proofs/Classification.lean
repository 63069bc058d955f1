import QueryTree.Proofs.Retention

/-! Why it does not matter which sort a text is tried as first.  The text of a point in time begins
with the text of its day and has more behind it (`DateTime.Spelled.exists_append`), and no text of a
day goes on after the day.  So no text has both sorts, and a reader that tried days first would give
every text the sort that it has (`ofText_eq_ofTextDaysFirst`). -/

namespace QueryTree

namespace Calendar

/-- With a year of four digits, ten characters are a day. -/
theorem Date.length_text (d : Date) (hYear : 0 ≤ d.year ∧ d.year ≤ 9999) :
    d.text.toList.length = 10 := by
  have hMonth := d.month_bounds.2
  have hDay := d.day_bounds.2
  rw [d.toList_text, toList_yearText_unsigned hYear]
  simp only [List.length_append, List.length_cons,
    length_padded (show 0 < 4 by decide) (show d.year.toNat < 10 ^ 4 by omega),
    length_padded (show 0 < 2 by decide) (show d.month < 10 ^ 2 by omega),
    length_padded (show 0 < 2 by decide) (show d.day < 10 ^ 2 by omega)]

/-- A spelling of a point in time is the text of its day with more behind it. -/
theorem DateTime.Spelled.exists_append {t : DateTime} {text : List Char} (h : t.Spelled text) :
    ∃ separator rest, text = t.date.text.toList ++ separator :: rest := by
  cases h with
  | form hYear =>
    rw [t.date.toList_text, toList_yearText_unsigned hYear]
    exact ⟨_, _, by simp only [DateTime.form, List.append_assoc, List.cons_append]; rfl⟩

/-- A text that denotes a point in time begins with ten characters that denote the day. -/
theorem DateTime.exists_day_append {text : String} {t : DateTime}
    (h : DateTime.ofText text = .ok t) :
    ∃ separator rest, text = t.date.text ++ String.ofList (separator :: rest) ∧
      t.date.text.length = 10 ∧ Date.ofText t.date.text = .ok t.date := by
  have hSpelled := DateTime.ofText_eq_ok_iff.mp h
  obtain ⟨separator, rest, hText⟩ := hSpelled.exists_append
  refine ⟨separator, rest, ?_, ?_, t.date.ofText_text⟩
  · rw [← String.toList_inj, hText, String.toList_append, String.toList_ofList]
  · rw [← String.length_toList, t.date.length_text hSpelled.year_bounds]

end Calendar

open Calendar (Date DateTime)

namespace Scalar

/-- The scalar of a text whose sort is not known, with days tried before points in time. -/
def ofTextDaysFirst (text : String) : Scalar :=
  match dateOfText text with
  | .ok scalar => scalar
  | .error _ =>
    match timestampOfText text with
    | .ok scalar => scalar
    | .error _ => .string text

theorem dateOfText_ne_ok {text : String} {v : Scalar} (h : timestampOfText text = .ok v)
    (w : Scalar) : dateOfText text ≠ .ok w := by
  intro hDate
  obtain ⟨t, ht, -⟩ := map_ok h
  obtain ⟨d, hd, -⟩ := map_ok hDate
  exact Date.ofText_ne_ok ht d hd

theorem ofText_eq_ofTextDaysFirst (text : String) : ofText text = ofTextDaysFirst text := by
  rw [ofText, ofTextDaysFirst]
  cases hTime : timestampOfText text with
  | error e => rfl
  | ok v =>
    cases hDate : dateOfText text with
    | ok w => exact absurd hDate (dateOfText_ne_ok hTime w)
    | error e => rfl

/-- No text is both a timestamp and a date, so a text in a document is read as the same scalar in
whichever order the two are tried.  A timestamp is the text of a day, its first ten characters, with
more behind it. -/
theorem texts_have_one_sort (s : String) :
    (∀ v w, ¬(timestampOfText s = .ok v ∧ dateOfText s = .ok w)) ∧
    ofText s = ofTextDaysFirst s ∧
    (∀ mode, Scalar.read mode (.string s) = .ok (ofTextDaysFirst s)) ∧
    ∀ v, timestampOfText s = .ok v → ∃ t day more, DateTime.ofText s = .ok t ∧
      s = day ++ more ∧ day.length = 10 ∧ more ≠ "" ∧
      dateOfText day = .ok (.date day) ∧ Date.ofText day = .ok t.date := by
  refine ⟨fun v w h => dateOfText_ne_ok h.1 w h.2, ofText_eq_ofTextDaysFirst s, fun mode => ?_,
    fun v h => ?_⟩
  · rw [← ofText_eq_ofTextDaysFirst]
    cases mode <;> rfl
  · obtain ⟨t, ht, -⟩ := map_ok h
    obtain ⟨separator, rest, hText, hLength, hDay⟩ := DateTime.exists_day_append ht
    refine ⟨t, t.date.text, _, ht, hText, hLength, by simp, ?_, hDay⟩
    rw [dateOfText, hDay]
    rfl

/-- A leap second on a leap day, after a blank and with a true minus sign. -/
def leapDayText : String := "0000-02-29 23:59:60.5\u221223:59"

theorem texts_have_one_sort_leapDayText :
    timestampOfText leapDayText = .ok (.timestamp leapDayText) ∧
    ofTextDaysFirst leapDayText = .timestamp leapDayText ∧
    ∃ t day more, DateTime.ofText leapDayText = .ok t ∧
      leapDayText = day ++ more ∧ day.length = 10 ∧ more ≠ "" ∧
      dateOfText day = .ok (.date day) ∧ Date.ofText day = .ok t.date := by
  have hAccepted : timestampOfText leapDayText = .ok (.timestamp leapDayText) := by rfl
  obtain ⟨-, -, -, hDay⟩ := texts_have_one_sort leapDayText
  exact ⟨hAccepted, by rfl, hDay _ hAccepted⟩

end Scalar

end QueryTree
