import QueryTree.Proofs.Retention
import QueryTree.Proofs.Survival

/-! Where dates and timestamps come from.  A scalar of a day always holds a text that denotes a day,
whichever way it was obtained.  A scalar of a point in time holds a text that denotes one unless it
was made from a point whose year is written with a sign; such a text is refused, and the scalar is
read back as a plain text. -/

namespace QueryTree

open Calendar (Date DateTime ScanError)

/-- The text of a point in time denotes no day. -/
theorem Calendar.DateTime.text_ne_day (t : DateTime) (d : Date) : Date.ofText t.text ≠ .ok d := by
  rw [Date.ofText, t.toList_text, t.dateScan_form rfl]
  intro hDate
  cases hDate

namespace Scalar

/-- The ways to obtain a scalar of a day or of a point in time: from a text that is one, from a
document, by itself or as a leaf of a query, and from a day or a point in time. -/
inductive Obtained : Scalar → Prop
  | timestampOfText {text : String} {v : Scalar} (h : timestampOfText text = .ok v) : Obtained v
  | dateOfText {text : String} {v : Scalar} (h : dateOfText text = .ok v) : Obtained v
  | decoded {text : String} {v : Scalar} (h : Scalar.read.ofText text = .ok v) : Obtained v
  | leaf {text : String} {q : Query} {v : Scalar} (h : Query.ofText text = .ok q)
      (hLeaf : v ∈ q.leaves) : Obtained v
  | ofDate (d : Date) : Obtained (ofDate d)
  | ofDateTime (t : DateTime) : Obtained (ofDateTime t)

/-- A scalar that was obtained keeps its sort, unless it was made from a point in time. -/
theorem Obtained.keepsSort {v : Scalar} (h : v.Obtained) :
    v.KeepsSort ∨ ∃ t : DateTime, v = Scalar.ofDateTime t := by
  cases h with
  | @timestampOfText text v hText =>
    left
    rw [Scalar.timestampOfText] at hText
    cases hTime : DateTime.ofText text with
    | error e =>
      rw [hTime] at hText
      cases hText
    | ok t =>
      rw [hTime] at hText
      cases hText
      exact ⟨t, hTime⟩
  | @dateOfText text v hText =>
    left
    rw [Scalar.dateOfText] at hText
    cases hDate : Date.ofText text with
    | error e =>
      rw [hDate] at hText
      cases hText
    | ok d =>
      rw [hDate] at hText
      cases hText
      exact ⟨d, hDate⟩
  | decoded hText => exact .inl (settled_of_ofText hText).keepsSort
  | leaf hText hLeaf => exact .inl ((Query.fits_of_ofText hText).settled v hLeaf).keepsSort
  | ofDate d => exact .inl ⟨d, d.ofText_text⟩
  | ofDateTime t => exact .inr ⟨t, rfl⟩

/-- What becomes of the text of a point in time whose year has a sign. -/
theorem reread_ofDateTime_signed {t : DateTime}
    (hYear : ¬(0 ≤ t.date.year ∧ t.date.year ≤ 9999)) :
    (ofDateTime t).reread = .ok (.string t.text) := by
  have hTime : ∀ t', DateTime.ofText t.text ≠ .ok t' := by simp [t.ofText_text_signed hYear]
  refine reread_of_ofDraft? ?_
  exact congrArg some (ofText_of_neither hTime t.text_ne_day)

/-- A scalar of a day holds a text that denotes a day, and it is read back as it is.  So does and is
a scalar of a point in time, unless its text is that of a point whose year does not lie between 0
and 9999: that text is refused, and the scalar is read back as a plain text. -/
theorem obtained_texts_are_valid {v : Scalar} (h : v.Obtained) :
    (∀ text, v = .date text → (∃ d, Date.ofText text = .ok d) ∧ v.reread = .ok v) ∧
    ∀ text, v = .timestamp text →
      ((∀ t : DateTime, text = t.text → 0 ≤ t.date.year ∧ t.date.year ≤ 9999) →
        (∃ t, DateTime.ofText text = .ok t) ∧ v.reread = .ok v) ∧
      ∀ t : DateTime, text = t.text → ¬(0 ≤ t.date.year ∧ t.date.year ≤ 9999) →
        DateTime.ofText text = .error .invalid ∧ v.reread = .ok (.string text) := by
  refine ⟨?_, ?_⟩
  · rintro text rfl
    rcases h.keepsSort with hKeeps | ⟨t, ht⟩
    · exact ⟨hKeeps, hKeeps.reread nofun⟩
    · cases ht
  · rintro text rfl
    refine ⟨fun hPlain => ?_, ?_⟩
    · have hKeeps : (Scalar.timestamp text).KeepsSort := by
        rcases h.keepsSort with hKeeps | ⟨t, ht⟩
        · exact hKeeps
        · cases ht
          exact ⟨t, t.ofText_text (hPlain t rfl)⟩
      exact ⟨hKeeps, hKeeps.reread nofun⟩
    · rintro t rfl hYear
      exact ⟨t.ofText_text_signed hYear, reread_ofDateTime_signed hYear⟩

/-- The last leap second of the year 9999, far west of Greenwich. -/
def lastSecond : DateTime where
  date := ⟨9999, 12, 31, by decide⟩
  hour := 23
  minute := 59
  second := 60
  nanosecond := 500000
  offset := -1439
  hour_lt := by decide
  minute_lt := by decide
  second_le := by decide
  nanosecond_lt := by decide
  offset_bound := by decide

theorem obtained_texts_are_valid_lastSecond :
    (ofDateTime lastSecond).Obtained ∧ (∃ t, DateTime.ofText lastSecond.text = .ok t) ∧
      (ofDateTime lastSecond).reread = .ok (ofDateTime lastSecond) := by
  refine ⟨.ofDateTime _, ((obtained_texts_are_valid (.ofDateTime lastSecond)).2 _ rfl).1 ?_⟩
  intro t ht
  by_contra hYear
  have hRefused := t.ofText_text_signed hYear
  rw [← ht, lastSecond.ofText_text (by decide)] at hRefused
  cases hRefused

/-- The first moment of the year 10000. -/
def newYear10000 : DateTime where
  date := ⟨10000, 1, 1, by decide⟩
  hour := 0
  minute := 0
  second := 0
  nanosecond := 0
  offset := 0
  hour_lt := by decide
  minute_lt := by decide
  second_le := by decide
  nanosecond_lt := by decide
  offset_bound := by decide

/-- A scalar of a point in time whose text denotes none, and which does not keep its sort. -/
theorem obtained_text_refused :
    (ofDateTime newYear10000).Obtained ∧
      ofDateTime newYear10000 = .timestamp "+10000-01-01T00:00:00+00:00" ∧
      DateTime.ofText "+10000-01-01T00:00:00+00:00" = .error .invalid ∧
      (ofDateTime newYear10000).reread = .ok (.string "+10000-01-01T00:00:00+00:00") := by
  have hText : newYear10000.text = "+10000-01-01T00:00:00+00:00" := by cbv
  have hYear : ¬(0 ≤ newYear10000.date.year ∧ newYear10000.date.year ≤ 9999) := by decide
  rw [← hText]
  exact ⟨.ofDateTime _, rfl, newYear10000.ofText_text_signed hYear, reread_ofDateTime_signed hYear⟩

end Scalar

end QueryTree
