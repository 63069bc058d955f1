import QueryTree.Proofs.Calendar.Texts
import QueryTree.Proofs.Outcomes
import QueryTree.Scalar

/-! The texts that denote a point in time are its spellings and no others.  `Spelled.scan` reads
every spelling as the point; here each scanner says what stood in the text that it took, and so a
text that is read as a point is a spelling of it.  The text that is written for the point is one of
them, and it takes the place of all. -/

namespace QueryTree

namespace Calendar

open QueryTree.Decimal

/-! ### What the scanners took -/

section Taken

variable {text rest : List Char}

theorem require_ok {p : Prop} [Decidable p] {e : ScanError} (h : require p e = .ok ()) : p := by
  rw [require] at h
  split at h
  · assumption
  · cases h

/-- A run of digits is the padded form of its value. -/
theorem padded_natOfDigits {digits : List Char} (hNonempty : digits ≠ [])
    (hDigits : ∀ c ∈ digits, isDigit c = true) :
    (padded digits.length (natOfDigits digits)).toList = digits := by
  have hLength := length_padded (List.length_pos_iff.mpr hNonempty) (natOfDigits_lt hDigits)
  exact natOfDigits_inj (isDigit_of_mem_padded _ _) hDigits hLength (natOfDigits_padded _ _)

theorem fixedDigits_ok {width n : Nat} (hWidth : 0 < width)
    (h : fixedDigits width text = .ok (n, rest)) :
    text = (padded width n).toList ++ rest ∧ n < 10 ^ width := by
  rw [fixedDigits] at h
  split at h
  · next hRun =>
    cases h
    rw [Bool.and_eq_true, beq_iff_eq] at hRun
    obtain ⟨hLength, hAll⟩ := hRun
    have hDigits := List.all_eq_true.mp hAll
    have hNonempty : text.take width ≠ [] := List.ne_nil_of_length_pos (by omega)
    have hPadded := padded_natOfDigits hNonempty hDigits
    have hValue := natOfDigits_lt hDigits
    rw [hLength] at hPadded hValue
    rw [hPadded, List.take_append_drop]
    exact ⟨rfl, hValue⟩
  · cases h

theorem twoDigits_ok {n : Nat} (h : twoDigits text = .ok (n, rest)) :
    text = (padded 2 n).toList ++ rest := by
  rw [twoDigits] at h
  split at h
  · cases h
  · exact (fixedDigits_ok (by decide) h).1

theorem expect_ok {accepts : Char → Bool} (h : expect accepts text = .ok rest) :
    ∃ c, text = c :: rest ∧ accepts c = true := by
  cases text with
  | nil => cases h
  | cons c text =>
    rw [expect] at h
    split at h
    · next hAccepts =>
      cases h
      exact ⟨c, rfl, hAccepts⟩
    · cases h

theorem expect_mark_ok {mark : Char} (h : expect (· == mark) text = .ok rest) :
    text = mark :: rest := by
  obtain ⟨c, rfl, hMark⟩ := expect_ok h
  rw [beq_iff_eq.mp hMark]

theorem literal_ok {mark : Char} (h : literal mark text = .ok rest) : text = mark :: rest := by
  cases text with
  | nil => cases h
  | cons c text =>
    rw [literal] at h
    split at h
    · next hMark =>
      cases h
      rw [beq_iff_eq.mp hMark]
    · cases h

theorem scanFraction_ok {run : List Char} (h : scanFraction text = .ok (run, rest)) :
    ∃ fraction, text = fraction ++ rest ∧ FractionText fraction (nanoseconds run) := by
  unfold scanFraction at h
  split at h
  · next after =>
    dsimp only at h
    split at h
    · cases h
    · next hFilled =>
      cases h
      refine ⟨'.' :: after.takeWhile isDigit, ?_, .digits ?_ ?_⟩
      · rw [List.cons_append, List.takeWhile_append_dropWhile]
      · simpa using hFilled
      · exact List.all_eq_true.mp List.all_takeWhile
  · cases h
    exact ⟨[], rfl, .absent⟩

theorem scanOffsetClock_ok {clock : Nat × Nat} (h : scanOffsetClock text = .ok (clock, rest)) :
    text = (padded 2 clock.1).toList ++ ':' :: ((padded 2 clock.2).toList ++ rest) ∧
      clock.2 ≤ 59 := by
  obtain ⟨⟨hours, afterHours⟩, hHours, h⟩ := bind_ok h
  obtain ⟨beforeMinutes, hColon, h⟩ := bind_ok h
  obtain ⟨⟨minutes, afterMinutes⟩, hMinutes, h⟩ := bind_ok h
  obtain ⟨⟨⟩, hRange, h⟩ := bind_ok h
  cases h
  refine ⟨?_, require_ok hRange⟩
  rw [twoDigits_ok hHours, literal_ok hColon, twoDigits_ok hMinutes]

theorem scanOffset_ok {west : Bool} {clock : Nat × Nat} (hHours : clock.1 ≤ 23)
    (h : scanOffset text = .ok ((west, clock), rest)) :
    ∃ zone, text = zone ++ rest ∧ ZoneText zone (signedMinutes west clock) := by
  cases text with
  | nil => cases h
  | cons c after =>
    rw [scanOffset] at h
    split at h
    · next hLetter =>
      cases h
      simp only [Bool.or_eq_true, beq_iff_eq] at hLetter
      exact ⟨[c], rfl, .utc hLetter⟩
    · split at h
      · next hPlus =>
        obtain ⟨⟨clock, rest⟩, hClock, hTaken⟩ := map_ok h
        cases hTaken
        obtain ⟨rfl, hMinutes⟩ := scanOffsetClock_ok hClock
        rw [beq_iff_eq.mp hPlus]
        exact ⟨_, by simp, .east hHours hMinutes⟩
      · split at h
        · next hMinus =>
          obtain ⟨⟨clock, rest⟩, hClock, hTaken⟩ := map_ok h
          cases hTaken
          obtain ⟨rfl, hMinutes⟩ := scanOffsetClock_ok hClock
          simp only [Bool.or_eq_true, beq_iff_eq] at hMinus
          exact ⟨_, by simp, .west hMinus hHours hMinutes⟩
        · cases h

end Taken

theorem Date.ofNumbers_ok {year : Int} {month day : Nat} {d : Date}
    (h : Date.ofNumbers year month day = .ok d) :
    d.year = year ∧ d.month = month ∧ d.day = day := by
  rw [Date.ofNumbers] at h
  split at h
  · cases h
    exact ⟨rfl, rfl, rfl⟩
  · cases h

namespace DateTime

variable {t : DateTime}

theorem ofNumbers_ok {date : Date} {hour minute second : Nat} {fraction : List Char} {west : Bool}
    {clock : Nat × Nat} (h : ofNumbers date (hour, minute, second) fraction west clock = .ok t) :
    (t.date = date ∧ t.hour = hour ∧ t.minute = minute ∧ t.second = second) ∧
      t.nanosecond = nanoseconds fraction ∧ t.offset = signedMinutes west clock ∧
      clock.1 ≤ 23 := by
  rw [ofNumbers] at h
  split at h
  · next hRanges =>
    cases h
    refine ⟨⟨rfl, rfl, rfl, rfl⟩, rfl, rfl, ?_⟩
    omega
  · cases h

/-- A text that is read as a point in time is one of its spellings. -/
theorem spelled_of_scan {text : List Char} (h : DateTime.scan text = .ok t) : t.Spelled text := by
  obtain ⟨⟨⟩, -, h⟩ := bind_ok h
  obtain ⟨⟨year, _⟩, hYear, h⟩ := bind_ok h
  obtain ⟨_, hHyphen, h⟩ := bind_ok h
  obtain ⟨⟨month, _⟩, hMonth, h⟩ := bind_ok h
  obtain ⟨_, hHyphen', h⟩ := bind_ok h
  obtain ⟨⟨day, _⟩, hDay, h⟩ := bind_ok h
  obtain ⟨date, hDate, h⟩ := bind_ok h
  obtain ⟨_, hMark, h⟩ := bind_ok h
  obtain ⟨⟨hour, _⟩, hHour, h⟩ := bind_ok h
  obtain ⟨_, hColon, h⟩ := bind_ok h
  obtain ⟨⟨minute, _⟩, hMinute, h⟩ := bind_ok h
  obtain ⟨_, hColon', h⟩ := bind_ok h
  obtain ⟨⟨second, _⟩, hSecond, h⟩ := bind_ok h
  obtain ⟨⟨run, _⟩, hRun, h⟩ := bind_ok h
  obtain ⟨⟨⟩, -, h⟩ := bind_ok h
  obtain ⟨⟨⟨west, clock⟩, rest⟩, hOffset, h⟩ := bind_ok h
  obtain ⟨⟨⟩, hEnd, h⟩ := bind_ok h
  obtain rfl := require_ok hEnd
  obtain ⟨⟨rfl, rfl, rfl, rfl⟩, hNanosecond, hMinutes, hHours⟩ := ofNumbers_ok h
  obtain ⟨hYearEq, rfl, rfl⟩ := Date.ofNumbers_ok hDate
  obtain ⟨hText, hYearLt⟩ := fixedDigits_ok (by decide) hYear
  obtain ⟨separator, hSeparator, hAccepts⟩ := expect_ok hMark
  obtain ⟨fraction, hFraction, hFractionText⟩ := scanFraction_ok hRun
  obtain ⟨zone, hZone, hZoneText⟩ := scanOffset_ok hHours hOffset
  have hForm : text = t.form (padded 4 t.date.year.toNat).toList separator fraction zone := by
    rw [hText, expect_mark_ok hHyphen, (fixedDigits_ok (by decide) hMonth).1,
      expect_mark_ok hHyphen', (fixedDigits_ok (by decide) hDay).1, hSeparator,
      (fixedDigits_ok (by decide) hHour).1, expect_mark_ok hColon,
      (fixedDigits_ok (by decide) hMinute).1, expect_mark_ok hColon',
      (fixedDigits_ok (by decide) hSecond).1, hFraction, hZone, List.append_nil, form, hYearEq,
      Int.toNat_natCast]
  simp only [Bool.or_eq_true, beq_iff_eq, or_assoc] at hAccepts
  rw [← hNanosecond] at hFractionText
  rw [← hMinutes] at hZoneText
  rw [hForm]
  exact .form (by omega) hAccepts hFractionText hZoneText

/-- The texts that denote a point in time are its spellings. -/
theorem ofText_eq_ok_iff {text : String} :
    DateTime.ofText text = .ok t ↔ t.Spelled text.toList := by
  constructor
  · exact spelled_of_scan
  · exact Spelled.scan

theorem Spelled.year_bounds {text : List Char} (h : t.Spelled text) :
    0 ≤ t.date.year ∧ t.date.year ≤ 9999 := by
  cases h with
  | form hYear => exact hYear

/-- A point in time that some text denotes is denoted by its own text. -/
theorem ofText_text_of_ofText {text : String} (h : DateTime.ofText text = .ok t) :
    DateTime.ofText t.text = .ok t := t.ofText_text (ofText_eq_ok_iff.mp h).year_bounds

end DateTime

end Calendar

/-! ### Texts that are written anew -/

open Calendar (DateTime ScanError)

namespace Scalar

/-- The scalar of the point in time that a text denotes. -/
def renewed (text : String) : Except ScanError Scalar := (DateTime.ofText text).map ofDateTime

theorem renewed_eq_ok_iff {s r : String} {t : DateTime} (h : DateTime.ofText s = .ok t) :
    renewed r = .ok (ofDateTime t) ↔ DateTime.ofText r = .ok t := by
  constructor
  · intro hRenewed
    obtain ⟨u, hu, hText⟩ := map_ok hRenewed
    -- both points are denoted by the one text
    have hBack := DateTime.ofText_text_of_ofText hu
    rw [Scalar.timestamp.inj hText, DateTime.ofText_text_of_ofText h] at hBack
    rw [hu, hBack]
  · intro hr
    rw [renewed, hr]
    rfl

/-- A text that denotes a point in time is written anew as the text of the point.  That text is
accepted and denotes the same point: the day, the clock with second 60 and with the fraction cut to
nine digits, and the offset.  To write it anew changes nothing.  The texts that come to it are the
spellings of the point, so that two texts come to the same if and only if they denote the same. -/
theorem renewed_is_normal {s : String} {v : Scalar} (h : timestampOfText s = .ok v) :
    ∃ t s', DateTime.ofText s = .ok t ∧ ofDateTime t = .timestamp s' ∧
      timestampOfText s' = .ok (.timestamp s') ∧ DateTime.ofText s' = .ok t ∧
      renewed s = .ok (.timestamp s') ∧ renewed s' = .ok (.timestamp s') ∧
      (∀ r, renewed r = .ok (.timestamp s') ↔ t.Spelled r.toList) ∧
      ∀ r, renewed r = renewed s ↔ DateTime.ofText r = DateTime.ofText s := by
  obtain ⟨t, ht, -⟩ := map_ok h
  have hText := DateTime.ofText_text_of_ofText ht
  have hRenewed : renewed s = .ok (ofDateTime t) := (renewed_eq_ok_iff ht).mpr ht
  refine ⟨t, t.text, ht, rfl, ?_, hText, hRenewed, (renewed_eq_ok_iff ht).mpr hText, ?_, ?_⟩
  · rw [timestampOfText, hText]
    rfl
  · intro r
    exact (renewed_eq_ok_iff ht).trans DateTime.ofText_eq_ok_iff
  · intro r
    rw [hRenewed, ht]
    exact renewed_eq_ok_iff ht

/-- A leap second after a small letter, with ten digits and a true minus before no offset. -/
def leapText : String := "2016-12-31t23:59:60.1234567899\u221200:00"

theorem renewed_is_normal_leapText :
    timestampOfText leapText = .ok (.timestamp leapText) ∧
    renewed leapText = .ok (.timestamp "2016-12-31T23:59:60.123456789+00:00") ∧
    ∃ t s', DateTime.ofText leapText = .ok t ∧ ofDateTime t = .timestamp s' ∧
      timestampOfText s' = .ok (.timestamp s') ∧ DateTime.ofText s' = .ok t ∧
      renewed leapText = .ok (.timestamp s') ∧ renewed s' = .ok (.timestamp s') ∧
      (∀ r, renewed r = .ok (.timestamp s') ↔ t.Spelled r.toList) ∧
      ∀ r, renewed r = renewed leapText ↔ DateTime.ofText r = DateTime.ofText leapText := by
  have hAccepted : timestampOfText leapText = .ok (.timestamp leapText) := by rfl
  exact ⟨hAccepted, by rfl, renewed_is_normal hAccepted⟩

end Scalar

end QueryTree
