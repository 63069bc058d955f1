import QueryTree.Proofs.Calendar.Scanning

/-! Days and points in time read back from their texts.  Both can be spelled in many ways, all of
which are read as the day or point.  The text that is written for a day is one of its spellings;
that of a point in time is one exactly when the year is written without a sign: a reader that wants
four digits first refuses the sign of any other year. -/

namespace QueryTree.Calendar

open QueryTree.Decimal
open QueryTree.Text (dropBlank isBlank utf8Size length_le_utf8Size)

/-! ### Days -/

theorem daysInMonth_le (year : Int) (month : Nat) : daysInMonth year month ≤ 31 := by
  unfold daysInMonth
  split <;> first | decide | (split <;> decide)

theorem month_of_daysInMonth_pos {year : Int} {month : Nat} (h : 0 < daysInMonth year month) :
    1 ≤ month ∧ month ≤ 12 := by
  unfold daysInMonth at h
  split at h <;> first | decide | cases h

namespace Date

variable (d : Date)

theorem month_bounds : 1 ≤ d.month ∧ d.month ≤ 12 := by
  obtain ⟨-, -, hLow, hHigh⟩ := d.exists_day
  exact month_of_daysInMonth_pos (Nat.lt_of_lt_of_le hLow hHigh)

theorem day_bounds : 1 ≤ d.day ∧ d.day ≤ 31 := by
  obtain ⟨-, -, hLow, hHigh⟩ := d.exists_day
  exact ⟨hLow, Nat.le_trans hHigh (daysInMonth_le _ _)⟩

theorem ofNumbers_self : ofNumbers d.year d.month d.day = .ok d := by
  rw [ofNumbers, dif_pos d.exists_day]

end Date

/-- One or more digits. -/
structure IsRun (run : List Char) : Prop where
  nonempty : run ≠ []
  digits : ∀ c ∈ run, isDigit c = true

theorem isRun_padded (width n : Nat) : IsRun (padded width n).toList :=
  ⟨padded_ne_nil width n, isDigit_of_mem_padded width n⟩

/-- The texts of a year, with its number: digits, after a sign or not, with blanks in front. -/
inductive YearText : List Char → Int → Prop
  | plain {ws run : List Char} (blank : ∀ c ∈ ws, isBlank c = true) (isRun : IsRun run)
      (short : run.length ≤ 4) : YearText (ws ++ run) (natOfDigits run)
  | positive {ws run : List Char} (blank : ∀ c ∈ ws, isBlank c = true) (isRun : IsRun run) :
      YearText (ws ++ '+' :: run) (natOfDigits run)
  | negative {ws run : List Char} (blank : ∀ c ∈ ws, isBlank c = true) (isRun : IsRun run) :
      YearText (ws ++ '-' :: run) (-(natOfDigits run : Int))

/-- The texts of a month or of a day of the month, with its number. -/
inductive PartText : List Char → Nat → Prop
  | run {ws run : List Char} (blank : ∀ c ∈ ws, isBlank c = true) (isRun : IsRun run)
      (short : run.length ≤ 2) : PartText (ws ++ run) (natOfDigits run)

/-- The texts that denote a day: year, month and day of the month, with hyphens between them. -/
inductive Date.Spelled (d : Date) : List Char → Prop
  | form {year month day : List Char} (yearText : YearText year d.year)
      (monthText : PartText month d.month) (dayText : PartText day d.day) :
      Spelled d (year ++ '-' :: (month ++ '-' :: day))

section Days

variable {ws run text rest : List Char}

theorem dropBlank_append_blank (h : ∀ c ∈ ws, isBlank c = true) (text : List Char) :
    dropBlank (ws ++ text) = dropBlank text := List.dropWhile_append_of_pos h

theorem scanYear_append_blank (h : ∀ c ∈ ws, isBlank c = true) (text : List Char) :
    scanYear (ws ++ text) = scanYear text := by
  rw [scanYear, scanYear, dropBlank_append_blank h]

theorem scanPart_append_blank {high : Nat} (h : ∀ c ∈ ws, isBlank c = true) (text : List Char) :
    scanPart high (ws ++ text) = scanPart high text := by
  rw [scanPart, scanPart, dropBlank_append_blank h]

/-- After a sign a year has as many digits as there are. -/
theorem number_length_append (hRun : IsRun run) (hRest : startsWithDigit rest = false)
    (hValue : natOfDigits run < 0x8000000000000000) :
    number (run ++ rest).length (run ++ rest) = .ok (natOfDigits run, rest) := by
  refine number_append hRun.nonempty hRun.digits ?_ hRest hValue
  rw [List.length_append]
  exact Nat.le_add_right _ _

theorem YearText.scan {year : Int} (h : YearText text year)
    (hYear : year.natAbs < 0x8000000000000000) (hRest : startsWithDigit rest = false) :
    scanYear (text ++ rest) = .ok (year, rest) := by
  cases h with
  | plain hBlank hRun hShort =>
    rw [List.append_assoc, scanYear_append_blank hBlank]
    exact scanYear_append hRun.nonempty hRun.digits hShort hRest (by omega)
  | @positive _ run hBlank hRun =>
    have hSign : dropBlank ('+' :: (run ++ rest)) = '+' :: (run ++ rest) := rfl
    rw [List.append_assoc, scanYear_append_blank hBlank, List.cons_append, scanYear, hSign]
    simp only [number_length_append hRun hRest (by omega), Except.map]
  | @negative _ run hBlank hRun =>
    have hSign : dropBlank ('-' :: (run ++ rest)) = '-' :: (run ++ rest) := rfl
    rw [List.append_assoc, scanYear_append_blank hBlank, List.cons_append, scanYear, hSign]
    simp only [number_length_append hRun hRest (by omega), Except.map]

theorem PartText.scan {high n : Nat} (h : PartText text n) (hLow : 1 ≤ n) (hHigh : n ≤ high)
    (hRest : startsWithDigit rest = false) : scanPart high (text ++ rest) = .ok (n, rest) := by
  cases h with
  | run hBlank hRun hShort =>
    have hValue := natOfDigits_lt hRun.digits
    have hPower := Nat.pow_le_pow_right (show 0 < 10 by decide) hShort
    rw [List.append_assoc, scanPart_append_blank hBlank,
      scanPart_append hRun.nonempty hRun.digits hShort hRest (by omega), if_pos ⟨hLow, hHigh⟩]

/-- Every spelling of a day denotes the day. -/
theorem Date.Spelled.scan {d : Date} (h : d.Spelled text) : Date.scan text = .ok d := by
  cases h with
  | @form year month day hYear hMonth hDay =>
    obtain ⟨hMonthLow, hMonthHigh⟩ := d.month_bounds
    obtain ⟨hDayLow, hDayHigh⟩ := d.day_bounds
    obtain ⟨hYearLow, hYearHigh, -, -⟩ := d.exists_day
    have hLast : scanPart 31 day = .ok (d.day, []) := by
      have hRead : scanPart 31 (day ++ []) = .ok (d.day, []) := hDay.scan hDayLow hDayHigh rfl
      rwa [List.append_nil] at hRead
    rw [Date.scan, hYear.scan (by omega) rfl]
    simp only [bind, Except.bind, require, literal, hMonth.scan hMonthLow hMonthHigh
      (show startsWithDigit ('-' :: _) = false from rfl), hLast,
      if_pos (show -0x80000000 ≤ d.year ∧ d.year < 0x80000000 by omega), beq_self_eq_true, if_true]
    exact d.ofNumbers_self

end Days

theorem toList_yearText_unsigned {year : Int} (h : 0 ≤ year ∧ year ≤ 9999) :
    (yearText year).toList = (padded 4 year.toNat).toList := by
  rw [yearText, if_pos h]

theorem toList_yearText_signed {year : Int} (h : ¬(0 ≤ year ∧ year ≤ 9999)) :
    (yearText year).toList =
      (if year < 0 then '-' else '+') :: (padded 4 year.natAbs).toList := by
  rw [yearText, if_neg h]
  split <;> simp

theorem yearText_spells (year : Int) : YearText (yearText year).toList year := by
  by_cases hPlain : 0 ≤ year ∧ year ≤ 9999
  · have hShort : (padded 4 year.toNat).toList.length ≤ 4 :=
      Nat.le_of_eq (length_padded (by decide) (by omega))
    have hYear := YearText.plain (List.forall_mem_nil _) (isRun_padded 4 year.toNat) hShort
    rwa [natOfDigits_padded, Int.toNat_of_nonneg hPlain.1, List.nil_append,
      ← toList_yearText_unsigned hPlain] at hYear
  · rw [toList_yearText_signed hPlain]
    by_cases hNegative : year < 0
    · have hYear := YearText.negative (List.forall_mem_nil _) (isRun_padded 4 year.natAbs)
      rw [natOfDigits_padded, show -(year.natAbs : Int) = year by omega] at hYear
      rwa [if_pos hNegative]
    · have hYear := YearText.positive (List.forall_mem_nil _) (isRun_padded 4 year.natAbs)
      rw [natOfDigits_padded, show (year.natAbs : Int) = year by omega] at hYear
      rwa [if_neg hNegative]

theorem padded_spells {n : Nat} (h : n < 100) : PartText (padded 2 n).toList n := by
  have hPart := PartText.run (List.forall_mem_nil _) (isRun_padded 2 n)
    (Nat.le_of_eq (length_padded (by decide) h))
  rwa [natOfDigits_padded, List.nil_append] at hPart

theorem Date.toList_text (d : Date) : d.text.toList = (yearText d.year).toList ++
    '-' :: ((padded 2 d.month).toList ++ '-' :: (padded 2 d.day).toList) := by
  simp [Date.text]

theorem Date.spelled_text (d : Date) : d.Spelled d.text.toList := by
  have hMonth := d.month_bounds.2
  have hDay := d.day_bounds.2
  rw [d.toList_text]
  exact .form (yearText_spells d.year) (padded_spells (by omega)) (padded_spells (by omega))

/-- The text of a day denotes the day. -/
theorem Date.ofText_text (d : Date) : Date.ofText d.text = .ok d := d.spelled_text.scan

/-! ### Points in time -/

/-- A fraction counts in units of its last digit, of which there are at most nine. -/
theorem nanoseconds_padded {width n : Nat} (hLow : 0 < width) (hHigh : width ≤ 9)
    (h : n < 10 ^ width) : nanoseconds (padded width n).toList = n * 10 ^ (9 - width) := by
  have hTake : ((padded width n).toList ++ List.replicate 9 '0').take 9 =
      (padded width n).toList ++ List.replicate (9 - width) '0' := by
    have hLength := length_padded hLow h
    rw [List.take_append, List.take_of_length_le (by omega), hLength, List.take_replicate,
      Nat.min_eq_left (by omega)]
  rw [nanoseconds, hTake, natOfDigits_append_zeros, natOfDigits_padded]

/-- The texts of a fraction of a second, with its nanoseconds: none, or a point with digits. -/
inductive FractionText : List Char → Nat → Prop
  | absent : FractionText [] 0
  | digits {run : List Char} (nonempty : run ≠ []) (digits : ∀ c ∈ run, isDigit c = true) :
      FractionText ('.' :: run) (nanoseconds run)

/-- The texts of an offset from UTC, with its minutes.  The true minus sign is a sign too. -/
inductive ZoneText : List Char → Int → Prop
  | utc {letter : Char} (letter_eq : letter = 'Z' ∨ letter = 'z') : ZoneText [letter] 0
  | east {hours minutes : Nat} (hours_le : hours ≤ 23) (minutes_le : minutes ≤ 59) :
      ZoneText ('+' :: ((padded 2 hours).toList ++ ':' :: (padded 2 minutes).toList))
        (hours * 60 + minutes)
  | west {sign : Char} {hours minutes : Nat} (sign_eq : sign = '-' ∨ sign = '\u2212')
      (hours_le : hours ≤ 23) (minutes_le : minutes ≤ 59) :
      ZoneText (sign :: ((padded 2 hours).toList ++ ':' :: (padded 2 minutes).toList))
        (-(hours * 60 + minutes))

theorem FractionText.scan {fraction : List Char} {n : Nat} (h : FractionText fraction n)
    {c : Char} (hDigit : isDigit c = false) (hPoint : c ≠ '.') (rest : List Char) :
    ∃ run, scanFraction (fraction ++ c :: rest) = .ok (run, c :: rest) ∧ nanoseconds run = n := by
  cases h with
  | absent =>
    refine ⟨[], ?_, rfl⟩
    show scanFraction (c :: rest) = _
    unfold scanFraction
    split
    · next hHead =>
      cases hHead
      exact absurd rfl hPoint
    · rfl
  | @digits run hNonempty hDigits =>
    have hRest : startsWithDigit (c :: rest) = false := hDigit
    have hFilled : run.isEmpty = false := by simpa using hNonempty
    refine ⟨run, ?_, rfl⟩
    simp only [List.cons_append, scanFraction, takeWhile_isDigit_append hDigits hRest,
      dropWhile_isDigit_append hDigits hRest, hFilled, Bool.false_eq_true, if_false]

theorem scanOffsetClock_padded {hours minutes : Nat} (hHours : hours ≤ 23)
    (hMinutes : minutes ≤ 59) :
    scanOffsetClock ((padded 2 hours).toList ++ ':' :: (padded 2 minutes).toList) =
      .ok ((hours, minutes), []) := by
  have hLast : twoDigits ((padded 2 minutes).toList ++ []) = .ok (minutes, []) :=
    twoDigits_padded (by omega)
  rw [List.append_nil] at hLast
  rw [scanOffsetClock, twoDigits_padded (by omega)]
  simp only [bind, Except.bind, literal, beq_self_eq_true, if_true, hLast, require, if_pos hMinutes]

/-- Minutes east of UTC, from hours and minutes to either side. -/
def signedMinutes (west : Bool) (clock : Nat × Nat) : Int :=
  if west then -(clock.1 * 60 + clock.2) else clock.1 * 60 + clock.2

theorem ZoneText.scan {zone : List Char} {offset : Int} (h : ZoneText zone offset) :
    ∃ west clock, scanOffset zone = .ok ((west, clock), []) ∧ clock.1 ≤ 23 ∧ clock.2 ≤ 59 ∧
      signedMinutes west clock = offset := by
  cases h with
  | utc hLetter =>
    refine ⟨false, (0, 0), ?_, by decide, by decide, rfl⟩
    rcases hLetter with rfl | rfl <;> rfl
  | @east hours minutes hHours hMinutes =>
    refine ⟨false, (hours, minutes), ?_, hHours, hMinutes, rfl⟩
    rw [scanOffset, scanOffsetClock_padded hHours hMinutes]
    rfl
  | @west sign hours minutes hSign hHours hMinutes =>
    refine ⟨true, (hours, minutes), ?_, hHours, hMinutes, rfl⟩
    rw [scanOffset, scanOffsetClock_padded hHours hMinutes]
    rcases hSign with rfl | rfl <;> rfl

theorem ZoneText.exists_cons {zone : List Char} {offset : Int} (h : ZoneText zone offset) :
    ∃ c rest, zone = c :: rest ∧ isDigit c = false ∧ c ≠ '.' := by
  cases h with
  | utc hLetter => rcases hLetter with rfl | rfl <;> exact ⟨_, _, rfl, rfl, by decide⟩
  | east => exact ⟨_, _, rfl, rfl, by decide⟩
  | west hSign => rcases hSign with rfl | rfl <;> exact ⟨_, _, rfl, rfl, by decide⟩

theorem fractionText_spells {n : Nat} (h : n < 1000000000) :
    FractionText (fractionText n).toList n := by
  have hPadded : ∀ width m : Nat, 0 < width → width ≤ 9 → m < 10 ^ width →
      m * 10 ^ (9 - width) = n → FractionText ('.' :: (padded width m).toList) n := by
    intro width m hLow hHigh hm hValue
    rw [← hValue, ← nanoseconds_padded hLow hHigh hm]
    exact .digits (padded_ne_nil width m) (isDigit_of_mem_padded width m)
  unfold fractionText
  split
  · next hZero =>
    rw [hZero]
    exact .absent
  · split
    · rw [String.toList_append]
      exact hPadded 3 _ (by decide) (by decide) (by omega) (by omega)
    · split
      · rw [String.toList_append]
        exact hPadded 6 _ (by decide) (by decide) (by omega) (by omega)
      · rw [String.toList_append]
        exact hPadded 9 _ (by decide) (by decide) (by omega) (by omega)

theorem offsetText_spells {offset : Int} (h : -1440 < offset ∧ offset < 1440) :
    ZoneText (offsetText offset).toList offset := by
  have hHours : offset.natAbs / 60 ≤ 23 := by omega
  have hMinutes : offset.natAbs % 60 ≤ 59 := by omega
  unfold offsetText
  split
  · have hValue : -(((offset.natAbs / 60 : Nat) : Int) * 60 + (offset.natAbs % 60 : Nat)) =
        offset := by omega
    have hWest := ZoneText.west (.inl rfl) hHours hMinutes
    rw [hValue] at hWest
    simpa using hWest
  · have hValue : ((offset.natAbs / 60 : Nat) : Int) * 60 + (offset.natAbs % 60 : Nat) =
        offset := by omega
    have hEast := ZoneText.east hHours hMinutes
    rw [hValue] at hEast
    simpa using hEast

namespace DateTime

variable (t : DateTime)

/-- A point in time in writing: the year in front, then the other numbers, and what else there is
to choose. -/
def form (year : List Char) (separator : Char) (fraction zone : List Char) : List Char :=
  year ++ '-' :: ((padded 2 t.date.month).toList ++ '-' :: ((padded 2 t.date.day).toList ++
    separator :: ((padded 2 t.hour).toList ++ ':' :: ((padded 2 t.minute).toList ++ ':' ::
      ((padded 2 t.second).toList ++ (fraction ++ zone))))))

/-- The texts that denote a point in time: a year of four digits, one of three separators, any
fraction with the right nanoseconds and any text of the offset. -/
inductive Spelled : List Char → Prop
  | form {separator : Char} {fraction zone : List Char}
      (year_bounds : 0 ≤ t.date.year ∧ t.date.year ≤ 9999)
      (separator_eq : separator = 'T' ∨ separator = 't' ∨ separator = ' ')
      (fractionText : FractionText fraction t.nanosecond) (zoneText : ZoneText zone t.offset) :
      Spelled (t.form (padded 4 t.date.year.toNat).toList separator fraction zone)

theorem toList_text : t.text.toList = t.form (yearText t.date.year).toList 'T'
    (fractionText t.nanosecond).toList (offsetText t.offset).toList := by
  simp [DateTime.text, Date.text, form]

/-- What goes on after its day is the text of no day. -/
theorem dateScan_form {separator : Char} (hSeparator : isDigit separator = false)
    (fraction zone : List Char) :
    Date.scan (t.form (yearText t.date.year).toList separator fraction zone) =
      .error .trailing := by
  obtain ⟨hMonthLow, hMonthHigh⟩ := t.date.month_bounds
  obtain ⟨hDayLow, hDayHigh⟩ := t.date.day_bounds
  obtain ⟨hYearLow, hYearHigh, -, -⟩ := t.date.exists_day
  rw [Date.scan, form, (yearText_spells _).scan (by omega) rfl]
  simp only [bind, Except.bind, require, literal, beq_self_eq_true, if_true,
    if_pos (show -0x80000000 ≤ t.date.year ∧ t.date.year < 0x80000000 by omega),
    (padded_spells (by omega : t.date.month < 100)).scan hMonthLow hMonthHigh
      (show startsWithDigit ('-' :: _) = false from rfl),
    (padded_spells (by omega : t.date.day < 100)).scan hDayLow hDayHigh
      (show startsWithDigit (separator :: _) = false from hSeparator)]
  rfl

theorem utf8Size_form {year : List Char} (hYear : 4 ≤ year.length) (separator : Char)
    (fraction zone : List Char) : 19 ≤ utf8Size (t.form year separator fraction zone) := by
  have hSize := length_le_utf8Size (t.form year separator fraction zone)
  have hMonth := le_length_padded 2 t.date.month
  have hDay := le_length_padded 2 t.date.day
  have hHour := le_length_padded 2 t.hour
  have hMinute := le_length_padded 2 t.minute
  have hSecond := le_length_padded 2 t.second
  refine Nat.le_trans ?_ hSize
  simp only [form, List.length_append, List.length_cons]
  omega

theorem ofNumbers_of_signedMinutes {fraction : List Char} {west : Bool} {clock : Nat × Nat}
    (hFraction : nanoseconds fraction = t.nanosecond) (hHours : clock.1 ≤ 23)
    (hMinutes : clock.2 ≤ 59) (hOffset : signedMinutes west clock = t.offset) :
    ofNumbers t.date (t.hour, t.minute, t.second) fraction west clock = .ok t := by
  rw [ofNumbers]
  simp only [hFraction]
  rw [dif_pos ⟨t.hour_lt, t.minute_lt, t.second_le, t.nanosecond_lt, by omega, by omega⟩]
  simp only [signedMinutes] at hOffset
  simp only [hOffset]

/-- Every spelling of a point in time denotes the point. -/
theorem Spelled.scan {t : DateTime} {text : List Char} (h : t.Spelled text) :
    DateTime.scan text = .ok t := by
  cases h with
  | @form separator fraction zone hYear hSeparator hFraction hZone =>
    obtain ⟨-, hMonth⟩ := t.date.month_bounds
    obtain ⟨-, hDay⟩ := t.date.day_bounds
    have hHour := t.hour_lt
    have hMinute := t.minute_lt
    have hSecond := t.second_le
    obtain ⟨west, clock, hOffset, hHours, hMinutes, hSigned⟩ := hZone.scan
    obtain ⟨c, rest, rfl, hDigit, hPoint⟩ := hZone.exists_cons
    obtain ⟨run, hRun, hValue⟩ := hFraction.scan hDigit hPoint rest
    have hDate : Date.ofNumbers t.date.year.toNat t.date.month t.date.day = .ok t.date := by
      rw [Int.toNat_of_nonneg hYear.1, t.date.ofNumbers_self]
    have hMark : (separator == 'T' || separator == 't' || separator == ' ') = true := by
      rcases hSeparator with rfl | rfl | rfl <;> rfl
    have hSize := t.utf8Size_form (le_length_padded 4 t.date.year.toNat) separator fraction
      (c :: rest)
    rw [DateTime.scan, require, if_pos hSize, DateTime.form]
    simp only [bind, Except.bind, expect, beq_self_eq_true, if_true, hMark,
      fixedDigits_padded (show 0 < 4 by decide) (show t.date.year.toNat < 10 ^ 4 by omega),
      fixedDigits_padded (show 0 < 2 by decide) (show t.date.month < 10 ^ 2 by omega),
      fixedDigits_padded (show 0 < 2 by decide) (show t.date.day < 10 ^ 2 by omega),
      fixedDigits_padded (show 0 < 2 by decide) (show t.hour < 10 ^ 2 by omega),
      fixedDigits_padded (show 0 < 2 by decide) (show t.minute < 10 ^ 2 by omega),
      fixedDigits_padded (show 0 < 2 by decide) (show t.second < 10 ^ 2 by omega),
      hDate, hRun, require,
      if_pos (show t.hour ≤ 23 ∧ t.minute ≤ 59 ∧ t.second ≤ 60 by omega), hOffset]
    exact t.ofNumbers_of_signedMinutes hValue hHours hMinutes hSigned

theorem spelled_text (hYear : 0 ≤ t.date.year ∧ t.date.year ≤ 9999) :
    t.Spelled t.text.toList := by
  rw [toList_text, toList_yearText_unsigned hYear]
  exact .form hYear (.inl rfl) (fractionText_spells t.nanosecond_lt)
    (offsetText_spells t.offset_bound)

/-- The text of a point in time denotes the point, as long as its year has four digits. -/
theorem ofText_text (hYear : 0 ≤ t.date.year ∧ t.date.year ≤ 9999) :
    DateTime.ofText t.text = .ok t := (t.spelled_text hYear).scan

/-- The text of a point in time whose year has a sign is refused at the sign. -/
theorem ofText_text_signed (hYear : ¬(0 ≤ t.date.year ∧ t.date.year ≤ 9999)) :
    DateTime.ofText t.text = .error .invalid := by
  have hLong : 4 ≤ (yearText t.date.year).toList.length := by
    rw [toList_yearText_signed hYear]
    exact Nat.le_succ_of_le (le_length_padded 4 _)
  have hSize := t.utf8Size_form hLong 'T' (fractionText t.nanosecond).toList
    (offsetText t.offset).toList
  rw [DateTime.ofText, DateTime.scan, t.toList_text, require, if_pos hSize, form,
    toList_yearText_signed hYear]
  have hSign : isDigit (if t.date.year < 0 then '-' else '+') = false := by split <;> rfl
  simp [bind, Except.bind, fixedDigits, hSign]

end DateTime

end QueryTree.Calendar
