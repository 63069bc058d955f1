import QueryTree.Proofs.Retention

/-! The texts that denote a day are its spellings and no others: here each scanner says what stood
in the text that it took.  So whatever the spelling of a day was, the text that is written for it
denotes the same day, and its scalar comes back as it is. -/

namespace QueryTree

namespace Calendar

open QueryTree.Decimal
open QueryTree.Text (dropBlank isBlank)

/-! ### What the scanners took -/

section Taken

variable {text rest : List Char}

theorem number_ok {limit n : Nat} (hLimit : text ≠ [] → 0 < limit)
    (h : number limit text = .ok (n, rest)) :
    ∃ run, text = run ++ rest ∧ IsRun run ∧ run.length ≤ limit ∧ n = natOfDigits run := by
  cases text with
  | nil => cases h
  | cons c cs =>
    simp only [number] at h
    split at h
    · cases h
    · next hDigit =>
      split at h
      · cases h
        have hPrefix : ((c :: cs).take limit).takeWhile isDigit <+: c :: cs :=
          (List.takeWhile_prefix _).trans (List.take_prefix _ _)
        refine ⟨_, (List.prefix_iff_eq_append.mp hPrefix).symm, ⟨?_, ?_⟩, ?_, rfl⟩
        · have hFirst : isDigit c = true := by simpa using hDigit
          obtain ⟨k, rfl⟩ := Nat.exists_eq_succ_of_ne_zero (hLimit (List.cons_ne_nil c cs)).ne'
          simp [hFirst]
        · exact List.all_eq_true.mp List.all_takeWhile
        · exact Nat.le_trans (List.takeWhile_prefix _).length_le (List.length_take_le _ _)
      · cases h

theorem exists_blanks (text : List Char) :
    ∃ ws, (∀ c ∈ ws, isBlank c = true) ∧ text = ws ++ dropBlank text :=
  ⟨text.takeWhile isBlank, List.all_eq_true.mp List.all_takeWhile,
    List.takeWhile_append_dropWhile.symm⟩

theorem scanYear_ok {year : Int} (h : scanYear text = .ok (year, rest)) :
    ∃ taken, text = taken ++ rest ∧ YearText taken year := by
  obtain ⟨ws, hBlank, hText⟩ := exists_blanks text
  rw [scanYear] at h
  split at h
  · next after hSign =>
    obtain ⟨⟨n, rest⟩, hNumber, hYear⟩ := map_ok h
    cases hYear
    obtain ⟨run, rfl, hRun, -, rfl⟩ := number_ok List.length_pos_iff.mpr hNumber
    refine ⟨ws ++ '-' :: run, ?_, .negative hBlank hRun⟩
    rw [hText, hSign, List.append_assoc, List.cons_append]
  · next after hSign =>
    obtain ⟨⟨n, rest⟩, hNumber, hYear⟩ := map_ok h
    cases hYear
    obtain ⟨run, rfl, hRun, -, rfl⟩ := number_ok List.length_pos_iff.mpr hNumber
    refine ⟨ws ++ '+' :: run, ?_, .positive hBlank hRun⟩
    rw [hText, hSign, List.append_assoc, List.cons_append]
  · obtain ⟨⟨n, rest⟩, hNumber, hYear⟩ := map_ok h
    cases hYear
    obtain ⟨run, hTaken, hRun, hShort, rfl⟩ := number_ok (fun _ => by decide) hNumber
    refine ⟨ws ++ run, ?_, .plain hBlank hRun hShort⟩
    rw [hText, hTaken, List.append_assoc]

theorem scanPart_ok {high n : Nat} (h : scanPart high text = .ok (n, rest)) :
    ∃ taken, text = taken ++ rest ∧ PartText taken n := by
  obtain ⟨ws, hBlank, hText⟩ := exists_blanks text
  obtain ⟨⟨n, rest⟩, hNumber, h⟩ := bind_ok h
  obtain ⟨⟨⟩, -, h⟩ := bind_ok h
  cases h
  obtain ⟨run, hTaken, hRun, hShort, rfl⟩ := number_ok (fun _ => by decide) hNumber
  refine ⟨ws ++ run, ?_, .run hBlank hRun hShort⟩
  rw [hText, hTaken, List.append_assoc]

end Taken

namespace Date

/-- A text that is read as a day is one of its spellings. -/
theorem spelled_of_scan {text : List Char} {d : Date} (h : Date.scan text = .ok d) :
    d.Spelled text := by
  obtain ⟨⟨year, _⟩, hYear, h⟩ := bind_ok h
  obtain ⟨⟨⟩, -, h⟩ := bind_ok h
  obtain ⟨_, hHyphen, h⟩ := bind_ok h
  obtain ⟨⟨month, _⟩, hMonth, h⟩ := bind_ok h
  obtain ⟨_, hHyphen', h⟩ := bind_ok h
  obtain ⟨⟨day, rest⟩, hDay, h⟩ := bind_ok h
  obtain ⟨⟨⟩, hEnd, h⟩ := bind_ok h
  obtain rfl := require_ok hEnd
  obtain ⟨rfl, rfl, rfl⟩ := Date.ofNumbers_ok h
  obtain ⟨yearText, rfl, hYearText⟩ := scanYear_ok hYear
  obtain ⟨monthText, hMonthTaken, hMonthText⟩ := scanPart_ok hMonth
  obtain ⟨dayText, hDayTaken, hDayText⟩ := scanPart_ok hDay
  rw [literal_ok hHyphen, hMonthTaken, literal_ok hHyphen', hDayTaken, List.append_nil]
  exact .form hYearText hMonthText hDayText

/-- The texts that denote a day are its spellings. -/
theorem ofText_eq_ok_iff {text : String} {d : Date} :
    Date.ofText text = .ok d ↔ d.Spelled text.toList := by
  constructor
  · exact spelled_of_scan
  · exact Spelled.scan

end Date

end Calendar

/-! ### Texts that are written anew -/

open Calendar (Date)

namespace Scalar

/-- The scalar of a day holds a text that denotes the day, and it is read back as it is.  A text
denotes the day that it spells; once it is accepted, the text that is written for the day denotes
the same day. -/
theorem days_are_read_back :
    (∀ d : Date, ∃ text, ofDate d = .date text ∧ dateOfText text = .ok (.date text) ∧
      Date.ofText text = .ok d ∧ (ofDate d).reread = .ok (.date text)) ∧
    ∀ s : String, (∀ d, Date.ofText s = .ok d ↔ d.Spelled s.toList) ∧
      ∀ v, dateOfText s = .ok v → v = .date s ∧ ∃ d, Date.ofText s = .ok d ∧
        ∃ text, ofDate d = .date text ∧ Date.ofText text = .ok d := by
  refine ⟨fun d => ?_, fun s => ⟨fun d => Date.ofText_eq_ok_iff, fun v h => ?_⟩⟩
  · have hKeeps : (ofDate d).KeepsSort := ⟨d, d.ofText_text⟩
    refine ⟨d.text, rfl, ?_, d.ofText_text, hKeeps.reread nofun⟩
    rw [dateOfText, d.ofText_text]
    rfl
  · obtain ⟨d, hd, rfl⟩ := map_ok h
    exact ⟨rfl, d, hd, d.text, rfl, d.ofText_text⟩

/-- A day before the common era, with more zeros and blanks than are written. -/
def idesText : String := "\u3000-0000044-3-\t15"

theorem days_are_read_back_idesText :
    dateOfText idesText = .ok (.date idesText) ∧
    ∃ d : Date, d.Spelled idesText.toList ∧ (d.year, d.month, d.day) = (-44, 3, 15) ∧
      ofDate d = .date "-0044-03-15" ∧ Date.ofText "-0044-03-15" = .ok d ∧
      (ofDate d).reread = .ok (.date "-0044-03-15") := by
  have hAccepted : dateOfText idesText = .ok (.date idesText) := by rfl
  have hDay : (Date.ofText idesText).map (fun d => (d.year, d.month, d.day, d.text)) =
      .ok (-44, 3, 15, "-0044-03-15") := by rfl
  obtain ⟨hDays, hTexts⟩ := days_are_read_back
  obtain ⟨hSpelled, hAnew⟩ := hTexts idesText
  obtain ⟨-, d, hd, text, hText, hBack⟩ := hAnew _ hAccepted
  rw [hd] at hDay
  obtain ⟨hYear, hMonth, hNumber, hWritten⟩ : d.year = -44 ∧ d.month = 3 ∧ d.day = 15 ∧
      d.text = "-0044-03-15" := by simpa [Except.map] using hDay
  obtain ⟨text', hText', -, -, hReread⟩ := hDays d
  cases hText
  cases hText'
  rw [hWritten] at hBack hReread
  refine ⟨hAccepted, d, (hSpelled d).mp hd, ?_, ?_, hBack, hReread⟩
  · rw [hYear, hMonth, hNumber]
  · rw [ofDate, hWritten]

end Scalar

end QueryTree
