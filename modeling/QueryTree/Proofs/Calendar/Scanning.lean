import QueryTree.Calendar.DateTime
import QueryTree.Proofs.Numerals

/-! What the scanners make of numbers that were written with leading zeros.  A padded number is a
run of digits that denotes the number; each scanner reads it and leaves what follows. -/

namespace QueryTree.Calendar

open QueryTree.Decimal
open QueryTree.Text (dropBlank isBlank utf8Size length_le_utf8Size)

/-! ### Padded numbers -/

theorem toList_padded (width n : Nat) : (padded width n).toList =
    List.replicate (width - (Nat.toDigits 10 n).length) '0' ++ Nat.toDigits 10 n := by
  simp [padded, zeros]

theorem isDigit_of_mem_padded (width n : Nat) :
    ∀ c ∈ (padded width n).toList, isDigit c = true := by
  intro c hMem
  rw [toList_padded, List.mem_append] at hMem
  rcases hMem with hZero | hDigit
  · rw [List.eq_of_mem_replicate hZero]
    rfl
  · exact isDigit_of_mem_toDigits hDigit

theorem padded_ne_nil (width n : Nat) : (padded width n).toList ≠ [] := by
  rw [toList_padded]
  exact List.append_ne_nil_of_right_ne_nil _ Nat.toDigits_ne_nil

theorem natOfDigits_padded (width n : Nat) : natOfDigits (padded width n).toList = n := by
  rw [toList_padded, natOfDigits_zeros_append, natOfDigits_toDigits]

theorem length_padded {width n : Nat} (hWidth : 0 < width) (h : n < 10 ^ width) :
    (padded width n).toList.length = width := by
  have hShort : (Nat.toDigits 10 n).length ≤ width :=
    (Nat.length_toDigits_le_iff (by decide) hWidth).mpr h
  rw [toList_padded, List.length_append, List.length_replicate]
  omega

theorem le_length_padded (width n : Nat) : width ≤ (padded width n).toList.length := by
  rw [toList_padded, List.length_append, List.length_replicate]
  omega

/-! ### Scanners -/

section Scanners

variable {digits rest : List Char}

theorem fixedDigits_append (hDigits : ∀ c ∈ digits, isDigit c = true) :
    fixedDigits digits.length (digits ++ rest) = .ok (natOfDigits digits, rest) := by
  have hAll : digits.all isDigit = true := List.all_eq_true.mpr hDigits
  simp [fixedDigits, hAll]

theorem fixedDigits_padded {width n : Nat} (hWidth : 0 < width) (h : n < 10 ^ width) :
    fixedDigits width ((padded width n).toList ++ rest) = .ok (n, rest) := by
  have hRead : fixedDigits _ ((padded width n).toList ++ rest) = _ :=
    fixedDigits_append (isDigit_of_mem_padded width n)
  rwa [length_padded hWidth h, natOfDigits_padded] at hRead

theorem twoDigits_padded {n : Nat} (h : n < 100) :
    twoDigits ((padded 2 n).toList ++ rest) = .ok (n, rest) := by
  have hSize := length_le_utf8Size ((padded 2 n).toList ++ rest)
  rw [List.length_append, length_padded (by decide) h] at hSize
  rw [twoDigits, if_neg (by omega), fixedDigits_padded (by decide) h]

/-- A run of digits is read as a number when nothing that follows belongs to it. -/
theorem number_append {limit : Nat} (hNonempty : digits ≠ [])
    (hDigits : ∀ c ∈ digits, isDigit c = true) (hLimit : digits.length ≤ limit)
    (hRest : startsWithDigit rest = false) (hValue : natOfDigits digits < 0x8000000000000000) :
    number limit (digits ++ rest) = .ok (natOfDigits digits, rest) := by
  have hRun : ((digits ++ rest).take limit).takeWhile isDigit = digits := by
    rw [List.take_append, List.take_of_length_le hLimit]
    refine takeWhile_isDigit_append hDigits ?_
    cases rest with
    | nil => simp [startsWithDigit]
    | cons c rest => cases limit - digits.length <;> simp_all [startsWithDigit]
  obtain ⟨c, cs, rfl⟩ := List.exists_cons_of_ne_nil hNonempty
  have hFirst : isDigit c = true := hDigits c List.mem_cons_self
  rw [List.cons_append] at hRun ⊢
  simp only [number, hFirst, hRun, hValue, Bool.not_true, Bool.false_eq_true, if_false, if_true]
  simp

theorem isBlank_of_isDigit {c : Char} (h : isDigit c = true) : isBlank c = false := by
  have hRange := toNat_bounds_of_isDigit h
  simp only [isBlank, Text.blankRanges, List.any_cons, List.any_nil, Bool.or_false,
    Bool.or_eq_false_iff, Bool.and_eq_false_iff, decide_eq_false_iff_not]
  omega

/-- Digits are no blanks, so nothing is passed over before them. -/
theorem dropBlank_append (hNonempty : digits ≠ []) (hDigits : ∀ c ∈ digits, isDigit c = true) :
    dropBlank (digits ++ rest) = digits ++ rest := by
  obtain ⟨c, cs, rfl⟩ := List.exists_cons_of_ne_nil hNonempty
  have hFirst := isBlank_of_isDigit (hDigits c List.mem_cons_self)
  rw [dropBlank, List.cons_append, List.dropWhile_cons_of_neg (by simp [hFirst])]

/-- A year without a sign is the number that its digits denote. -/
theorem scanYear_append (hNonempty : digits ≠ []) (hDigits : ∀ c ∈ digits, isDigit c = true)
    (hLimit : digits.length ≤ 4) (hRest : startsWithDigit rest = false)
    (hValue : natOfDigits digits < 0x8000000000000000) :
    scanYear (digits ++ rest) = .ok (natOfDigits digits, rest) := by
  have hNumber := number_append hNonempty hDigits hLimit hRest hValue
  rw [scanYear, dropBlank_append hNonempty hDigits]
  obtain ⟨c, cs, rfl⟩ := List.exists_cons_of_ne_nil hNonempty
  have hFirst : isDigit c = true := hDigits c List.mem_cons_self
  split
  · next hHead =>
    cases hHead
    cases hFirst
  · next hHead =>
    cases hHead
    cases hFirst
  · rw [hNumber]
    rfl

theorem scanPart_append {high : Nat} (hNonempty : digits ≠ [])
    (hDigits : ∀ c ∈ digits, isDigit c = true) (hLimit : digits.length ≤ 2)
    (hRest : startsWithDigit rest = false) (hValue : natOfDigits digits < 0x8000000000000000) :
    scanPart high (digits ++ rest) =
      if 1 ≤ natOfDigits digits ∧ natOfDigits digits ≤ high then .ok (natOfDigits digits, rest)
      else .error .outOfRange := by
  rw [scanPart, dropBlank_append hNonempty hDigits,
    number_append hNonempty hDigits hLimit hRest hValue]
  by_cases hRange : 1 ≤ natOfDigits digits ∧ natOfDigits digits ≤ high
  · rw [if_pos hRange]
    simp only [bind, Except.bind, require, if_pos hRange]
  · rw [if_neg hRange]
    simp only [bind, Except.bind, require, if_neg hRange]

end Scanners

end QueryTree.Calendar
