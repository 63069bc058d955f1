import Mathlib.Algebra.Ring.Nat
import Mathlib.Data.List.Induction
import QueryTree.Decimal.Read

/-! Decimal numerals: the digits of a number are digits, they denote the number, and in a text they
can be told from what follows as long as that does not begin with a digit. -/

namespace QueryTree.Decimal

theorem isDigit_of_mem_toDigits {n : Nat} {c : Char} (h : c ∈ Nat.toDigits 10 n) :
    isDigit c = true := by
  have hDigit := Nat.isDigit_of_mem_toDigits (by decide) (by decide) h
  simpa [isDigit, Char.isDigit, Char.le_def] using hDigit

theorem ne_of_isDigit {c e : Char} (h : isDigit c = true) (he : isDigit e = false) : c ≠ e := by
  rintro rfl
  rw [h] at he
  cases he

theorem not_mem_toDigits {c : Char} (h : isDigit c = false) (n : Nat) : c ∉ Nat.toDigits 10 n := by
  intro hMem
  exact ne_of_isDigit (isDigit_of_mem_toDigits hMem) h rfl

theorem natOfDigits_toDigits (n : Nat) : natOfDigits (Nat.toDigits 10 n) = n := by
  have h : Nat.ofDigitChars 10 (Nat.toDigits 10 n) 0 = n := Nat.ofDigitChars_ten_toDigits
  simpa only [natOfDigits, digitValue, Nat.ofDigitChars, Nat.mul_comm 10] using h

theorem natOfDigits_concat (digits : List Char) (c : Char) :
    natOfDigits (digits ++ [c]) = natOfDigits digits * 10 + digitValue c := by
  rw [natOfDigits, List.foldl_append]
  rfl

theorem natOfDigits_zeros_append (count : Nat) (digits : List Char) :
    natOfDigits (List.replicate count '0' ++ digits) = natOfDigits digits := by
  induction count with
  | zero => rfl
  | succ count ih => exact ih

theorem natOfDigits_append_zeros (digits : List Char) (count : Nat) :
    natOfDigits (digits ++ List.replicate count '0') = natOfDigits digits * 10 ^ count := by
  induction count with
  | zero => simp
  | succ count ih =>
    have hZero : digitValue '0' = 0 := rfl
    rw [List.replicate_succ', ← List.append_assoc, natOfDigits_concat, ih, hZero, Nat.pow_succ,
      Nat.mul_assoc, Nat.add_zero]

theorem toNat_bounds_of_isDigit {c : Char} (h : isDigit c = true) :
    48 ≤ c.toNat ∧ c.toNat ≤ 57 := by
  simpa [isDigit, Char.le_def, UInt32.le_iff_toNat_le] using h

theorem digitValue_lt {c : Char} (h : isDigit c = true) : digitValue c < 10 := by
  have hRange := toNat_bounds_of_isDigit h
  have hZero : '0'.toNat = 48 := rfl
  rw [digitValue, hZero]
  omega

theorem natOfDigits_lt {digits : List Char} (h : ∀ c ∈ digits, isDigit c = true) :
    natOfDigits digits < 10 ^ digits.length := by
  -- after some digits with the value `m`, the value of all stays below that of `m + 1` and zeros
  have hFrom : ∀ (cs : List Char) (m : Nat), (∀ c ∈ cs, isDigit c = true) →
      cs.foldl (fun n c => n * 10 + digitValue c) m < (m + 1) * 10 ^ cs.length := by
    intro cs
    induction cs with
    | nil =>
      intro m _
      simp
    | cons c cs ih =>
      intro m hAll
      obtain ⟨hFirst, hRest⟩ := List.forall_mem_cons.mp hAll
      have hValue := digitValue_lt hFirst
      have hMore := ih (m * 10 + digitValue c) hRest
      have hStep : (m * 10 + digitValue c + 1) * 10 ^ cs.length ≤
          (m + 1) * 10 * 10 ^ cs.length := Nat.mul_le_mul_right _ (by omega)
      rw [List.foldl_cons, List.length_cons, Nat.pow_succ', ← Nat.mul_assoc]
      exact Nat.lt_of_lt_of_le hMore hStep
  have hAll := hFrom digits 0 h
  rwa [Nat.zero_add, Nat.one_mul] at hAll

theorem digitValue_inj {c e : Char} (hc : isDigit c = true) (he : isDigit e = true)
    (h : digitValue c = digitValue e) : c = e := by
  have hFirst := toNat_bounds_of_isDigit hc
  have hSecond := toNat_bounds_of_isDigit he
  have hZero : '0'.toNat = 48 := rfl
  rw [digitValue, digitValue, hZero] at h
  exact Char.toNat_inj.mp (by omega)

/-- Digits that are as many and denote the same number are the same digits. -/
theorem natOfDigits_inj {ds es : List Char} (hds : ∀ c ∈ ds, isDigit c = true)
    (hes : ∀ c ∈ es, isDigit c = true) (hLength : ds.length = es.length)
    (hValue : natOfDigits ds = natOfDigits es) : ds = es := by
  induction ds using List.reverseRecOn generalizing es with
  | nil => exact (List.eq_nil_of_length_eq_zero hLength.symm).symm
  | append_singleton ds c ih =>
    cases es using List.reverseRecOn with
    | nil => simp at hLength
    | append_singleton es e _ =>
      obtain ⟨hds, hc⟩ := List.forall_mem_append.mp hds
      obtain ⟨hes, he⟩ := List.forall_mem_append.mp hes
      have hcDigit := hc c (List.mem_singleton_self c)
      have heDigit := he e (List.mem_singleton_self e)
      have hcValue := digitValue_lt hcDigit
      have heValue := digitValue_lt heDigit
      rw [natOfDigits_concat, natOfDigits_concat] at hValue
      have hInit : ds = es := ih hds hes (by simpa using hLength) (by omega)
      have hLast : c = e := digitValue_inj hcDigit heDigit (by omega)
      rw [hInit, hLast]

/-- A positive number does not begin with a zero. -/
theorem head?_toDigits_ne_zero (n : Nat) (hn : 0 < n) : (Nat.toDigits 10 n).head? ≠ some '0' := by
  induction n using Nat.strongRecOn with
  | ind n ih =>
    rw [Nat.toDigits_eq_if (by decide)]
    split
    · next hSmall =>
      have hDigits : ∀ m < 10, 0 < m → Nat.digitChar m ≠ '0' := by decide
      simpa using hDigits n hSmall hn
    · next hLarge =>
      have hDiv := ih (n / 10) (by omega) (by omega)
      cases hHead : Nat.toDigits 10 (n / 10) with
      | nil => exact absurd hHead Nat.toDigits_ne_nil
      | cons c cs =>
        rw [hHead] at hDiv
        exact hDiv

theorem toDigits_ne_zero_cons (n : Nat) (c : Char) (cs : List Char) :
    Nat.toDigits 10 n ≠ '0' :: c :: cs := by
  intro h
  cases n with
  | zero => cases h
  | succ n => exact head?_toDigits_ne_zero (n + 1) n.succ_pos (by rw [h]; rfl)

/-- Whether the first character of a text is a digit. -/
def startsWithDigit : List Char → Bool
  | [] => false
  | c :: _ => isDigit c

section Runs

variable {digits rest : List Char}

theorem takeWhile_isDigit_append (hDigits : ∀ c ∈ digits, isDigit c = true)
    (hRest : startsWithDigit rest = false) : (digits ++ rest).takeWhile isDigit = digits := by
  rw [List.takeWhile_append_of_pos hDigits]
  cases rest with
  | nil => simp
  | cons c rest => simp [show isDigit c = false from hRest]

theorem dropWhile_isDigit_append (hDigits : ∀ c ∈ digits, isDigit c = true)
    (hRest : startsWithDigit rest = false) : (digits ++ rest).dropWhile isDigit = rest := by
  rw [List.dropWhile_append_of_pos hDigits]
  cases rest with
  | nil => rfl
  | cons c rest => simp [show isDigit c = false from hRest]

end Runs

end QueryTree.Decimal
