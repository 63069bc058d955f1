import Mathlib.Algebra.Order.Field.Power
import Mathlib.Tactic.Positivity
import Mathlib.Tactic.Ring
import QueryTree.Decimal.Shortest

/-! How large the shortest decimal of a double is.  Seventeen digits suffice to find one; it is not
zero unless the double is, and it lies no farther above the double than half a unit in the last
place. -/

namespace QueryTree.Decimal

/-- The number that a decimal stands for. -/
def Digits.value (d : Digits) : ℚ := d.significand * 10 ^ d.exponent

/-- The number that a magnitude stands for. -/
def Binary.value (b : Binary) : ℚ := b.significand * 2 ^ b.exponent

/-! ### Powers -/

theorem upperPower_pos {base : Nat} (hBase : 0 < base) (e : Int) : 0 < upperPower base e :=
  Nat.pow_pos hBase

/-- An upper power is the power times the upper power of the opposite exponent. -/
theorem upperPower_eq {base : Nat} (hBase : 0 < base) (e : Int) :
    (upperPower base e : ℚ) = (base : ℚ) ^ e * upperPower base (-e) := by
  have hNonzero : (base : ℚ) ≠ 0 := by exact_mod_cast hBase.ne'
  rcases Int.le_total 0 e with he | he
  · obtain ⟨n, rfl⟩ := Int.eq_ofNat_of_zero_le he
    simp [upperPower]
  · obtain ⟨n, hn⟩ := Int.eq_ofNat_of_zero_le (Int.neg_nonneg_of_nonpos he)
    obtain rfl : e = -n := by omega
    simp [upperPower, hNonzero]

/-! ### The first digit -/

theorem lt_ten_pow_digitCount (n : Nat) : n < 10 ^ digitCount n :=
  (Nat.length_toDigits_le_iff (by decide) Nat.length_toDigits_pos).mp (Nat.le_refl _)

theorem ten_pow_le_of_digitCount {n k : Nat} (hn : 0 < n) (h : digitCount n = k + 1) :
    10 ^ k ≤ n := by
  by_contra hLess
  cases k with
  | zero => exact hLess hn
  | succ k =>
    have hShort : digitCount n ≤ k + 1 :=
      (Nat.length_toDigits_le_iff (by decide) k.succ_pos).mpr (Nat.lt_of_not_le hLess)
    omega

theorem exists_digitCount (n : Nat) : ∃ k, digitCount n = k + 1 :=
  ⟨digitCount n - 1, (Nat.sub_add_cancel Nat.length_toDigits_pos).symm⟩

/-- A fraction lies below the power of ten after its leading exponent. -/
theorem lt_leadingExponent {num den : Nat} (hNum : 0 < num) (hDen : 0 < den) :
    (num : ℚ) < 10 ^ (leadingExponent num den + 1) * den := by
  rw [leadingExponent]
  split
  · have hLess : num < 10 ^ digitCount (num / den) * den :=
      (Nat.div_lt_iff_lt_mul hDen).mp (lt_ten_pow_digitCount _)
    rw [sub_add_cancel, zpow_natCast]
    exact_mod_cast hLess
  · next hSmall =>
    -- the inverse of the fraction, rounded down, or one less if it is whole
    generalize hc : (den + num - 1) / num - 1 = c
    have hQuotient := Nat.div_mul_le_self (den + num - 1) num
    have hTwo : 2 ≤ (den + num - 1) / num := (Nat.le_div_iff_mul_le hNum).mpr (by omega)
    have hInverse : c * num < den := by
      rw [← hc, Nat.sub_mul]
      omega
    obtain ⟨k, hk⟩ := exists_digitCount c
    have hPower : 10 ^ k ≤ c := ten_pow_le_of_digitCount (by omega) hk
    have hProduct : 10 ^ k * num < den :=
      Nat.lt_of_le_of_lt (Nat.mul_le_mul_right num hPower) hInverse
    have hExponent : -((digitCount c : Int)) + 1 = -(k : Int) := by omega
    rw [hExponent, zpow_neg, zpow_natCast, inv_mul_eq_div, lt_div_iff₀ (by positivity), mul_comm]
    exact_mod_cast hProduct

/-- A fraction lies at or above the power of ten of its leading exponent. -/
theorem leadingExponent_le {num den : Nat} (hNum : 0 < num) (hDen : 0 < den) :
    (10 : ℚ) ^ leadingExponent num den * den ≤ num := by
  rw [leadingExponent]
  split
  · next hLarge =>
    have hPos : 0 < num / den := Nat.div_pos hLarge hDen
    obtain ⟨k, hk⟩ := exists_digitCount (num / den)
    have hLe : 10 ^ k * den ≤ num :=
      (Nat.le_div_iff_mul_le hDen).mp (ten_pow_le_of_digitCount hPos hk)
    rw [hk, Nat.cast_add, Nat.cast_one, add_sub_cancel_right, zpow_natCast]
    exact_mod_cast hLe
  · next hSmall =>
    generalize hc : (den + num - 1) / num - 1 = c
    have hQuotient := Nat.div_add_mod (den + num - 1) num
    have hRemainder := Nat.mod_lt (den + num - 1) hNum
    have hPower := lt_ten_pow_digitCount c
    have hProduct : den ≤ num * 10 ^ digitCount c :=
      calc den
        _ ≤ num * ((den + num - 1) / num) := by omega
        _ ≤ num * 10 ^ digitCount c := Nat.mul_le_mul_left num (by omega)
    rw [zpow_neg, zpow_natCast, inv_mul_eq_div, div_le_iff₀ (by positivity)]
    exact_mod_cast hProduct

/-- The decimal exponent of the first digit of a magnitude. -/
def Binary.leading (b : Binary) : Int :=
  leadingExponent (b.significand * upperPower 2 b.exponent) (upperPower 2 (-b.exponent))

section Leading

variable {b : Binary} (hPos : 0 < b.significand)
include hPos

theorem Binary.numerator_pos : 0 < b.significand * upperPower 2 b.exponent :=
  Nat.mul_pos hPos (upperPower_pos (by decide) _)

theorem Binary.shortest_of_pos (tie : Tie) : b.shortest tie = b.search tie b.leading 17 1 := by
  rw [shortest, if_neg (by simpa using hPos.ne'), leading]

theorem Binary.value_lt : b.value < 10 ^ (b.leading + 1) := by
  have hDen : 0 < upperPower 2 (-b.exponent) := upperPower_pos (by decide) _
  have hLeading := lt_leadingExponent (numerator_pos hPos) hDen
  rw [Nat.cast_mul, upperPower_eq (by decide), ← mul_assoc] at hLeading
  exact lt_of_mul_lt_mul_right hLeading (Nat.cast_nonneg _)

theorem Binary.le_value : 10 ^ b.leading ≤ b.value := by
  have hDen : 0 < upperPower 2 (-b.exponent) := upperPower_pos (by decide) _
  have hLeading := leadingExponent_le (numerator_pos hPos) hDen
  rw [Nat.cast_mul, upperPower_eq (by decide) b.exponent, ← mul_assoc] at hLeading
  exact le_of_mul_le_mul_right hLeading (by exact_mod_cast hDen)

end Leading

/-! ### Grids -/

section Grids

variable {tie : Tie} {b : Binary} {grid : Int} {n : Nat}

/-- The unit of the comparisons on a grid: a quarter of a unit in the last place. -/
def Binary.unit (b : Binary) (grid : Int) : Nat :=
  upperPower 2 (b.exponent - 2) * upperPower 10 (-grid)

/-- The distance of two points of a grid, in units. -/
def Binary.step (b : Binary) (grid : Int) : Nat :=
  upperPower 10 grid * upperPower 2 (2 - b.exponent)

theorem Binary.step_pos (b : Binary) (grid : Int) : 0 < b.step grid :=
  Nat.mul_pos (upperPower_pos (by decide) _) (upperPower_pos (by decide) _)

theorem Binary.unit_eq (b : Binary) (grid : Int) :
    (b.unit grid : ℚ) * 10 ^ grid = 2 ^ (b.exponent - 2) * b.step grid := by
  have hTen := upperPower_eq (show 0 < 10 by decide) grid
  have hTwo := upperPower_eq (show 0 < 2 by decide) (b.exponent - 2)
  rw [neg_sub] at hTwo
  rw [unit, step, Nat.cast_mul, Nat.cast_mul, hTen, hTwo]
  push_cast
  ring

theorem Binary.unit_pos (b : Binary) (grid : Int) : 0 < b.unit grid :=
  Nat.mul_pos (upperPower_pos (by decide) _) (upperPower_pos (by decide) _)

/-- Four times the magnitude in units is the magnitude in steps. -/
theorem Binary.interval_value_mul (b : Binary) (grid : Int) :
    (b.interval.value * b.unit grid : ℚ) * 10 ^ grid = b.value * b.step grid := by
  have hQuarter : (4 : ℚ) * 2 ^ (b.exponent - 2) = 2 ^ b.exponent := by
    rw [zpow_sub₀ (by norm_num)]
    ring
  have hValue : (b.interval.value : ℚ) = 4 * b.significand := Nat.cast_mul 4 _
  rw [hValue, mul_assoc, b.unit_eq, value, ← hQuarter]
  ring

/-- The neighbour of the value below it, as a number of steps. -/
def Binary.below (b : Binary) (grid : Int) : Nat := b.interval.value * b.unit grid / b.step grid

/-- Whether a point of a grid rounds to the value. -/
def Binary.fits (b : Binary) (grid : Int) (n : Nat) : Bool :=
  b.interval.holds (b.interval.low * b.unit grid) (n * b.step grid) (b.interval.high * b.unit grid)

/-- What is taken on a grid is one of the value's two neighbours, is not zero, and rounds to the
value. -/
theorem Binary.onGrid_some (h : b.onGrid tie grid = some n) :
    0 < n ∧ n ≤ b.below grid + 1 ∧ b.fits grid n = true := by
  have hBelow : (b.fits grid (b.below grid) && b.below grid != 0) = true → n = b.below grid →
      0 < n ∧ n ≤ b.below grid + 1 ∧ b.fits grid n = true := by
    rintro hFits rfl
    rw [Bool.and_eq_true, bne_iff_ne] at hFits
    exact ⟨Nat.pos_of_ne_zero hFits.2, Nat.le_succ _, hFits.1⟩
  have hAbove : b.fits grid (b.below grid + 1) = true → n = b.below grid + 1 →
      0 < n ∧ n ≤ b.below grid + 1 ∧ b.fits grid n = true := by
    rintro hFits rfl
    exact ⟨Nat.succ_pos _, Nat.le_refl _, hFits⟩
  unfold onGrid at h
  simp only at h
  split at h
  · next hFitsBelow hFitsAbove =>
    split at h
    · exact hBelow hFitsBelow (Option.some.inj h).symm
    split at h
    · exact hAbove hFitsAbove (Option.some.inj h).symm
    split at h
    · split at h
      · exact hBelow hFitsBelow (Option.some.inj h).symm
      · exact hAbove hFitsAbove (Option.some.inj h).symm
    · exact hAbove hFitsAbove (Option.some.inj h).symm
  · next hFitsBelow _ => exact hBelow hFitsBelow (Option.some.inj h).symm
  · next _ hFitsAbove => exact hAbove hFitsAbove (Option.some.inj h).symm
  · cases h

/-- Something is taken as soon as one of the neighbours rounds to the value. -/
theorem Binary.exists_onGrid (tie : Tie)
    (h : b.below grid ≠ 0 ∧ b.fits grid (b.below grid) = true ∨
      b.fits grid (b.below grid + 1) = true) : ∃ n, b.onGrid tie grid = some n := by
  unfold onGrid
  simp only
  split
  · split
    · exact ⟨_, rfl⟩
    split
    · exact ⟨_, rfl⟩
    split <;> exact ⟨_, rfl⟩
  · exact ⟨_, rfl⟩
  · exact ⟨_, rfl⟩
  · next hNotBelow hNotAbove =>
    exfalso
    rcases h with ⟨hNonzero, hFits⟩ | hFits
    · replace hNotBelow : (b.fits grid (b.below grid) && b.below grid != 0) = false := hNotBelow
      rw [hFits, Bool.true_and, bne_eq_false_iff_eq] at hNotBelow
      exact hNonzero hNotBelow
    · replace hNotAbove : b.fits grid (b.below grid + 1) = false := hNotAbove
      rw [hFits] at hNotAbove
      cases hNotAbove

theorem Interval.le_of_holds {i : Interval} {low x high : Nat} (h : i.holds low x high = true) :
    x ≤ high := by
  unfold holds at h
  split at h <;> simp at h <;> omega

theorem Interval.holds_of_lt {i : Interval} {low x high : Nat} (hLow : low < x) (hHigh : x < high) :
    i.holds low x high = true := by
  unfold holds
  split <;> simp <;> omega

/-- A value below `10^(grid + count)` has at most `count` digits on the grid, or is rounded up to
the first number with more. -/
theorem Binary.le_of_onGrid {count : Nat} (h : b.onGrid tie grid = some n)
    (hBound : b.value < 10 ^ (grid + count)) : n ≤ 10 ^ count := by
  have hTen : (0 : ℚ) < 10 ^ grid := by positivity
  have hStep : (0 : ℚ) < b.step grid := by exact_mod_cast b.step_pos grid
  have hCast : (b.interval.value * b.unit grid : ℚ) < 10 ^ count * b.step grid := by
    refine lt_of_mul_lt_mul_right ?_ hTen.le
    calc (b.interval.value * b.unit grid : ℚ) * 10 ^ grid
      _ = b.value * b.step grid := b.interval_value_mul grid
      _ < 10 ^ (grid + count) * b.step grid := mul_lt_mul_of_pos_right hBound hStep
      _ = 10 ^ count * b.step grid * 10 ^ grid := by
        rw [zpow_add₀ (by norm_num), zpow_natCast]
        ring
  have hLess : b.below grid < 10 ^ count := by
    rw [below, Nat.div_lt_iff_lt_mul (b.step_pos grid)]
    exact_mod_cast hCast
  have := (onGrid_some h).2.1
  omega

/-- What is taken on a grid lies at most half a unit in the last place above the value. -/
theorem Binary.value_le_of_onGrid (h : b.onGrid tie grid = some n) :
    (Digits.mk n grid).value ≤ (4 * b.significand + 2) * 2 ^ (b.exponent - 2) := by
  have hTen : (0 : ℚ) < 10 ^ grid := by positivity
  have hStep : (0 : ℚ) < b.step grid := by exact_mod_cast b.step_pos grid
  have hCast : (n * b.step grid : ℚ) ≤ (4 * b.significand + 2) * b.unit grid := by
    exact_mod_cast Interval.le_of_holds (onGrid_some h).2.2
  refine le_of_mul_le_mul_right ?_ hStep
  calc (n * 10 ^ grid : ℚ) * b.step grid
    _ = n * b.step grid * 10 ^ grid := by ring
    _ ≤ (4 * b.significand + 2) * b.unit grid * 10 ^ grid :=
      mul_le_mul_of_nonneg_right hCast hTen.le
    _ = (4 * b.significand + 2) * (b.unit grid * 10 ^ grid) := by ring
    _ = (4 * b.significand + 2) * 2 ^ (b.exponent - 2) * b.step grid := by
      rw [b.unit_eq]
      ring

end Grids

/-! ### Seventeen digits -/

/-- A magnitude with 53 bits at most and an exponent in range; where the double below is nearer than
the one above, it has the least significand of all with 53 bits. -/
structure Binary.IsDouble (b : Binary) : Prop where
  significand_lt : b.significand < 2 ^ 53
  exponent_le : b.exponent ≤ 971
  narrow_le : b.narrow = true → b.significand ≤ 2 ^ 52

theorem isDouble_ofFloat {x : Float} {negative : Bool} {b : Binary}
    (h : Shape.ofFloat x = .finite negative b) : b.IsDouble := by
  have hBiased : x.toBits.toNat / 0x10000000000000 % 0x800 < 0x800 := Nat.mod_lt _ (by decide)
  have hFraction : x.toBits.toNat % 0x10000000000000 < 0x10000000000000 := Nat.mod_lt _ (by decide)
  simp only [Shape.ofFloat] at h
  split at h
  · split at h <;> cases h
  split at h
  · cases h
    exact ⟨Nat.lt_trans hFraction (by decide), (by decide : (-1074 : Int) ≤ 971), nofun⟩
  · next hOnes _ =>
    rw [beq_iff_eq] at hOnes
    cases h
    refine ⟨by simp only; omega, by simp only; omega, fun hNarrow => ?_⟩
    rw [Bool.and_eq_true, beq_iff_eq] at hNarrow
    simp only [hNarrow.1]
    decide

/-- On a grid on which the value has seventeen digits, a step is less than a unit in the last place,
and less than half of one if the double below is near. -/
theorem Binary.step_lt {b : Binary} {grid : Int} (hb : b.IsDouble)
    (h : 10 ^ 16 * b.step grid ≤ b.interval.value * b.unit grid) :
    b.step grid < (if b.narrow then 2 else 4) * b.unit grid := by
  have hSmall : b.interval.value < 10 ^ 16 * (if b.narrow then 2 else 4) := by
    change 4 * b.significand < _
    split
    · next hNarrow =>
      have := hb.narrow_le hNarrow
      omega
    · have := hb.significand_lt
      omega
  have hProduct : 10 ^ 16 * b.step grid < 10 ^ 16 * ((if b.narrow then 2 else 4) * b.unit grid) :=
    calc 10 ^ 16 * b.step grid
      _ ≤ b.interval.value * b.unit grid := h
      _ < 10 ^ 16 * (if b.narrow then 2 else 4) * b.unit grid :=
        Nat.mul_lt_mul_of_pos_right hSmall (b.unit_pos grid)
      _ = 10 ^ 16 * ((if b.narrow then 2 else 4) * b.unit grid) := Nat.mul_assoc _ _ _
  exact Nat.lt_of_mul_lt_mul_left hProduct

/-- On such a grid one of the value's neighbours rounds to it. -/
theorem Binary.fits_neighbour {b : Binary} {grid : Int} (hb : b.IsDouble)
    (h : 10 ^ 16 * b.step grid ≤ b.interval.value * b.unit grid) :
    b.below grid ≠ 0 ∧ b.fits grid (b.below grid) = true ∨
      b.fits grid (b.below grid + 1) = true := by
  have hUnit := b.unit_pos grid
  have hStep := b.step_lt hb h
  have hNonzero : b.below grid ≠ 0 := by
    have hLarge : 10 ^ 16 ≤ b.below grid := (Nat.le_div_iff_mul_le (b.step_pos grid)).mpr h
    omega
  have hBelow : b.below grid * b.step grid ≤ b.interval.value * b.unit grid :=
    Nat.div_mul_le_self _ _
  have hAbove : b.interval.value * b.unit grid < (b.below grid + 1) * b.step grid := by
    rw [Nat.mul_comm (_ + 1)]
    exact Nat.lt_mul_div_succ _ (b.step_pos grid)
  have hLow : b.interval.low * b.unit grid =
      b.interval.value * b.unit grid - (if b.narrow then 1 else 2) * b.unit grid :=
    Nat.sub_mul _ _ _
  have hHigh : b.interval.high * b.unit grid = b.interval.value * b.unit grid + 2 * b.unit grid :=
    Nat.add_mul _ 2 _
  rw [Nat.add_mul, Nat.one_mul] at hAbove
  by_cases hNear : (b.below grid + 1) * b.step grid < b.interval.high * b.unit grid
  · right
    refine Interval.holds_of_lt ?_ hNear
    rw [Nat.add_mul]
    omega
  · -- the neighbour above is too far away, so the one below is near
    left
    rw [Nat.add_mul, Nat.one_mul, hHigh] at hNear
    refine ⟨hNonzero, Interval.holds_of_lt ?_ (by omega)⟩
    rw [hLow]
    cases hNarrow : b.narrow with
    | false =>
      rw [hNarrow, if_neg Bool.false_ne_true] at hStep
      rw [if_neg Bool.false_ne_true]
      omega
    | true =>
      rw [hNarrow, if_pos rfl] at hStep
      rw [if_pos rfl]
      omega

/-- The grid of the seventeenth digit takes something. -/
theorem Binary.exists_seventeen {b : Binary} (hb : b.IsDouble) (hPos : 0 < b.significand)
    (tie : Tie) : ∃ n, b.onGrid tie (b.leading - 16) = some n := by
  have hTen : (0 : ℚ) < 10 ^ (b.leading - 16) := by positivity
  have hStep : (0 : ℚ) < b.step (b.leading - 16) := by exact_mod_cast b.step_pos _
  have hCast : (10 ^ 16 * b.step (b.leading - 16) : ℚ) ≤
      b.interval.value * b.unit (b.leading - 16) := by
    refine le_of_mul_le_mul_right ?_ hTen
    calc (10 ^ 16 * b.step (b.leading - 16) : ℚ) * 10 ^ (b.leading - 16)
      _ = 10 ^ b.leading * b.step (b.leading - 16) := by
        rw [zpow_sub₀ (by norm_num)]
        norm_num
        ring
      _ ≤ b.value * b.step (b.leading - 16) := mul_le_mul_of_nonneg_right (le_value hPos) hStep.le
      _ = b.interval.value * b.unit (b.leading - 16) * 10 ^ (b.leading - 16) :=
        (b.interval_value_mul _).symm
  exact exists_onGrid tie (fits_neighbour hb (by exact_mod_cast hCast))

/-! ### The search -/

theorem Digits.trim_significand_pos (fuel : Nat) {d : Digits} (h : 0 < d.significand) :
    0 < (trim fuel d).significand := by
  induction fuel generalizing d with
  | zero => exact h
  | succ fuel ih =>
    rw [trim]
    split
    · next hZero =>
      rw [Bool.and_eq_true, beq_iff_eq] at hZero
      exact ih (Nat.div_pos (Nat.le_of_dvd h (Nat.dvd_of_mod_eq_zero hZero.1)) (by decide))
    · exact h

/-- The search ends before its bound if the last of its grids takes something. -/
theorem Binary.search_significand_pos {tie : Tie} {b : Binary} {leading : Int} (fuel count : Nat)
    (h : ∃ n, b.onGrid tie (leading - (count + fuel) + 1) = some n) :
    0 < (b.search tie leading (fuel + 1) count).significand := by
  induction fuel generalizing count with
  | zero =>
    obtain ⟨n, hGrid⟩ := h
    rw [Int.natCast_zero, Int.add_zero] at hGrid
    rw [search, hGrid]
    exact Digits.trim_significand_pos 20 (onGrid_some hGrid).1
  | succ fuel ih =>
    rw [search]
    split
    · next hGrid => exact Digits.trim_significand_pos 20 (onGrid_some hGrid).1
    · have hLast : leading - ((count + 1 : Nat) + fuel) = leading - (count + (fuel + 1 : Nat)) := by
        omega
      exact ih (count + 1) (by rwa [hLast])

theorem Digits.trim_significand_le (fuel : Nat) (d : Digits) :
    (trim fuel d).significand ≤ d.significand := by
  induction fuel generalizing d with
  | zero => exact Nat.le_refl _
  | succ fuel ih =>
    rw [trim]
    split
    · exact Nat.le_trans (ih _) (Nat.div_le_self _ _)
    · exact Nat.le_refl _

/-- Trailing zeros are taken into the exponent. -/
theorem Digits.trim_value (fuel : Nat) (d : Digits) : (trim fuel d).value = d.value := by
  induction fuel generalizing d with
  | zero => rfl
  | succ fuel ih =>
    rw [trim]
    split
    · next hZero =>
      rw [Bool.and_eq_true, beq_iff_eq] at hZero
      have hTenfold : d.significand / 10 * 10 = d.significand :=
        Nat.div_mul_cancel (Nat.dvd_of_mod_eq_zero hZero.1)
      have hCast : ((d.significand / 10 : Nat) : ℚ) * 10 = d.significand := by
        exact_mod_cast hTenfold
      rw [ih, value, value, zpow_add₀ (by norm_num), zpow_one, ← hCast]
      ring
    · rfl

/-- A decimal that has at most seventeen digits and lies no more than half a unit in the last place
above a magnitude. -/
structure Digits.Near (b : Binary) (d : Digits) : Prop where
  significand_le : d.significand ≤ 10 ^ 17
  value_le : d.value ≤ (4 * b.significand + 2) * 2 ^ (b.exponent - 2)

theorem Digits.near_zero (b : Binary) (e : Int) : Near b ⟨0, e⟩ where
  significand_le := Nat.zero_le _
  value_le := by
    rw [value, Nat.cast_zero, zero_mul]
    positivity

theorem Binary.near_search {tie : Tie} {b : Binary} {leading : Int}
    (hBound : b.value < 10 ^ (leading + 1)) (fuel count : Nat) (hCount : count + fuel ≤ 18) :
    (b.search tie leading fuel count).Near b := by
  induction fuel generalizing count with
  | zero => exact Digits.near_zero b _
  | succ fuel ih =>
    rw [search]
    split
    · next n hGrid =>
      have hGridBound : b.value < 10 ^ (leading - count + 1 + count) := by
        rwa [show leading - count + 1 + count = leading + 1 by omega]
      refine ⟨?_, ?_⟩
      · calc (Digits.trim 20 ⟨n, leading - count + 1⟩).significand
          _ ≤ n := Digits.trim_significand_le 20 _
          _ ≤ 10 ^ count := le_of_onGrid hGrid hGridBound
          _ ≤ 10 ^ 17 := Nat.pow_le_pow_right (by decide) (by omega)
      · rw [Digits.trim_value]
        exact value_le_of_onGrid hGrid
    · exact ih (count + 1) (by omega)

/-- The shortest decimal of a magnitude is near it. -/
theorem Binary.near_shortest (tie : Tie) (b : Binary) : (b.shortest tie).Near b := by
  rcases Nat.eq_zero_or_pos b.significand with hZero | hPos
  · rw [shortest, if_pos (by simpa using hZero)]
    exact Digits.near_zero b 0
  · rw [shortest_of_pos hPos]
    exact near_search (value_lt hPos) 17 1 (by decide)

/-- It is not zero unless the magnitude is. -/
theorem Binary.shortest_significand_pos (tie : Tie) {b : Binary} (hb : b.IsDouble)
    (hPos : 0 < b.significand) : 0 < (b.shortest tie).significand := by
  rw [shortest_of_pos hPos]
  refine search_significand_pos 16 1 ?_
  rw [show b.leading - ((1 : Nat) + (16 : Nat)) + 1 = b.leading - 16 by omega]
  exact exists_seventeen hb hPos tie

theorem Binary.shortest_exponent {tie : Tie} {b : Binary} (hb : b.IsDouble)
    (h : (b.shortest tie).significand = 0) : (b.shortest tie).exponent = 0 := by
  rcases Nat.eq_zero_or_pos b.significand with hZero | hPos
  · rw [shortest, if_pos (by simpa using hZero)]
  · exact absurd h (shortest_significand_pos tie hb hPos).ne'

end QueryTree.Decimal
