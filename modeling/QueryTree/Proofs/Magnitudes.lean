import Mathlib.Algebra.Order.Field.Power
import Mathlib.Tactic.FieldSimp
import Mathlib.Tactic.Linarith
import Mathlib.Tactic.NormNum
import Mathlib.Tactic.Positivity
import Mathlib.Tactic.Ring
import QueryTree.Proofs.Doubles

/-! How large a decimal may be to be read as a double.  Rounding keeps a number below every bound on
the grid that it is rounded to; so a product overflows only if it exceeds the greatest double, and
`Decimal.scaled` gives a double for all decimals of seventeen digits up to the middle between the
two greatest doubles. -/

namespace QueryTree.Double

open Float.Model (Format UnpackedFloat totalExponent)
open Float.Model.UnpackedFloat

/-- The magnitude of a finite number; nothing else has one. -/
def magnitude : UnpackedFloat → ℚ
  | .finite _ m e _ => m * 2 ^ e
  | .zero _ | .infinity _ | .notANumber => 0

@[simp] theorem magnitude_finite (s : Sign) {m : Nat} (e : Int) (hm : 0 < m) :
    magnitude (.finite s m e hm) = m * 2 ^ e := rfl

@[simp] theorem magnitude_zero (s : Sign) : magnitude (.zero s) = 0 := rfl

theorem magnitude_nonneg (u : UnpackedFloat) : 0 ≤ magnitude u := by
  cases u with
  | finite s m e =>
    rw [magnitude_finite]
    positivity
  | zero | infinity | notANumber => exact le_refl _

theorem magnitude_of_isFinite_eq_false {u : UnpackedFloat} (h : u.isFinite = false) :
    magnitude u = 0 := by
  cases u with
  | zero | finite => cases h
  | infinity | notANumber => rfl

/-! ### Rounding -/

/-- Bits that are all zero leave no trace when they are dropped. -/
theorem shift_multiple (u n : Nat) :
    ExtendedMantissa.ofMantissaAndAccuracy (u * 2 ^ n) .exact >>> n = ⟨u, false, false⟩ := by
  show n.repeat ExtendedMantissa.shiftRightOne ⟨u * 2 ^ n, false, false⟩ = _
  induction n generalizing u with
  | zero => simp [Nat.repeat]
  | succ n ih =>
    have hTwice : u * 2 ^ (n + 1) = 2 * u * 2 ^ n := by ring
    rw [Nat.repeat, hTwice, ih]
    simp [ExtendedMantissa.shiftRightOne]

/-- Rounding does not go beyond a bound that needs no rounding. -/
theorem roundedMantissa_le {m u n : Nat} (h : m ≤ u * 2 ^ n) :
    (ExtendedMantissa.ofMantissaAndAccuracy m .exact >>> n).roundedMantissa ≤ u := by
  rcases Nat.eq_or_lt_of_le h with rfl | hLess
  · rw [shift_multiple]
    exact Nat.le_refl u
  · have hUp := (roundedMantissa_mem (ExtendedMantissa.ofMantissaAndAccuracy m .exact >>> n)).2
    rw [mantissa_shift, mantissa_ofMantissaAndAccuracy] at hUp
    have hDown : m / 2 ^ n < u := (Nat.div_lt_iff_lt_mul (Nat.two_pow_pos n)).mpr hLess
    omega

/-- The exponent that a number with 53 bits has, or the least one. -/
def gridExponent (m : Nat) (e : Int) : Int := max (m.log2 + 1 + e - 53) (-1074)

theorem shiftToTargetExponent_eq (m : Nat) (e : Int) (a : Accuracy) :
    shiftToTargetExponent .binary64 m e a =
      (ExtendedMantissa.ofMantissaAndAccuracy m a >>> (gridExponent m e - e).toNat,
        max e (gridExponent m e)) := by
  refine Prod.ext ?_ ?_
  · rfl
  · exact exponent_shiftToTargetExponent a m e

/-- Dropping bits makes a number no larger. -/
theorem magnitude_shift_le (m : Nat) (e : Int) :
    (((shiftToTargetExponent .binary64 m e .exact).1.mantissa : Nat) : ℚ) *
      2 ^ (shiftToTargetExponent .binary64 m e .exact).2 ≤ m * 2 ^ e := by
  rw [shiftToTargetExponent_eq, mantissa_shift, mantissa_ofMantissaAndAccuracy]
  simp only
  generalize hn : (gridExponent m e - e).toNat = n
  have hExponent : max e (gridExponent m e) = e + n := by omega
  have hFloor : ((m / 2 ^ n : Nat) : ℚ) * 2 ^ n ≤ m := by
    exact_mod_cast Nat.div_mul_le_self m (2 ^ n)
  rw [hExponent, zpow_add₀ (by norm_num), zpow_natCast]
  calc ((m / 2 ^ n : Nat) : ℚ) * (2 ^ e * 2 ^ n)
    _ = ((m / 2 ^ n : Nat) : ℚ) * 2 ^ n * 2 ^ e := by ring
    _ ≤ m * 2 ^ e := mul_le_mul_of_nonneg_right hFloor (by positivity)

/-! ### Bits -/

/-- What the bits of a double stand for, if it is subnormal. -/
theorem magnitude_unpack_of_zero {b : BitVec 64} (h : @unpackExponent .binary64 b = 0#11) :
    magnitude (unpack .binary64 b) ≤ (@unpackMantissa .binary64 b).toNat * 2 ^ (-1074 : Int) := by
  have hMeaning := meaning_unpack b
  generalize unpack .binary64 b = u at hMeaning
  cases hMeaning with
  | special _ hu =>
    rw [magnitude_of_isFinite_eq_false hu]
    positivity
  | zero =>
    rw [magnitude_zero]
    positivity
  | subnormal => exact le_refl _
  | normal _ hZero => exact absurd h hZero

/-- What the bits of a double stand for, if it is normal. -/
theorem magnitude_unpack_of_ne_zero {b : BitVec 64} (h : @unpackExponent .binary64 b ≠ 0#11) :
    magnitude (unpack .binary64 b) ≤ (1#1 ++ @unpackMantissa .binary64 b).toNat *
      2 ^ ((@unpackExponent .binary64 b).toNat - 1075 : Int) := by
  have hMeaning := meaning_unpack b
  generalize unpack .binary64 b = u at hMeaning
  cases hMeaning with
  | special _ hu =>
    rw [magnitude_of_isFinite_eq_false hu]
    positivity
  | zero hZero | subnormal hZero => exact absurd hZero h
  | normal => exact le_refl _

section Rounding

variable {m u : Nat} {e : Int} (s : Sign)

/-- A number that is rounded stays below every bound on its grid. -/
theorem magnitude_roundWithAccuracy_le (h : m ≤ u * 2 ^ (gridExponent m e - e).toNat) :
    magnitude (roundWithAccuracy .binary64 s m e .exact) ≤ u * 2 ^ max e (gridExponent m e) := by
  have hRounded := roundedMantissa_le h
  rcases roundWithAccuracy_cases s .exact (shiftToTargetExponent_eq m e .exact) with
    hZero | ⟨_, hRound⟩
  · rw [hZero, magnitude_zero]
    positivity
  · rw [hRound]
    refine (magnitude_shift_le _ _).trans ?_
    exact mul_le_mul_of_nonneg_right (by exact_mod_cast hRounded) (by positivity)

theorem toNat_implicitBit (h : m.log2 = 52) : (1#1 ++ BitVec.ofNat 52 m).toNat ≤ m := by
  have hHigh : m < 2 ^ 53 := (Nat.log2_lt (by rintro rfl; cases h)).mp (by omega)
  have hLow : 2 ^ 52 ≤ m := (Nat.le_log2 (by rintro rfl; cases h)).mp (by omega)
  have hAppend : (1#1 ++ BitVec.ofNat 52 m).toNat = 2 ^ 52 + m % 2 ^ 52 := by
    rw [BitVec.toNat_append, BitVec.toNat_ofNat, Nat.shiftLeft_eq]
    exact (Nat.two_pow_add_eq_or_of_lt (Nat.mod_lt _ (Nat.two_pow_pos 52)) 1).symm
  omega

/-- Packing makes no number larger. -/
theorem magnitude_unpack_pack_le (hm : 0 < m) (he : -1074 ≤ e) :
    magnitude (unpack .binary64 (pack .binary64 (.finite s m e hm))) ≤ m * 2 ^ e := by
  by_cases hHigh : e ≤ 971
  · have hBits := toNat_exponentBits (e := e) (by omega) hHigh
    rw [pack_finite hm hHigh]
    split
    · next hNormal =>
      have hNonzero : BitVec.ofNat 11 (e + 1075).toNat ≠ 0#11 := by
        intro hZero
        rw [hZero, BitVec.toNat_zero] at hBits
        omega
      refine (magnitude_unpack_of_ne_zero ?_).trans ?_
      · rwa [unpackExponent_packComponents]
      · rw [unpackExponent_packComponents, unpackMantissa_packComponents, hBits,
          add_sub_cancel_right]
        exact mul_le_mul_of_nonneg_right (by exact_mod_cast toNat_implicitBit (by omega))
          (by positivity)
    · -- a subnormal number has the least exponent
      refine (magnitude_unpack_of_zero unpackExponent_packComponents).trans ?_
      rw [unpackMantissa_packComponents, BitVec.toNat_ofNat]
      exact mul_le_mul (by exact_mod_cast Nat.mod_le _ _) (zpow_le_zpow_right₀ (by norm_num) he)
        (by positivity) (by positivity)
  · have hInfinite : unpack .binary64 (packedInfinity .binary64 s) = .infinity s := by
      cases s <;> rfl
    rw [pack_infinity hm (by omega), hInfinite,
      magnitude_of_isFinite_eq_false rfl]
    positivity

/-- A number that is rounded and packed stays below every bound on its grid. -/
theorem magnitude_packed_le (h : m ≤ u * 2 ^ (gridExponent m e - e).toNat) :
    magnitude (unpack .binary64 (pack .binary64 (roundWithAccuracy .binary64 s m e .exact))) ≤
      u * 2 ^ max e (gridExponent m e) := by
  have hBound := magnitude_roundWithAccuracy_le s h
  rcases roundWithAccuracy_cases s .exact (shiftToTargetExponent_eq m e .exact) with
    hNone | ⟨_, hRound⟩
  · have hZero : unpack .binary64 (pack .binary64 (.zero s)) = .zero s := by cases s <;> rfl
    rw [hNone, hZero, magnitude_zero]
    positivity
  · rw [hRound] at hBound ⊢
    refine (magnitude_unpack_pack_le s _ ?_).trans hBound
    rw [exponent_shiftToTargetExponent]
    omega

end Rounding

/-! ### Words -/

section Words

variable {m bound k : Nat} (s : Sign)

/-- With at most 53 bits all are kept. -/
theorem magnitude_round_of_narrow (h : m.log2 < 53) :
    magnitude (unpack .binary64 (pack .binary64 (UnpackedFloat.round .binary64 s m 0))) ≤ m := by
  rw [UnpackedFloat.round]
  simp only [decreaseExponent, targetExponent_eq, totalExponent]
  generalize hShift : (0 - max ((m.log2 : Int) + 1 + 0 - 53) (-1074)).toNat = shift
  have hLog := log2_shiftLeft_le m shift
  have hGrid : gridExponent (m <<< shift) (0 - shift) ≤ 0 - shift := by
    unfold gridExponent
    omega
  have hKept : m <<< shift ≤
      m <<< shift * 2 ^ (gridExponent (m <<< shift) (0 - shift) - (0 - shift)).toNat := by
    rw [Int.toNat_of_nonpos (by omega), Nat.pow_zero, Nat.mul_one]
  have hExact : ((m <<< shift : Nat) : ℚ) * 2 ^ (0 - shift : Int) = m := by
    rw [Nat.shiftLeft_eq, zero_sub, zpow_neg, zpow_natCast]
    push_cast
    field_simp
  have hPacked := magnitude_packed_le s hKept
  rwa [max_eq_left hGrid, hExact] at hPacked

/-- With more bits some are dropped, but not beyond a bound that has none of them. -/
theorem magnitude_round_of_wide (h : 53 ≤ m.log2) (hBound : m ≤ bound) (hGrid : 2 ^ k ∣ bound)
    (hWide : m < 2 ^ (53 + k)) :
    magnitude (unpack .binary64 (pack .binary64 (UnpackedFloat.round .binary64 s m 0))) ≤
      bound := by
  have hLog : m.log2 < 53 + k := log2_lt_of_lt (by omega) hWide
  obtain ⟨u, rfl⟩ : 2 ^ (m.log2 - 52) ∣ bound :=
    Nat.dvd_trans (Nat.pow_dvd_pow 2 (by omega)) hGrid
  have hShift : (0 - max ((m.log2 : Int) + 1 + 0 - 53) (-1074)).toNat = 0 := by omega
  have hExponent : gridExponent m 0 = (m.log2 - 52 : Nat) := by
    unfold gridExponent
    omega
  have hKept : m ≤ u * 2 ^ (gridExponent m 0 - 0).toNat := by
    rw [hExponent, sub_zero, Int.toNat_natCast, Nat.mul_comm]
    exact hBound
  have hPacked := magnitude_packed_le s hKept
  rw [hExponent, max_eq_right (by omega), zpow_natCast] at hPacked
  rw [UnpackedFloat.round]
  simp only [decreaseExponent, targetExponent_eq, totalExponent, hShift, Nat.shiftLeft_zero,
    Nat.cast_zero, sub_zero]
  refine hPacked.trans (le_of_eq ?_)
  push_cast
  ring

end Words

/-- A word is rounded to a double below every bound that 53 bits hold. -/
theorem magnitude_toFloat_le {n : UInt64} {bound k : Nat} (hBound : n.toNat ≤ bound)
    (hGrid : 2 ^ k ∣ bound) (hWide : n.toNat < 2 ^ (53 + k)) :
    magnitude n.toFloat.toModel.unpack ≤ bound := by
  show magnitude (unpack .binary64 (pack .binary64
    (UnpackedFloat.normalize .binary64 (n.toNat : Int) 0 .positive))) ≤ bound
  rw [UnpackedFloat.normalize]
  split
  · next h =>
    have := Int.compare_eq_lt.mp h
    omega
  · have hZero : unpack .binary64 (pack .binary64 (.zero .positive)) = .zero .positive := rfl
    rw [hZero, magnitude_zero]
    positivity
  · rw [Int.toNat_natCast]
    rcases Nat.lt_or_ge n.toNat.log2 53 with hNarrow | hLong
    · exact (magnitude_round_of_narrow .positive hNarrow).trans (by exact_mod_cast hBound)
    · exact magnitude_round_of_wide .positive hLong hBound hGrid hWide

/-! ### Products -/

/-- The greatest double. -/
def greatest : ℚ := (2 ^ 53 - 1) * 2 ^ (971 : Int)

/-- What does not exceed the greatest double is not rounded beyond it. -/
theorem bounded_roundWithAccuracy_of_le {m : Nat} {e : Int} (s : Sign) (he : e ≤ 971)
    (h : (m : ℚ) * 2 ^ e ≤ greatest) : Bounded 971 (roundWithAccuracy .binary64 s m e .exact) := by
  have hScaled : m ≤ (2 ^ 53 - 1) * 2 ^ (971 - e).toNat := by
    have hPower : (2 : ℚ) ^ (971 : Int) = 2 ^ (971 - e).toNat * 2 ^ e := by
      rw [← zpow_natCast, ← zpow_add₀ (by norm_num), Int.toNat_of_nonneg (by omega),
        sub_add_cancel]
    have hCast : (m : ℚ) ≤ (2 ^ 53 - 1) * 2 ^ (971 - e).toNat := by
      refine le_of_mul_le_mul_right ?_ (show (0 : ℚ) < 2 ^ e by positivity)
      rw [mul_assoc, ← hPower]
      exact h
    have hCast' : (m : ℚ) ≤ ((2 ^ 53 - 1) * 2 ^ (971 - e).toNat : Nat) := by
      rw [Nat.cast_mul, Nat.cast_sub (by decide)]
      push_cast
      exact hCast
    exact_mod_cast hCast'
  have hLog : m.log2 < 53 + (971 - e).toNat := by
    refine log2_lt_of_lt (by omega) (Nat.lt_of_le_of_lt hScaled ?_)
    rw [Nat.pow_add]
    exact Nat.mul_lt_mul_of_pos_right (by decide) (Nat.two_pow_pos _)
  by_cases hRoom : max e (gridExponent m e) ≤ 970
  · have hParts := max_le_iff.mp hRoom
    unfold gridExponent at hParts
    exact bounded_roundWithAccuracy (k := 970) s .exact (by decide) hParts.1 (by omega)
  · -- at the top of the range nothing is carried over
    have hTop : max e (gridExponent m e) = 971 := by
      unfold gridExponent at hRoom ⊢
      omega
    have hShift : (gridExponent m e - e).toNat = (971 - e).toNat := by omega
    have hRounded := roundedMantissa_le hScaled
    rw [← hShift] at hRounded
    rcases roundWithAccuracy_cases s .exact (shiftToTargetExponent_eq m e .exact) with
      hZero | ⟨_, hRound⟩
    · rw [hZero]
      trivial
    · rw [hRound, bounded_finite, exponent_shiftToTargetExponent, hTop]
      have := log2_lt_of_lt (n := 53) (by decide) (Nat.lt_of_le_of_lt hRounded (by decide))
      omega

/-- The mantissa of a double has 53 bits, or its exponent is the least one. -/
theorem mantissa_normal {b : BitVec 64} {s : Sign} {m : Nat} {e : Int} {hm : 0 < m}
    (h : unpack .binary64 b = .finite s m e hm) : 2 ^ 52 ≤ m ∨ e = -1074 := by
  have hMeaning := meaning_unpack b
  rw [h] at hMeaning
  cases hMeaning with
  | special _ hu => cases hu
  | subnormal => exact .inr rfl
  | normal =>
    left
    rw [BitVec.toNat_append]
    exact Nat.left_le_or

theorem isInf_of_isFinite {u : UnpackedFloat} (h : u.isFinite = true) : u.isInf = false := by
  cases u with
  | zero | finite => rfl
  | infinity | notANumber => cases h

/-- The exponents of two doubles whose product does not exceed the greatest one are not too large
for it. -/
theorem add_exponents_le {x y : BitVec 64} {s₁ s₂ : Sign} {m₁ m₂ : Nat} {e₁ e₂ : Int}
    {hm₁ : 0 < m₁} {hm₂ : 0 < m₂} (hx : unpack .binary64 x = .finite s₁ m₁ e₁ hm₁)
    (hy : unpack .binary64 y = .finite s₂ m₂ e₂ hm₂)
    (h : ((m₁ * m₂ : Nat) : ℚ) * 2 ^ (e₁ + e₂) ≤ greatest) : e₁ + e₂ ≤ 971 := by
  have he₁ : e₁ ≤ 971 := by
    have hBounded := bounded_of_isFinite (show (unpack .binary64 x).isFinite = true by rw [hx]; rfl)
    rwa [hx] at hBounded
  have he₂ : e₂ ≤ 971 := by
    have hBounded := bounded_of_isFinite (show (unpack .binary64 y).isFinite = true by rw [hy]; rfl)
    rwa [hy] at hBounded
  rcases mantissa_normal hx with hNormal₁ | rfl
  · rcases mantissa_normal hy with hNormal₂ | rfl
    · by_contra hLarge
      have hMantissa : (2 : ℚ) ^ 104 ≤ (m₁ * m₂ : Nat) := by
        exact_mod_cast (show 2 ^ 104 = 2 ^ 52 * 2 ^ 52 by norm_num) ▸
          Nat.mul_le_mul hNormal₁ hNormal₂
      have hPower : (2 : ℚ) ^ (971 : Int) ≤ 2 ^ (e₁ + e₂) :=
        zpow_le_zpow_right₀ (by norm_num) (by omega)
      have hProduct : (2 : ℚ) ^ 104 * 2 ^ (971 : Int) ≤ greatest :=
        (mul_le_mul hMantissa hPower (by positivity) (by positivity)).trans h
      have hStrict : greatest < (2 : ℚ) ^ 104 * 2 ^ (971 : Int) :=
        mul_lt_mul_of_pos_right (by norm_num) (by positivity)
      exact absurd hProduct (not_le_of_gt hStrict)
    · omega
  · omega

/-- A product that does not exceed the greatest double is finite. -/
theorem isInf_mul_of_le {x y : Float} (hx : x.isFinite = true) (hy : y.isFinite = true)
    (h : magnitude x.toModel.unpack * magnitude y.toModel.unpack ≤ greatest) :
    (x * y).isInf = false := by
  replace hx : x.toModel.unpack.isFinite = true := hx
  replace hy : y.toModel.unpack.isFinite = true := hy
  have hBounded : Bounded 971 (UnpackedFloat.mul .binary64 x.toModel.unpack y.toModel.unpack) := by
    cases hX : x.toModel.unpack with
    | infinity | notANumber =>
      rw [hX] at hx
      cases hx
    | zero s =>
      cases hY : y.toModel.unpack with
      | infinity | notANumber =>
        rw [hY] at hy
        cases hy
      | zero | finite => trivial
    | finite s₁ m₁ e₁ hm₁ =>
      cases hY : y.toModel.unpack with
      | infinity | notANumber =>
        rw [hY] at hy
        cases hy
      | zero => trivial
      | finite s₂ m₂ e₂ hm₂ =>
        have hProduct : ((m₁ * m₂ : Nat) : ℚ) * 2 ^ (e₁ + e₂) ≤ greatest := by
          rw [hX, hY, magnitude_finite, magnitude_finite] at h
          rw [zpow_add₀ (by norm_num), Nat.cast_mul, mul_mul_mul_comm]
          exact h
        exact bounded_roundWithAccuracy_of_le _ (add_exponents_le hX hY hProduct) hProduct
  exact isInf_of_isFinite (bounded_unpack_pack (by decide) (by decide) hBounded).isFinite

/-! ### Decimals -/

open Decimal (powerOfTen scaled)

instance (k : Int) : DecidablePred (Bounded k)
  | .finite _ _ e _ => inferInstanceAs (Decidable (e ≤ k))
  | .zero _ => inferInstanceAs (Decidable True)
  | .infinity _ | .notANumber => inferInstanceAs (Decidable False)

theorem bounded_powerOfTen {n : Nat} (h : n ≤ 290) : Bounded 912 (powerOfTen n).toModel.unpack := by
  by_cases hExact : n ≤ 22
  · have hTable : ∀ i ≤ 22, Bounded 912 (powerOfTen i).toModel.unpack := by decide +kernel
    exact hTable n hExact
  · have hPower : 10 ^ n < 2 ^ 964 := by
      calc 10 ^ n
        _ ≤ 10 ^ 290 := Nat.pow_le_pow_right (by decide) h
        _ < 2 ^ 964 := by decide +kernel
    have hLog : (1 <<< 53 * 10 ^ n).log2 < 1017 := log2_lt_of_lt (by decide) (by omega)
    rw [powerOfTen_eq (by omega) (by omega)]
    refine bounded_unpack_pack (by decide) (by decide) ?_
    exact bounded_roundWithAccuracy (k := 911) .positive .exact (by decide) (by decide) (by omega)

theorem magnitude_lt_of_bounded {b : BitVec 64} {k : Int} (h : Bounded k (unpack .binary64 b)) :
    magnitude (unpack .binary64 b) < 2 ^ 53 * 2 ^ k := by
  cases hb : unpack .binary64 b with
  | finite s m e hm =>
    rw [hb] at h
    have hMantissa : (m : ℚ) < 2 ^ 53 := by exact_mod_cast mantissa_lt hb
    have hPower : (2 : ℚ) ^ e ≤ 2 ^ k := zpow_le_zpow_right₀ (by norm_num) h
    exact mul_lt_mul hMantissa hPower (by positivity) (by positivity)
  | zero | infinity | notANumber =>
    show (0 : ℚ) < _
    positivity

/-- The largest significand of seventeen digits that stays below the middle between the two greatest
doubles when it is multiplied with `10^n`. -/
def largestSignificand (n : Nat) : Nat := min (10 ^ 17) ((2 ^ 54 - 3) * 2 ^ 970 / 10 ^ n)

theorem largestSignificand_of_le {n : Nat} (h : n ≤ 290) : largestSignificand n = 10 ^ 17 := by
  refine Nat.min_eq_left ((Nat.le_div_iff_mul_le (Nat.pow_pos (by decide))).mpr ?_)
  calc 10 ^ 17 * 10 ^ n
    _ ≤ 10 ^ 17 * 10 ^ 290 := Nat.mul_le_mul_left _ (Nat.pow_le_pow_right (by decide) h)
    _ ≤ (2 ^ 54 - 3) * 2 ^ 970 := by decide +kernel

/-- The largest significands are themselves doubles. -/
theorem exists_grid_largestSignificand {n : Nat} (h : n ≤ 308) :
    ∃ k, 2 ^ k ∣ largestSignificand n ∧ largestSignificand n < 2 ^ (53 + k) := by
  rcases Nat.lt_or_ge n 291 with hSmall | hLarge
  · rw [largestSignificand_of_le (by omega)]
    exact ⟨4, by decide, by decide⟩
  · have hTable : ∀ i < 18, ∃ k < 5, 2 ^ k ∣ largestSignificand (291 + i) ∧
        largestSignificand (291 + i) < 2 ^ (53 + k) := by decide +kernel
    obtain ⟨k, -, hGrid⟩ := hTable (n - 291) (by omega)
    rw [Nat.add_sub_cancel' hLarge] at hGrid
    exact ⟨k, hGrid⟩

/-- Whether a number takes a bound no further than the greatest double. -/
def Scales (bound : Nat) : UnpackedFloat → Prop
  | .finite _ m e _ => 0 ≤ e ∧ bound * (m * 2 ^ e.toNat) ≤ (2 ^ 53 - 1) * 2 ^ 971
  | .zero _ | .infinity _ | .notANumber => False

instance (bound : Nat) : DecidablePred (Scales bound)
  | .finite _ _ _ _ => inferInstanceAs (Decidable (_ ∧ _))
  | .zero _ | .infinity _ | .notANumber => inferInstanceAs (Decidable False)

theorem Scales.mul_magnitude_le {bound : Nat} {u : UnpackedFloat} (h : Scales bound u) :
    bound * magnitude u ≤ greatest := by
  cases u with
  | zero | infinity | notANumber => cases h
  | finite s m e hm =>
    obtain ⟨hNonneg, hLe⟩ := h
    obtain ⟨n, rfl⟩ := Int.eq_ofNat_of_zero_le hNonneg
    have hCast : ((bound * (m * 2 ^ n) : Nat) : ℚ) ≤ ((2 ^ 53 - 1) * 2 ^ 971 : Nat) :=
      Nat.cast_le.mpr hLe
    rw [Nat.cast_mul, Nat.cast_mul, Nat.cast_mul, Nat.cast_sub (by decide), Nat.cast_pow,
      Nat.cast_pow, Nat.cast_pow, Nat.cast_ofNat, Nat.cast_one, ← zpow_natCast 2 n,
      ← zpow_natCast 2 971] at hCast
    exact hCast

/-- No decimal up to the largest significand is scaled beyond the greatest double. -/
theorem largestSignificand_mul_le {n : Nat} (h : n ≤ 308) :
    largestSignificand n * magnitude (powerOfTen n).toModel.unpack ≤ greatest := by
  rcases Nat.lt_or_ge n 291 with hSmall | hLarge
  · have hPower : magnitude (powerOfTen n).toModel.unpack < 2 ^ 53 * 2 ^ (912 : Int) :=
      magnitude_lt_of_bounded (bounded_powerOfTen (by omega))
    rw [largestSignificand_of_le (by omega), greatest]
    calc ((10 ^ 17 : Nat) : ℚ) * magnitude (powerOfTen n).toModel.unpack
      _ ≤ 2 ^ 57 * (2 ^ 53 * 2 ^ (912 : Int)) :=
        mul_le_mul (by norm_num) hPower.le (magnitude_nonneg _) (by positivity)
      _ = 2 ^ 51 * 2 ^ (971 : Int) := by
        rw [show (971 : Int) = 59 + 912 from rfl, zpow_add₀ (by norm_num)]
        generalize (2 : ℚ) ^ (912 : Int) = p
        norm_num
        ring
      _ ≤ (2 ^ 53 - 1) * 2 ^ (971 : Int) := mul_le_mul_of_nonneg_right (by norm_num) (by positivity)
  · have hTable : ∀ i < 18, Scales (largestSignificand (291 + i))
        (powerOfTen (291 + i)).toModel.unpack := by decide +kernel
    have hScales := hTable (n - 291) (by omega)
    rw [Nat.add_sub_cancel' hLarge] at hScales
    exact hScales.mul_magnitude_le

/-- Quotients are never out of range. -/
theorem isSome_scaled_of_neg (significand : UInt64) {exponent : Int} (h : exponent < 0) :
    (scaled significand exponent).isSome = true := by
  rw [scaled, if_neg (by omega)]
  simp only
  split
  · rfl
  split <;> rfl

section Scaling

variable {significand n : Nat} (hDigits : significand ≤ 10 ^ 17)

theorem le_of_mul_ten_pow_le (hPos : 0 < significand)
    (h : significand * 10 ^ n ≤ (2 ^ 54 - 3) * 2 ^ 970) : n ≤ 308 := by
  -- with a variable in its place the power is not written out
  obtain ⟨top, hTop⟩ : ∃ top, top = 309 := ⟨309, rfl⟩
  have hBound : (2 ^ 54 - 3) * 2 ^ 970 < 10 ^ top := by
    subst hTop
    decide +kernel
  have hLess : 10 ^ n < 10 ^ top :=
    calc 10 ^ n
      _ ≤ significand * 10 ^ n := Nat.le_mul_of_pos_left _ hPos
      _ ≤ (2 ^ 54 - 3) * 2 ^ 970 := h
      _ < 10 ^ top := hBound
  have := (Nat.pow_lt_pow_iff_right (by decide)).mp hLess
  omega

include hDigits

theorem toNat_significand : significand.toUInt64.toNat = significand :=
  UInt64.toNat_ofNat_of_lt' (Nat.lt_of_le_of_lt hDigits (by decide))

theorem isInf_mul_powerOfTen (hPower : n ≤ 308)
    (h : significand * 10 ^ n ≤ (2 ^ 54 - 3) * 2 ^ 970) :
    (significand.toUInt64.toFloat * powerOfTen n).isInf = false := by
  have hLe : significand.toUInt64.toNat ≤ largestSignificand n := by
    rw [toNat_significand hDigits]
    exact Nat.le_min.mpr ⟨hDigits, (Nat.le_div_iff_mul_le (Nat.pow_pos (by decide))).mpr h⟩
  obtain ⟨k, hGrid, hWide⟩ := exists_grid_largestSignificand hPower
  have hSignificand : magnitude significand.toUInt64.toFloat.toModel.unpack ≤
      largestSignificand n := magnitude_toFloat_le hLe hGrid (Nat.lt_of_le_of_lt hLe hWide)
  refine isInf_mul_of_le (below_toFloat _).isFinite (atLeastOne_powerOfTen hPower).isFinite ?_
  exact (mul_le_mul_of_nonneg_right hSignificand (magnitude_nonneg _)).trans
    (largestSignificand_mul_le hPower)

/-- A decimal of seventeen digits is scaled to a double if it does not lie above the middle between
the two greatest doubles. -/
theorem isSome_scaled {exponent : Int}
    (h : (significand : ℚ) * 10 ^ exponent ≤ ((2 ^ 54 - 3) * 2 ^ 970 : Nat)) :
    (scaled significand.toUInt64 exponent).isSome = true := by
  rcases Int.lt_or_le exponent 0 with hNeg | hNonneg
  · exact isSome_scaled_of_neg _ hNeg
  · obtain ⟨n, rfl⟩ := Int.eq_ofNat_of_zero_le hNonneg
    have hNat : significand * 10 ^ n ≤ (2 ^ 54 - 3) * 2 ^ 970 := by
      rw [zpow_natCast] at h
      exact_mod_cast h
    rw [scaled, if_pos hNonneg]
    simp only
    split
    · rfl
    · next hNonzero =>
      have hPos : 0 < significand := by
        rcases Nat.eq_zero_or_pos significand with rfl | hPos
        · exact absurd rfl hNonzero
        · exact hPos
      have hPower := le_of_mul_ten_pow_le hPos hNat
      rw [if_neg (by omega), Int.toNat_natCast, isInf_mul_powerOfTen hDigits hPower hNat]
      rfl

end Scaling

end QueryTree.Double
