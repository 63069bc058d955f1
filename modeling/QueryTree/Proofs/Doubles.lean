import Mathlib.Algebra.Ring.Nat
import QueryTree.Decimal.Read

/-! Doubles stay finite while decimal text is turned into them.  A rounded mantissa has at most 53
bits, so that the exponent of a result tells how large it can be (`Bounded`): conversion from a
64-bit word gives a small exponent, division by a power of ten raises it by one at most, and packing
keeps every exponent up to 971.  Hence `Decimal.scaled` gives finite doubles only. -/

namespace QueryTree.Double

open Float.Model (Format UnpackedFloat totalExponent)
open Float.Model.UnpackedFloat

/-! ### Logarithms -/

theorem log2_lt_of_lt {m n : Nat} (hn : 0 < n) (h : m < 2 ^ n) : m.log2 < n := by
  by_cases hZero : m = 0
  · rwa [hZero, Nat.log2_zero]
  · exact (Nat.log2_lt hZero).mpr h

theorem log2_shiftLeft_le (m n : Nat) : (m <<< n).log2 ≤ m.log2 + n := by
  have hm : m < 2 ^ (m.log2 + 1) := Nat.lt_log2_self
  have hShifted : m <<< n < 2 ^ (m.log2 + 1 + n) := by
    rw [Nat.shiftLeft_eq, Nat.pow_add]
    exact Nat.mul_lt_mul_of_pos_right hm (Nat.two_pow_pos n)
  have := log2_lt_of_lt (by omega) hShifted
  omega

theorem log2_div_add_le {m d : Nat} (h : m / d ≠ 0) : (m / d).log2 + d.log2 ≤ m.log2 := by
  have hd : d ≠ 0 := by
    rintro rfl
    exact h (Nat.div_zero m)
  have hm : m ≠ 0 := by
    rintro rfl
    exact h (Nat.zero_div d)
  refine (Nat.le_log2 hm).mpr ?_
  calc 2 ^ ((m / d).log2 + d.log2)
    _ = 2 ^ (m / d).log2 * 2 ^ d.log2 := Nat.pow_add 2 _ _
    _ ≤ m / d * d := Nat.mul_le_mul (Nat.log2_self_le h) (Nat.log2_self_le hd)
    _ ≤ m := Nat.div_mul_le_self m d

/-! ### Bits -/

/-- Finite, and the last place counts `2^k` at most. -/
def Bounded (k : Int) : UnpackedFloat → Prop
  | .zero _ => True
  | .finite _ _ e _ => e ≤ k
  | .infinity _ | .notANumber => False

theorem bounded_finite {k e : Int} {s : Sign} {m : Nat} {hm : 0 < m} :
    Bounded k (.finite s m e hm) ↔ e ≤ k := Iff.rfl

theorem Bounded.isFinite {k : Int} {u : UnpackedFloat} (h : Bounded k u) : u.isFinite = true := by
  cases u with
  | zero | finite => rfl
  | infinity | notANumber => cases h

section Bits

variable {b : BitVec 64} {k e : Int} {m : Nat} {s : Sign}

/-- What the bits of a double stand for. -/
inductive Meaning (b : BitVec 64) : UnpackedFloat → Prop
  | special {u : UnpackedFloat} (hOnes : @unpackExponent .binary64 b = -1#11)
      (hu : u.isFinite = false) : Meaning b u
  | zero (hZero : @unpackExponent .binary64 b = 0#11) (s : Sign) : Meaning b (.zero s)
  | subnormal (hZero : @unpackExponent .binary64 b = 0#11) (s : Sign)
      (hm : 0 < (@unpackMantissa .binary64 b).toNat) :
      Meaning b (.finite s (@unpackMantissa .binary64 b).toNat (-1074) hm)
  | normal (hOnes : @unpackExponent .binary64 b ≠ -1#11)
      (hZero : @unpackExponent .binary64 b ≠ 0#11) (s : Sign)
      (hm : 0 < (1#1 ++ @unpackMantissa .binary64 b).toNat) :
      Meaning b (.finite s (1#1 ++ @unpackMantissa .binary64 b).toNat
        ((@unpackExponent .binary64 b).toNat - 1075) hm)

theorem meaning_unpack (b : BitVec 64) : Meaning b (unpack .binary64 b) := by
  unfold unpack
  dsimp only
  by_cases hOnes : @unpackExponent .binary64 b = -1#11
  · rw [if_pos hOnes]
    apply Meaning.special hOnes
    by_cases hFraction : @unpackMantissa .binary64 b = 0#52
    · rw [if_pos hFraction]
      rfl
    · rw [if_neg hFraction]
      rfl
  rw [if_neg hOnes]
  by_cases hZero : @unpackExponent .binary64 b = 0#11
  · rw [if_pos hZero]
    by_cases hFraction : @unpackMantissa .binary64 b = 0#52
    · rw [dif_pos hFraction]
      exact .zero hZero _
    · have hExponent : ((@unpackExponent .binary64 b).toNat : Int) - (1023 + 52) + 1 = -1074 := by
        rw [hZero]
        rfl
      rw [dif_neg hFraction]
      have hMeaning := Meaning.subnormal hZero (.ofBitVec (@unpackSign .binary64 b))
        (Nat.pos_of_ne_zero fun h => hFraction (BitVec.eq_of_toNat_eq h))
      rw [← hExponent] at hMeaning
      exact hMeaning
  · rw [if_neg hZero]
    exact .normal hOnes hZero _ _

theorem bounded_unpack (hLow : -1074 ≤ k) (hHigh : k ≤ 971)
    (h : (@unpackExponent .binary64 b).toNat ≤ k + 1075) :
    Bounded k (unpack .binary64 b) := by
  have hMeaning := meaning_unpack b
  generalize unpack .binary64 b = u at hMeaning
  cases hMeaning with
  | special hOnes =>
    rw [hOnes] at h
    have : (-1#11 : BitVec 11).toNat = 2047 := by decide
    omega
  | zero => trivial
  | subnormal => exact hLow
  | normal =>
    rw [bounded_finite]
    omega

theorem toNat_unpackExponent (b : BitVec 64) :
    (@unpackExponent .binary64 b).toNat = b.toNat / 2 ^ 52 % 2 ^ 11 := by
  show ((b.extractLsb 62 52).cast _).toNat = _
  rw [BitVec.toNat_cast, BitVec.extractLsb_toNat, Nat.shiftRight_eq_div_pow]

/-- The exponent bits of a finite double are not all set. -/
theorem unpackExponent_of_isFinite (h : (unpack .binary64 b).isFinite = true) :
    (@unpackExponent .binary64 b).toNat < 2047 := by
  have hOnes : @unpackExponent .binary64 b ≠ -1#11 := by
    have hMeaning := meaning_unpack b
    generalize unpack .binary64 b = u at h hMeaning
    cases hMeaning with
    | special _ hu =>
      rw [hu] at h
      cases h
    | zero hZero | subnormal hZero =>
      rw [hZero]
      decide
    | normal hOnes => exact hOnes
  have hBits : (@unpackExponent .binary64 b).toNat < 2048 := (@unpackExponent .binary64 b).isLt
  have hNot : (@unpackExponent .binary64 b).toNat ≠ 2047 := fun h => hOnes (BitVec.eq_of_toNat_eq h)
  omega

theorem bounded_of_isFinite (h : (unpack .binary64 b).isFinite = true) :
    Bounded 971 (unpack .binary64 b) := by
  have := unpackExponent_of_isFinite h
  exact bounded_unpack (by decide) (by decide) (by omega)

theorem mantissa_lt {hm : 0 < m} (h : unpack .binary64 b = .finite s m e hm) : m < 2 ^ 53 := by
  have hMeaning := meaning_unpack b
  rw [h] at hMeaning
  cases hMeaning with
  | special _ hu => cases hu
  | subnormal => exact Nat.lt_trans (@unpackMantissa .binary64 b).isLt (by decide)
  | normal => exact (1#1 ++ @unpackMantissa .binary64 b).isLt

theorem pack_finite (hm : 0 < m) (h : e ≤ 971) :
    pack .binary64 (.finite s m e hm) = packComponents .binary64 s
      (if m.log2 + 1 = 53 then BitVec.ofNat 11 (e + 1075).toNat else 0#11)
      (BitVec.ofNat 52 m) := by
  have hRoom : ¬2 ^ 11 ≤ (e + (1023 : Nat) + (52 : Nat)).toNat + 1 := by omega
  have hBias : e + (1023 : Nat) + (52 : Nat) = e + 1075 := by omega
  rw [← hBias]
  refine (if_neg hRoom).trans ?_
  show (if m.log2 + 1 = 53 then _ else _) = _
  split <;> rfl

theorem pack_infinity (hm : 0 < m) (h : 971 < e) :
    pack .binary64 (.finite s m e hm) = packedInfinity .binary64 s := by
  have hNone : 2 ^ 11 ≤ (e + (1023 : Nat) + (52 : Nat)).toNat + 1 := by omega
  exact if_pos hNone

/-- The exponent bits of a number in range hold its exponent. -/
theorem toNat_exponentBits (hLow : -1075 ≤ e) (hHigh : e ≤ 971) :
    (BitVec.ofNat 11 (e + 1075).toNat).toNat = e + 1075 := by
  rw [BitVec.toNat_ofNat, Nat.mod_eq_of_lt (by omega)]
  omega

theorem bounded_unpack_pack {u : UnpackedFloat} (hLow : -1074 ≤ k) (hHigh : k ≤ 971)
    (h : Bounded k u) : Bounded k (unpack .binary64 (pack .binary64 u)) := by
  apply bounded_unpack hLow hHigh
  cases u with
  | infinity | notANumber => cases h
  | zero s =>
    have hZero : pack .binary64 (.zero s) = packedZero .binary64 s := rfl
    rw [hZero, packedZero, unpackExponent_packComponents]
    show ((0#11).toNat : Int) ≤ _
    simp
    omega
  | finite s m e hm =>
    replace h : e ≤ k := h
    rw [pack_finite hm (by omega), unpackExponent_packComponents]
    split
    · by_cases he : -1075 ≤ e
      · rw [toNat_exponentBits he (by omega)]
        omega
      · have hNone : (e + 1075).toNat = 0 := by omega
        rw [hNone]
        simp
        omega
    · simp
      omega

/-- What is packed from a finite number is finite, unless it is infinite. -/
theorem isFinite_unpack_pack {u : UnpackedFloat} (hu : u.isFinite = true)
    (h : (unpack .binary64 (pack .binary64 u)).isInf = false) :
    (unpack .binary64 (pack .binary64 u)).isFinite = true := by
  by_cases hBounded : Bounded 971 u
  · exact (bounded_unpack_pack (by decide) (by decide) hBounded).isFinite
  cases u with
  | infinity | notANumber => cases hu
  | zero s => exact absurd trivial hBounded
  | finite s m e hm =>
    have he : 971 < e := Int.not_le.mp hBounded
    rw [pack_infinity hm he] at h
    cases s <;> cases h

end Bits

/-! ### Rounding -/

theorem mantissa_shift (em : ExtendedMantissa) (n : Nat) :
    (em >>> n).mantissa = em.mantissa / 2 ^ n := by
  show (n.repeat ExtendedMantissa.shiftRightOne em).mantissa = _
  induction n with
  | zero => simp [Nat.repeat]
  | succ n ih =>
    rw [Nat.repeat, ExtendedMantissa.shiftRightOne, ih, Nat.div_div_eq_div_mul, Nat.pow_succ]

theorem mantissa_ofMantissaAndAccuracy (m : Nat) (a : Accuracy) :
    (ExtendedMantissa.ofMantissaAndAccuracy m a).mantissa = m := by
  rcases a with _ | (_ | _ | _) <;> rfl

/-- Rounding goes up by one at most. -/
theorem roundedMantissa_mem (em : ExtendedMantissa) :
    em.mantissa ≤ em.roundedMantissa ∧ em.roundedMantissa ≤ em.mantissa + 1 := by
  obtain ⟨m, _ | _, _ | _⟩ := em <;>
    simp only [ExtendedMantissa.roundedMantissa, ExtendedMantissa.accuracy,
      Accuracy.roundToNearestEven] <;> omega

theorem targetExponent_eq (t : Int) :
    Format.binary64.targetExponent t = max (t - 53) (-1074) := rfl

section Rounding

variable {m : Nat} {e k : Int} (s : Sign) (a : Accuracy)

theorem exponent_shiftToTargetExponent (m : Nat) (e : Int) :
    (shiftToTargetExponent .binary64 m e a).2 = max e (max (m.log2 + 1 + e - 53) (-1074)) := by
  simp only [shiftToTargetExponent, shiftToExponent, targetExponent_eq, totalExponent]
  omega

theorem mantissa_shiftToTargetExponent (m : Nat) (e : Int) :
    (shiftToTargetExponent .binary64 m e a).1.mantissa =
      m / 2 ^ (max (m.log2 + 1 + e - 53) (-1074) - e).toNat := by
  simp only [shiftToTargetExponent, shiftToExponent, targetExponent_eq, totalExponent,
    mantissa_shift, mantissa_ofMantissaAndAccuracy]

theorem mantissa_shiftToTargetExponent_lt (m : Nat) (e : Int) :
    (shiftToTargetExponent .binary64 m e a).1.mantissa < 2 ^ 53 := by
  rw [mantissa_shiftToTargetExponent]
  generalize hn : (max ((m.log2 : Int) + 1 + e - 53) (-1074) - e).toNat = n
  have hm : m < 2 ^ (n + 53) :=
    Nat.lt_of_lt_of_le Nat.lt_log2_self (Nat.pow_le_pow_right (by decide) (by omega))
  rw [Nat.pow_add] at hm
  exact Nat.div_lt_of_lt_mul hm

/-- Rounding leaves nothing, or what the second shift gives. -/
theorem roundWithAccuracy_cases {em : ExtendedMantissa} {e₁ : Int}
    (h : shiftToTargetExponent .binary64 m e a = (em, e₁)) :
    roundWithAccuracy .binary64 s m e a = .zero s ∨
      ∃ hm, roundWithAccuracy .binary64 s m e a = .finite s
        (shiftToTargetExponent .binary64 em.roundedMantissa e₁ .exact).1.mantissa
        (shiftToTargetExponent .binary64 em.roundedMantissa e₁ .exact).2 hm := by
  rw [roundWithAccuracy, h]
  dsimp only
  by_cases hZero :
      (shiftToTargetExponent .binary64 em.roundedMantissa e₁ .exact).1.mantissa = 0
  · exact .inl (dif_pos hZero)
  · exact .inr ⟨Nat.pos_of_ne_zero hZero, dif_neg hZero⟩

/-- Rounding raises the exponent by one at most, beyond what 53 bits need. -/
theorem bounded_roundWithAccuracy (hLow : -1074 ≤ k) (he : e ≤ k)
    (hm : (m.log2 : Int) + 1 + e - 53 ≤ k) :
    Bounded (k + 1) (roundWithAccuracy .binary64 s m e a) := by
  have hMantissa := mantissa_shiftToTargetExponent_lt a m e
  have hExponent := exponent_shiftToTargetExponent a m e
  generalize hShift : shiftToTargetExponent .binary64 m e a = shifted at hMantissa hExponent
  obtain ⟨em, e₁⟩ := shifted
  simp only at hMantissa hExponent
  have hRounded := (roundedMantissa_mem em).2
  have hLog : em.roundedMantissa.log2 < 54 := log2_lt_of_lt (by decide) (by omega)
  have hFinal := exponent_shiftToTargetExponent .exact em.roundedMantissa e₁
  rcases roundWithAccuracy_cases s a hShift with hZero | ⟨_, hRound⟩
  · rw [hZero]
    trivial
  · rw [hRound, bounded_finite]
    omega

theorem isFinite_roundWithAccuracy (m : Nat) (e : Int) :
    (roundWithAccuracy .binary64 s m e a).isFinite = true :=
  (bounded_roundWithAccuracy (k := max (-1074) (max e (m.log2 + 1 + e - 53))) s a
    (by omega) (by omega) (by omega)).isFinite

theorem shiftToTargetExponent_normal (hm : 52 ≤ m.log2) (he : -1074 ≤ m.log2 - 52 + e) :
    (shiftToTargetExponent .binary64 m e a).1.mantissa.log2 = 52 ∧
      (shiftToTargetExponent .binary64 m e a).2 = m.log2 - 52 + e := by
  constructor
  · have hHigh := mantissa_shiftToTargetExponent_lt a m e
    have hShift : (max ((m.log2 : Int) + 1 + e - 53) (-1074) - e).toNat = m.log2 - 52 := by omega
    rw [mantissa_shiftToTargetExponent, hShift] at hHigh ⊢
    have hLow : 2 ^ 52 ≤ m / 2 ^ (m.log2 - 52) := by
      have hSum : 52 + (m.log2 - 52) = m.log2 := by omega
      rw [Nat.le_div_iff_mul_le (Nat.two_pow_pos _), ← Nat.pow_add, hSum]
      apply Nat.log2_self_le
      rintro rfl
      cases hm
    exact (Nat.log2_eq_iff (by omega)).mpr ⟨hLow, hHigh⟩
  · rw [exponent_shiftToTargetExponent]
    omega

/-- With 53 bits to round, and none of them below the range, rounding gives 53 bits again. -/
theorem roundWithAccuracy_normal (hm : 52 ≤ m.log2) (he : -1074 ≤ m.log2 - 52 + e) :
    ∃ m' e' h, roundWithAccuracy .binary64 s m e a = .finite s m' e' h ∧ m'.log2 = 52 ∧
      m.log2 - 52 + e ≤ e' ∧ e' ≤ m.log2 - 51 + e := by
  obtain ⟨hMantissa, hExponent⟩ := shiftToTargetExponent_normal a hm he
  generalize hShift : shiftToTargetExponent .binary64 m e a = shifted at hMantissa hExponent
  obtain ⟨em, e₁⟩ := shifted
  simp only at hMantissa hExponent
  have hLog : 52 ≤ em.roundedMantissa.log2 ∧ em.roundedMantissa.log2 < 54 := by
    have hNonzero : em.mantissa ≠ 0 := by
      intro hZero
      rw [hZero] at hMantissa
      cases hMantissa
    obtain ⟨hLow, hHigh⟩ := (Nat.log2_eq_iff hNonzero).mp hMantissa
    obtain ⟨hDown, hUp⟩ := roundedMantissa_mem em
    exact ⟨(Nat.le_log2 (by omega)).mpr (by omega), log2_lt_of_lt (by decide) (by omega)⟩
  obtain ⟨hFinal, hFinalExponent⟩ :=
    shiftToTargetExponent_normal (m := em.roundedMantissa) (e := e₁) .exact hLog.1 (by omega)
  have hNonzero :
      (shiftToTargetExponent .binary64 em.roundedMantissa e₁ .exact).1.mantissa ≠ 0 := by
    intro hZero
    rw [hZero] at hFinal
    cases hFinal
  refine ⟨_, (shiftToTargetExponent .binary64 em.roundedMantissa e₁ .exact).2,
    Nat.pos_of_ne_zero hNonzero, ?_, hFinal, ?_, ?_⟩
  · rw [roundWithAccuracy, hShift]
    exact dif_neg hNonzero
  · omega
  · omega

theorem bounded_round (hm : m < 2 ^ 64) : Bounded 12 (round .binary64 s m 0) := by
  have hLog := log2_lt_of_lt (by decide) hm
  have hShift := log2_shiftLeft_le m
  simp only [UnpackedFloat.round, decreaseExponent, targetExponent_eq, totalExponent]
  generalize hn : (0 - max ((m.log2 : Int) + 1 + 0 - 53) (-1074)).toNat = n
  specialize hShift n
  apply bounded_roundWithAccuracy (k := 11) s .exact <;> omega

end Rounding

/-! ### Division -/

/-- A number that is one or more, whatever its sign. -/
def AtLeastOne : UnpackedFloat → Prop
  | .finite _ m e _ => 0 ≤ (m.log2 : Int) + e
  | .zero _ | .infinity _ | .notANumber => False

instance : DecidablePred AtLeastOne
  | .finite _ m e _ => inferInstanceAs (Decidable (0 ≤ (m.log2 : Int) + e))
  | .zero _ | .infinity _ | .notANumber => inferInstanceAs (Decidable False)

theorem AtLeastOne.isFinite {u : UnpackedFloat} (h : AtLeastOne u) : u.isFinite = true := by
  cases u with
  | finite => rfl
  | zero | infinity | notANumber => cases h

theorem bounded_quotient {k e₁ e₂ : Int} {m₁ m₂ : Nat} (s : Sign) (hLow : -1074 ≤ k)
    (hm : m₁ < 2 ^ 53) (he : e₁ ≤ k) (hOne : 0 ≤ (m₂.log2 : Int) + e₂) :
    Bounded (k + 1) (let (m, e, a) := divCore .binary64 m₁ e₁ m₂ e₂
      roundWithAccuracy .binary64 s m e a) := by
  have hLog := log2_lt_of_lt (by decide) hm
  have hShift := log2_shiftLeft_le m₁
  simp only [divCore, targetExponent_eq, totalExponent]
  generalize ht : min (e₁ - e₂)
    (max ((m₁.log2 : Int) + 1 + e₁ - (m₂.log2 + 1 + e₂) - 53) (-1074)) = t
  generalize hn : (e₁ - e₂ - t).toNat = n
  specialize hShift n
  apply bounded_roundWithAccuracy s _ hLow
  · omega
  · by_cases hZero : m₁ <<< n / m₂ = 0
    · rw [hZero, Nat.log2_zero]
      omega
    · have := log2_div_add_le hZero
      omega

theorem bounded_div {k : Int} {x y : BitVec 64} (hLow : -1074 ≤ k)
    (hx : Bounded k (unpack .binary64 x)) (hy : AtLeastOne (unpack .binary64 y)) :
    Bounded (k + 1) (div .binary64 (unpack .binary64 x) (unpack .binary64 y)) := by
  cases hY : unpack .binary64 y with
  | zero | infinity | notANumber =>
    rw [hY] at hy
    cases hy
  | finite s₂ m₂ e₂ _ =>
    rw [hY] at hy
    cases hX : unpack .binary64 x with
    | infinity | notANumber =>
      rw [hX] at hx
      cases hx
    | zero s => trivial
    | finite s₁ m₁ e₁ _ =>
      rw [hX] at hx
      exact bounded_quotient (s₁ / s₂) hLow (mantissa_lt hX) hx hy

theorem atLeastOne_unpack_pack {s : Sign} {m : Nat} {e : Int} (hm : 0 < m) (hNormal : m.log2 = 52)
    (hLow : -52 ≤ e) (hHigh : e ≤ 971) :
    AtLeastOne (unpack .binary64 (pack .binary64 (.finite s m e hm))) := by
  have hBits := toNat_exponentBits (e := e) (by omega) hHigh
  have hZero : BitVec.ofNat 11 (e + 1075).toNat ≠ 0#11 := by
    intro h
    rw [h, BitVec.toNat_zero] at hBits
    omega
  have hOnes : BitVec.ofNat 11 (e + 1075).toNat ≠ -1#11 := by
    intro h
    have : (-1#11 : BitVec 11).toNat = 2047 := by decide
    rw [h] at hBits
    omega
  have hMantissa : 2 ^ 52 ≤ (1#1 ++ BitVec.ofNat 52 m).toNat := by
    rw [BitVec.toNat_append]
    exact Nat.left_le_or
  have hLog := (Nat.le_log2 (by omega)).mpr hMantissa
  rw [pack_finite hm hHigh, if_pos (by omega)]
  generalize hPacked : packComponents .binary64 s (BitVec.ofNat 11 (e + 1075).toNat)
    (BitVec.ofNat 52 m) = b
  have hExponent : @unpackExponent .binary64 b = BitVec.ofNat 11 (e + 1075).toNat := by
    rw [← hPacked, unpackExponent_packComponents]
  have hFraction : @unpackMantissa .binary64 b = BitVec.ofNat 52 m := by
    rw [← hPacked, unpackMantissa_packComponents]
  have hMeaning := meaning_unpack b
  generalize unpack .binary64 b = u at hMeaning
  cases hMeaning with
  | special hSpecial => exact absurd (hExponent.symm.trans hSpecial) hOnes
  | zero hNone | subnormal hNone => exact absurd (hExponent.symm.trans hNone) hZero
  | normal =>
    show 0 ≤ ((1#1 ++ @unpackMantissa .binary64 b).toNat.log2 : Int) +
      ((@unpackExponent .binary64 b).toNat - 1075)
    rw [hExponent, hFraction]
    omega

/-! ### Doubles -/

/-- A finite double whose last place counts `2^k` at most. -/
def Below (k : Int) (x : Float) : Prop := Bounded k x.toModel.unpack

theorem Below.isFinite {k : Int} {x : Float} (h : Below k x) : x.isFinite = true :=
  Bounded.isFinite h

theorem below_toFloat (n : UInt64) : Below 12 n.toFloat := by
  refine bounded_unpack_pack (by decide) (by decide) ?_
  show Bounded 12 (UnpackedFloat.normalize .binary64 (n.toNat : Int) 0 .positive)
  rw [UnpackedFloat.normalize]
  split
  · next h =>
    have := Int.compare_eq_lt.mp h
    omega
  · trivial
  · exact bounded_round .positive n.toNat_lt

section Operations

variable {k : Int} {x y : Float}

theorem below_div (hLow : -1074 ≤ k) (hHigh : k < 971) (hx : Below k x)
    (hy : AtLeastOne y.toModel.unpack) : Below (k + 1) (x / y) :=
  bounded_unpack_pack (by omega) (by omega) (bounded_div hLow hx hy)

theorem isFinite_neg (h : x.isFinite = true) : (-x).isFinite = true := by
  have hx : Bounded 971 x.toModel.unpack := bounded_of_isFinite h
  have hNeg : Bounded 971 x.toModel.unpack.neg := by
    cases hu : x.toModel.unpack <;> rw [hu] at hx <;> exact hx
  exact (bounded_unpack_pack (by decide) (by decide) hNeg).isFinite

/-- A product of finite doubles is finite unless it is infinite. -/
theorem isFinite_mul (hx : x.isFinite = true) (hy : y.isFinite = true)
    (h : (x * y).isInf = false) : (x * y).isFinite = true := by
  refine isFinite_unpack_pack ?_ h
  replace hx : x.toModel.unpack.isFinite = true := hx
  replace hy : y.toModel.unpack.isFinite = true := hy
  show (UnpackedFloat.mul .binary64 x.toModel.unpack y.toModel.unpack).isFinite = true
  generalize x.toModel.unpack = u at hx
  generalize y.toModel.unpack = v at hy
  cases u with
  | infinity | notANumber => cases hx
  | zero s =>
    cases v with
    | infinity | notANumber => cases hy
    | zero | finite => rfl
  | finite s m e hm =>
    cases v with
    | infinity | notANumber => cases hy
    | zero => rfl
    | finite => exact isFinite_roundWithAccuracy _ _ _ _

theorem beq_self_of_isFinite (h : x.isFinite = true) : (x == x) = true := by
  replace h : x.toModel.unpack.isFinite = true := h
  show (x.toModel.unpack.compare x.toModel.unpack == some .eq) = true
  cases hx : x.toModel.unpack with
  | zero s => rfl
  | finite s m e hm =>
    have hSame : (compare e e).then (compare m m) = .eq := by simp
    cases s with
    | positive =>
      show (some ((compare e e).then (compare m m)) == some .eq) = true
      rw [hSame]
      rfl
    | negative =>
      show (some ((compare e e).then (compare m m)).swap == some .eq) = true
      rw [hSame]
      rfl
  | infinity | notANumber =>
    rw [hx] at h
    cases h

end Operations

/-! ### Decimal text -/

open Decimal (powerOfTen scaled)

theorem powerOfTen_eq {n : Nat} (hLow : 22 < n) (hHigh : n ≤ 308) :
    powerOfTen n = .ofModel (.pack
      (roundWithAccuracy .binary64 .positive (1 <<< 53 * 10 ^ n) (-53 + 0) .exact)) := by
  rw [powerOfTen, Float.ofScientific, dif_neg (by omega)]
  show Float.ofModel (.pack (UnpackedFloat.ofScientific .binary64 1 (n : Int))) = _
  have hLarge : ¬(n : Int) > 2 ^ 11 := by omega
  have hSmall : ¬(n : Int) < -(2 ^ 11 + Nat.log2 1) := by omega
  rw [UnpackedFloat.ofScientific, dif_neg (by decide), if_neg hLarge, if_neg hSmall,
    if_pos (by omega)]
  rfl

theorem atLeastOne_powerOfTen {n : Nat} (h : n ≤ 308) :
    AtLeastOne (powerOfTen n).toModel.unpack := by
  by_cases hExact : n ≤ 22
  · have hTable : ∀ i ≤ 22, AtLeastOne (powerOfTen i).toModel.unpack := by decide +kernel
    exact hTable n hExact
  by_cases hTop : n = 308
  · subst hTop
    decide +kernel
  -- Below the greatest power there is room for rounding to raise the exponent.
  have hPower : 10 ^ n < 2 ^ 1020 := by
    calc 10 ^ n
      _ ≤ 10 ^ 307 := Nat.pow_le_pow_right (by decide) (by omega)
      _ < 2 ^ 1020 := by decide +kernel
  have hLow : 2 ^ 53 ≤ 1 <<< 53 * 10 ^ n :=
    Nat.le_mul_of_pos_right _ (Nat.pow_pos (by decide))
  have hHigh : 1 <<< 53 * 10 ^ n < 2 ^ 1073 := by omega
  have hLogLow := (Nat.le_log2 (by omega)).mpr hLow
  have hLogHigh := log2_lt_of_lt (by decide) hHigh
  obtain ⟨m, e, hm, hRound, hNormal, he, he'⟩ := roundWithAccuracy_normal
    (m := 1 <<< 53 * 10 ^ n) (e := -53 + 0) .positive .exact (by omega) (by omega)
  rw [powerOfTen_eq (by omega) h, hRound]
  exact atLeastOne_unpack_pack hm hNormal (by omega) (by omega)

theorem Below.div_powerOfTen {k : Int} {x : Float} {n : Nat} (hx : Below k x)
    (hk : -1074 ≤ k ∧ k < 971) (hn : n ≤ 308) : Below (k + 1) (x / powerOfTen n) :=
  below_div hk.1 hk.2 hx (atLeastOne_powerOfTen hn)

/-- A scaled significand is finite. -/
theorem isFinite_of_scaled {significand : UInt64} {exponent : Int} {x : Float}
    (h : scaled significand exponent = some x) : x.isFinite = true := by
  have hWord := below_toFloat significand
  simp only [scaled] at h
  split at h
  · split at h
    · cases h
      exact hWord.isFinite
    split at h
    · cases h
    split at h
    · cases h
    · next hFinite =>
      cases h
      have hPower := atLeastOne_powerOfTen (n := exponent.toNat) (by omega)
      exact isFinite_mul hWord.isFinite hPower.isFinite (Bool.eq_false_iff.mpr hFinite)
  · split at h
    · next hPlaces =>
      cases h
      exact (hWord.div_powerOfTen (by decide) hPlaces).isFinite
    split at h
    · cases h
      have hFirst := hWord.div_powerOfTen (by decide) (Nat.le_refl 308)
      exact (hFirst.div_powerOfTen (by decide) (by omega)).isFinite
    · cases h
      decide +kernel

end QueryTree.Double
