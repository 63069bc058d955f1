import QueryTree.Proofs.Json.Reading
import QueryTree.Proofs.Magnitudes
import QueryTree.Proofs.Shortest

/-! Which numbers are read from their own text: every integer of 64 bits and every double.  What is
not finite is written as `null`.  The text of a finite double is the text of a numeral, and the
shortest decimal of a double is never out of range. -/

namespace QueryTree

open Decimal (isDigit digitValue natOfDigits startsWithDigit scaled digitCount)

namespace Json.Read

/-! ### Numerals -/

/-- The fraction of a numeral, with its point. -/
def pointed : List Char → List Char
  | [] => []
  | digits => '.' :: digits

/-- The power of ten of a numeral, with its mark and sign. -/
def marked : Option Int → List Char
  | none => []
  | some e => 'e' :: (if 0 ≤ e then '+' else '-') :: Nat.toDigits 10 e.natAbs

/-- The text of a numeral, after its sign. -/
def Numeral.text (n : Numeral) : List Char := n.whole ++ (pointed n.fraction ++ marked n.exponent)

/-- A numeral is made of digits, and a leading zero stands alone. -/
structure Numeral.WellFormed (n : Numeral) : Prop where
  whole_ne_nil : n.whole ≠ []
  whole_digits : ∀ c ∈ n.whole, isDigit c = true
  whole_ne_zero_cons : ∀ c cs, n.whole ≠ '0' :: c :: cs
  fraction_digits : ∀ c ∈ n.fraction, isDigit c = true

theorem afterDigits_marked (negative : Bool) (whole fraction : List Char) (e : Option Int) :
    afterDigits ⟨negative, whole, fraction, none⟩ (marked e) =
      numeral ⟨negative, whole, fraction, e⟩ [] := by
  cases e with
  | none => rfl
  | some e =>
    have hAll : ∀ c ∈ Nat.toDigits 10 e.natAbs, isDigit c = true := fun _ =>
      Decimal.isDigit_of_mem_toDigits
    have hTake := Decimal.takeWhile_isDigit_append hAll (show startsWithDigit [] = false from rfl)
    have hDrop := Decimal.dropWhile_isDigit_append hAll (show startsWithDigit [] = false from rfl)
    rw [List.append_nil] at hTake hDrop
    have hSign : exponentSign ((if 0 ≤ e then '+' else '-') :: Nat.toDigits 10 e.natAbs) =
        (decide (e < 0), Nat.toDigits 10 e.natAbs) := by
      split
      · next h => rw [decide_eq_false (by omega)]; rfl
      · next h => rw [decide_eq_true (by omega)]; rfl
    have hValue : (if decide (e < 0) = true then -(e.natAbs : Int) else e.natAbs) = e := by
      split
      · next h =>
        have := of_decide_eq_true h
        omega
      · next h =>
        have := of_decide_eq_false (Bool.eq_false_iff.mpr h)
        omega
    rw [marked, afterDigits, exponent_eq, hSign, exponentDigits]
    simp only [hTake, hDrop]
    split
    · next hNil => exact absurd hNil Nat.toDigits_ne_nil
    · rw [Decimal.natOfDigits_toDigits, hValue]

theorem startsWithDigit_marked (e : Option Int) : startsWithDigit (marked e) = false := by
  cases e <;> rfl

theorem afterWhole_pointed {fraction : List Char} (h : ∀ c ∈ fraction, isDigit c = true)
    (negative : Bool) (whole : List Char) (e : Option Int) :
    afterWhole ⟨negative, whole, [], none⟩ (pointed fraction ++ marked e) =
      numeral ⟨negative, whole, fraction, e⟩ [] := by
  cases fraction with
  | nil =>
    have hDigits := afterDigits_marked negative whole [] e
    cases e with
    | none => exact hDigits
    | some e => exact hDigits
  | cons c cs =>
    show afterWhole _ ('.' :: (c :: cs ++ marked e)) = _
    rw [afterWhole, Decimal.takeWhile_isDigit_append h (startsWithDigit_marked e),
      Decimal.dropWhile_isDigit_append h (startsWithDigit_marked e)]
    exact afterDigits_marked negative whole (c :: cs) e

theorem startsWithDigit_pointed (fraction : List Char) (e : Option Int) :
    startsWithDigit (pointed fraction ++ marked e) = false := by
  cases fraction with
  | nil => exact startsWithDigit_marked e
  | cons c cs => rfl

/-- The text of a numeral is read as the numeral. -/
theorem unsigned_text {n : Numeral} (h : n.WellFormed) :
    unsigned n.negative n.text = numeral n [] := by
  rw [unsigned, Numeral.text,
    Decimal.takeWhile_isDigit_append h.whole_digits (startsWithDigit_pointed _ _),
    Decimal.dropWhile_isDigit_append h.whole_digits (startsWithDigit_pointed _ _)]
  split
  · next hNil => exact absurd hNil h.whole_ne_nil
  · next hZero => exact absurd hZero (h.whole_ne_zero_cons _ _)
  · exact afterWhole_pointed h.fraction_digits n.negative n.whole n.exponent

/-! ### Values of numerals -/

theorem le_foldl_digits (cs : List Char) (s : Nat) :
    s ≤ cs.foldl (fun n c => n * 10 + digitValue c) s := by
  induction cs generalizing s with
  | nil => exact Nat.le_refl s
  | cons c cs ih =>
    have hRest := ih (s * 10 + digitValue c)
    rw [List.foldl_cons]
    omega

/-- All digits are taken in when their number is below `2^64`. -/
theorem absorb_eq {cs : List Char} {s : Nat}
    (h : cs.foldl (fun n c => n * 10 + digitValue c) s < 0x10000000000000000) :
    absorb s cs = (cs.foldl (fun n c => n * 10 + digitValue c) s, cs.length) := by
  induction cs generalizing s with
  | nil => rfl
  | cons c cs ih =>
    rw [List.foldl_cons] at h ⊢
    have hNext := Nat.lt_of_le_of_lt (le_foldl_digits cs _) h
    rw [absorb]
    simp only [hNext, if_true, ih h, List.length_cons]

/-- With at most sixteen digits before the point, one at least behind it and no exponent, a numeral
is in range: one digit of the fraction at least is taken in, and then a quotient is formed. -/
theorem isSome_value_of_pointed {n : Numeral} (h : n.WellFormed) (hShort : n.whole.length ≤ 16)
    (hFraction : n.fraction ≠ []) (hExponent : n.exponent = none) : n.value.isSome = true := by
  obtain ⟨negative, whole, fraction, e⟩ := n
  obtain ⟨-, hWhole, -, hDigits⟩ := h
  simp only at hShort hFraction hExponent hWhole hDigits
  subst hExponent
  have hSmall : natOfDigits whole < 10 ^ 16 :=
    Nat.lt_of_lt_of_le (Decimal.natOfDigits_lt hWhole) (Nat.pow_le_pow_right (by decide) hShort)
  have hAbsorb : absorb 0 whole = (natOfDigits whole, whole.length) :=
    absorb_eq (show natOfDigits whole < _ by omega)
  cases fraction with
  | nil => exact absurd rfl hFraction
  | cons c cs =>
    have hDigit := Decimal.digitValue_lt (hDigits c List.mem_cons_self)
    have hTaken : natOfDigits whole * 10 + digitValue c < 0x10000000000000000 := by omega
    simp only [Numeral.value, hAbsorb, List.isEmpty_cons, Bool.false_and, Bool.false_eq_true,
      if_false, absorb, hTaken, if_true, Option.isSome_map]
    exact Double.isSome_scaled_of_neg _ (by simp; omega)

/-- With one digit before the point and an exponent, a numeral has the value of all its digits,
scaled. -/
theorem isSome_value_of_marked {c : Char} {cs : List Char} {e : Int} (negative : Bool)
    (h : natOfDigits (c :: cs) < 0x10000000000000000) :
    (Numeral.value ⟨negative, [c], cs, some e⟩).isSome =
      (scaled (natOfDigits (c :: cs)).toUInt64 (e - cs.length)).isSome := by
  have hFirst : absorb 0 [c] = (0 * 10 + digitValue c, 1) :=
    absorb_eq (Nat.lt_of_le_of_lt (le_foldl_digits cs _) h)
  have hRest : absorb (0 * 10 + digitValue c) cs = (natOfDigits (c :: cs), cs.length) :=
    absorb_eq h
  have hExponent : ((1 - 1 : Nat) : Int) - cs.length + e = e - cs.length := by omega
  simp only [Numeral.value, hFirst, hRest, Option.isNone_some, Bool.and_false, Bool.false_and,
    Bool.false_eq_true, if_false, List.length_singleton, Option.getD_some, hExponent,
    Option.isSome_map]

/-! ### Integers -/

theorem unsigned_toDigits {n : Nat} (h : n < 0x10000000000000000) (negative : Bool) :
    unsigned negative (Nat.toDigits 10 n) = (.number (integer negative n), .ok []) := by
  have hWellFormed : Numeral.WellFormed ⟨negative, Nat.toDigits 10 n, [], none⟩ :=
    ⟨Nat.toDigits_ne_nil, fun _ => Decimal.isDigit_of_mem_toDigits,
      Decimal.toDigits_ne_zero_cons n, nofun⟩
  have hAbsorb : absorb 0 (Nat.toDigits 10 n) = (n, (Nat.toDigits 10 n).length) := by
    have hValue : (Nat.toDigits 10 n).foldl (fun n c => n * 10 + digitValue c) 0 = n :=
      Decimal.natOfDigits_toDigits n
    rw [absorb_eq (by rw [hValue]; exact h), hValue]
  have hText := unsigned_text hWellFormed
  rw [Numeral.text, pointed, marked, List.append_nil, List.append_nil] at hText
  rw [hText, numeral]
  simp [Numeral.value, hAbsorb]

theorem numberText_toDigits {n : Nat} (h : n < 0x10000000000000000) :
    NumberText (Nat.toDigits 10 n) (.number (.integer n)) := by
  have hWhole := unsigned_toDigits h false
  have hDigit : ∀ c ∈ Nat.toDigits 10 n, isDigit c = true := fun _ =>
    Decimal.isDigit_of_mem_toDigits
  cases hText : Nat.toDigits 10 n with
  | nil => exact absurd hText Nat.toDigits_ne_nil
  | cons c cs =>
    rw [hText] at hWhole hDigit
    exact .positive (hDigit c List.mem_cons_self) hWhole

theorem numberText_minus_toDigits {n : Nat} (hPos : 0 < n) (h : n ≤ 0x8000000000000000) :
    NumberText ('-' :: Nat.toDigits 10 n) (.number (.integer (-n))) := by
  have hWhole := unsigned_toDigits (show n < 0x10000000000000000 by omega) true
  rw [integer, if_pos rfl, if_pos ⟨hPos, h⟩] at hWhole
  exact .negative hWhole

theorem numberText_integer {n : Int} (hLow : -0x8000000000000000 ≤ n)
    (hHigh : n < 0x10000000000000000) :
    NumberText (numberText (.integer n)).toList (.number (.integer n)) := by
  cases n with
  | ofNat n =>
    have hText : (numberText (.integer (.ofNat n))).toList = Nat.toDigits 10 n :=
      String.toList_ofList
    rw [hText]
    exact numberText_toDigits (Int.ofNat_lt.mp hHigh)
  | negSucc n =>
    have hText : (numberText (.integer (.negSucc n))).toList = '-' :: Nat.toDigits 10 (n + 1) := by
      have hRepr : numberText (.integer (.negSucc n)) =
          "-" ++ String.ofList (Nat.toDigits 10 (n + 1)) := rfl
      simp [hRepr]
    rw [hText]
    exact numberText_minus_toDigits n.succ_pos (by omega)

/-! ### Doubles -/

/-- A text, after its sign, that a numeral in range has. -/
def Readable (negative : Bool) (cs : List Char) : Prop :=
  ∃ n : Numeral, n.negative = negative ∧ n.WellFormed ∧ n.value.isSome = true ∧ cs = n.text

theorem Readable.exists_unsigned {negative : Bool} {cs : List Char} (h : Readable negative cs) :
    ∃ m, unsigned negative cs = (.number m, .ok []) := by
  obtain ⟨n, rfl, hn, hValue, rfl⟩ := h
  obtain ⟨m, hm⟩ := Option.isSome_iff_exists.mp hValue
  refine ⟨m, ?_⟩
  rw [unsigned_text hn, numeral, hm]

theorem Readable.exists_numberText {cs : List Char} (h : Readable false cs) :
    ∃ d, NumberText cs d := by
  obtain ⟨m, hm⟩ := h.exists_unsigned
  obtain ⟨n, -, hn, -, rfl⟩ := h
  cases hWhole : n.whole with
  | nil => exact absurd hWhole hn.whole_ne_nil
  | cons c cs =>
    have hDigit : isDigit c = true := hn.whole_digits c (by rw [hWhole]; exact List.mem_cons_self)
    rw [Numeral.text, hWhole] at hm ⊢
    exact ⟨_, .positive hDigit hm⟩

theorem Readable.exists_numberText_minus {cs : List Char} (h : Readable true cs) :
    ∃ d, NumberText ('-' :: cs) d := by
  obtain ⟨m, hm⟩ := h.exists_unsigned
  exact ⟨_, .negative hm⟩

section Forms

variable {d : Decimal.Digits} (negative : Bool)

/-- Digits around a point are readable, with sixteen of them before it at most and no zero in front
of others. -/
theorem readable_pointed {whole fraction : List Char} (hWhole : ∀ c ∈ whole, isDigit c = true)
    (hNonempty : whole ≠ []) (hLeading : whole.head? = some '0' → whole = ['0'])
    (hShort : whole.length ≤ 16) (hFraction : ∀ c ∈ fraction, isDigit c = true)
    (hNonempty' : fraction ≠ []) : Readable negative (whole ++ '.' :: fraction) := by
  have hWellFormed : Numeral.WellFormed ⟨negative, whole, fraction, none⟩ := by
    refine ⟨hNonempty, hWhole, ?_, hFraction⟩
    rintro c cs rfl
    cases hLeading rfl
  refine ⟨_, rfl, hWellFormed, isSome_value_of_pointed hWellFormed hShort hNonempty' rfl, ?_⟩
  cases fraction with
  | nil => exact absurd rfl hNonempty'
  | cons c cs => simp [Numeral.text, pointed, marked]

/-- A decimal with at most sixteen digits before the point is readable in its positional form. -/
theorem readable_positional (hZero : d.significand = 0 → d.exponent = 0)
    (hHigh : d.exponent + digitCount d.significand ≤ 16) :
    Readable negative (d.positional true).toList := by
  have hDigits : ∀ c ∈ Nat.toDigits 10 d.significand, isDigit c = true := fun _ =>
    Decimal.isDigit_of_mem_toDigits
  have hZeros : ∀ n, ∀ c ∈ List.replicate n '0', isDigit c = true := by
    intro n c hc
    rw [List.eq_of_mem_replicate hc]
    rfl
  have hNonempty : Nat.toDigits 10 d.significand ≠ [] := Nat.toDigits_ne_nil
  have hLeading : (Nat.toDigits 10 d.significand).head? = some '0' →
      d.exponent = 0 ∧ Nat.toDigits 10 d.significand = ['0'] := by
    intro hHead
    rcases Nat.eq_zero_or_pos d.significand with h | h
    · exact ⟨hZero h, by rw [h]; rfl⟩
    · exact absurd hHead (Decimal.head?_toDigits_ne_zero _ h)
  rw [digitCount] at hHigh
  unfold Decimal.Digits.positional
  dsimp only
  generalize Nat.toDigits 10 d.significand = digits at *
  have hLength : 0 < digits.length := List.length_pos_iff.mpr hNonempty
  -- the point stands behind the digits, between them, or in front of them
  split
  · have hText : (String.ofList digits ++ Decimal.zeros d.exponent.toNat ++
        (if true = true then ".0" else "")).toList =
          (digits ++ List.replicate d.exponent.toNat '0') ++ '.' :: ['0'] := by
      simp [Decimal.zeros]
    rw [hText]
    refine readable_pointed negative ?_ (by simp [hNonempty]) ?_ ?_ (hZeros 1) (by simp)
    · simp only [List.mem_append]
      rintro c (hc | hc)
      · exact hDigits c hc
      · exact hZeros _ c hc
    · intro hHead
      rw [List.head?_append_of_ne_nil _ hNonempty] at hHead
      obtain ⟨hExponent, rfl⟩ := hLeading hHead
      rw [hExponent]
      rfl
    · rw [List.length_append, List.length_replicate]
      omega
  split
  · next hPlaces =>
    have hText : ∀ whole fraction : List Char,
        (String.ofList whole ++ "." ++ String.ofList fraction).toList =
          whole ++ '.' :: fraction := by
      simp
    rw [hText]
    refine readable_pointed negative (fun c hc => hDigits c (List.mem_of_mem_take hc)) ?_ ?_ ?_
      (fun c hc => hDigits c (List.mem_of_mem_drop hc)) ?_
    · exact List.ne_nil_of_length_pos (by rw [List.length_take]; omega)
    · intro hHead
      rw [List.head?_take, if_neg (by omega)] at hHead
      have := (hLeading hHead).1
      omega
    · rw [List.length_take]
      omega
    · exact List.ne_nil_of_length_pos (by rw [List.length_drop]; omega)
  · have hText : ("0." ++ Decimal.zeros (d.exponent.natAbs - digits.length) ++
        String.ofList digits).toList =
          ['0'] ++ '.' :: (List.replicate (d.exponent.natAbs - digits.length) '0' ++ digits) := by
      simp [Decimal.zeros]
    rw [hText]
    refine readable_pointed negative (hZeros 1) (by simp) (fun _ => rfl) (by simp) ?_
      (by simp [hNonempty])
    simp only [List.mem_append]
    rintro c (hc | hc)
    · exact hZeros _ c hc
    · exact hDigits c hc

/-- A decimal in range is readable in its scientific form. -/
theorem readable_scientific (hDigits : d.significand ≤ 10 ^ 17)
    (hScaled : (scaled d.significand.toUInt64 d.exponent).isSome = true) :
    Readable negative d.scientific.toList := by
  have hAll : ∀ c ∈ Nat.toDigits 10 d.significand, isDigit c = true := fun _ =>
    Decimal.isDigit_of_mem_toDigits
  have hValue := Decimal.natOfDigits_toDigits d.significand
  have hWord : d.significand < 0x10000000000000000 := Nat.lt_of_le_of_lt hDigits (by decide)
  unfold Decimal.Digits.scientific
  dsimp only
  cases hText : Nat.toDigits 10 d.significand with
  | nil => exact absurd hText Nat.toDigits_ne_nil
  | cons c cs =>
    rw [hText] at hAll hValue
    obtain ⟨hFirst, hRest⟩ := List.forall_mem_cons.mp hAll
    refine ⟨⟨negative, [c], cs, some (d.exponent + (c :: cs).length - 1)⟩, rfl, ?_, ?_, ?_⟩
    · exact ⟨by simp, by simpa using hFirst, by simp, hRest⟩
    · rw [isSome_value_of_marked negative (by rwa [hValue]), hValue]
      have hExponent : d.exponent + ((c :: cs).length : Int) - 1 - cs.length = d.exponent := by
        rw [List.length_cons]
        omega
      rwa [hExponent]
    · have hPower : ∀ n : Nat, (toString n).toList = Nat.toDigits 10 n := fun _ =>
        String.toList_ofList
      have hMark : ∀ e : Int, (if 0 ≤ e then "e+" else "e-").toList =
          ['e', if 0 ≤ e then '+' else '-'] := by
        intro e
        split <;> rfl
      simp only [String.toList_append, hPower, hMark, Numeral.text, marked]
      cases cs with
      | nil => simp [pointed, Char.toString]
      | cons c' cs => simp [pointed, Char.toString]

end Forms

open Decimal (Binary Shape)

theorem cast_middle : (((2 ^ 54 - 3) * 2 ^ 970 : Nat) : ℚ) = (2 ^ 54 - 3) * 2 ^ (970 : Int) := by
  rw [Nat.cast_mul, Nat.cast_sub (by decide), Nat.cast_pow, Nat.cast_pow, Nat.cast_ofNat,
    ← zpow_natCast 2 970]
  rfl

/-- Only the interval of the greatest double reaches beyond the middle between it and the double
below. -/
theorem upper_le_middle {b : Binary} (hb : b.IsDouble) (hNot : b ≠ ⟨2 ^ 53 - 1, 971, false⟩) :
    (4 * b.significand + 2 : ℚ) * 2 ^ (b.exponent - 2) ≤ ((2 ^ 54 - 3) * 2 ^ 970 : Nat) := by
  obtain ⟨significand, e, narrow⟩ := b
  obtain ⟨hSignificand, hExponent, hNarrow⟩ := hb
  simp only at hSignificand hExponent hNarrow ⊢
  rw [cast_middle]
  rcases Int.lt_or_eq_of_le hExponent with hLess | rfl
  · have hLe : (4 * significand + 2 : ℚ) ≤ 2 ^ 55 := by exact_mod_cast (by omega)
    have hPower : (2 : ℚ) ^ (e - 2) ≤ 2 ^ (968 : Int) :=
      zpow_le_zpow_right₀ (by norm_num) (by omega)
    calc (4 * significand + 2 : ℚ) * 2 ^ (e - 2)
      _ ≤ 2 ^ 55 * 2 ^ (968 : Int) := mul_le_mul hLe hPower (by positivity) (by positivity)
      _ = 2 ^ 53 * 2 ^ (970 : Int) := by
        rw [show (970 : Int) = 2 + 968 from rfl, zpow_add₀ (by norm_num), ← mul_assoc]
        norm_num
      _ ≤ (2 ^ 54 - 3) * 2 ^ (970 : Int) := mul_le_mul_of_nonneg_right (by norm_num) (by positivity)
  · have hNotTop : significand ≠ 2 ^ 53 - 1 := by
      rintro rfl
      cases narrow with
      | false => exact hNot rfl
      | true => exact absurd (hNarrow rfl) (by decide)
    have hLe : (4 * significand + 2 : ℚ) ≤ (2 ^ 54 - 3) * 2 := by
      norm_num
      exact_mod_cast (show 4 * significand + 2 ≤ 36028797018963962 by omega)
    calc (4 * significand + 2 : ℚ) * 2 ^ (971 - 2 : Int)
      _ ≤ (2 ^ 54 - 3) * 2 * 2 ^ (971 - 2 : Int) := mul_le_mul_of_nonneg_right hLe (by positivity)
      _ = (2 ^ 54 - 3) * 2 ^ (970 : Int) := by
        rw [show (970 : Int) = 1 + (971 - 2) from rfl, zpow_add₀ (by norm_num), zpow_one, mul_assoc]

/-- The shortest decimal of a double is in range. -/
theorem isSome_scaled_shortest {b : Binary} (hb : b.IsDouble) :
    (scaled (b.shortest .toEven).significand.toUInt64 (b.shortest .toEven).exponent).isSome =
      true := by
  by_cases hTop : b = ⟨2 ^ 53 - 1, 971, false⟩
  · subst hTop
    have hShortest : (Binary.mk (2 ^ 53 - 1) 971 false).shortest .toEven =
        ⟨17976931348623157, 292⟩ := by decide +kernel
    rw [hShortest]
    decide +kernel
  · have hNear := b.near_shortest .toEven
    exact Double.isSome_scaled hNear.significand_le (hNear.value_le.trans (upper_le_middle hb hTop))

theorem readable_printDigits {b : Binary} (hb : b.IsDouble) (negative : Bool) :
    Readable negative (realStyle.printDigits (b.shortest .toEven)).toList := by
  rw [Decimal.Style.printDigits]
  split
  · next hPositional =>
    have hLess := of_decide_eq_true (Bool.and_eq_true _ _ ▸ hPositional).2
    exact readable_positional negative (Binary.shortest_exponent hb) (by omega)
  · exact readable_scientific negative (b.near_shortest .toEven).significand_le
      (isSome_scaled_shortest hb)

theorem exists_shape {x : Float} (h : x.isFinite = true) :
    ∃ negative b, Shape.ofFloat x = .finite negative b := by
  have hBits := Double.unpackExponent_of_isFinite (b := x.toBits.toBitVec) h
  rw [Double.toNat_unpackExponent] at hBits
  replace hBits : x.toBits.toNat / 0x10000000000000 % 0x800 < 2047 := hBits
  simp only [Shape.ofFloat]
  split
  · next hOnes =>
    rw [beq_iff_eq] at hOnes
    omega
  split <;> exact ⟨_, _, rfl⟩

end Json.Read

/-- Every double is read from its own text. -/
theorem Number.legible_real (x : Float) : (Number.real x).Legible := by
  by_cases hFinite : x.isFinite
  · obtain ⟨negative, b, hShape⟩ := Json.Read.exists_shape hFinite
    have hReadable := Json.Read.readable_printDigits (Decimal.isDouble_ofFloat hShape) negative
    have hText : Json.numberText (.real x) = (if negative then "-" else "") ++
        Json.realStyle.printDigits (b.shortest .toEven) := by
      rw [Json.numberText, if_pos hFinite, Decimal.Style.print, hShape]
      rfl
    rw [Number.Legible, hText, String.toList_append]
    cases negative with
    | false => exact hReadable.exists_numberText
    | true => exact hReadable.exists_numberText_minus
  · rw [Number.Legible, Json.numberText, if_neg hFinite]
    exact ⟨_, .null⟩

end QueryTree
