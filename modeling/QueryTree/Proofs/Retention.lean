import QueryTree.Proofs.Calendar.Spellings
import QueryTree.Proofs.Json.Settled

/-! Which scalars keep their sort when they are written and read again.  The reader takes the sort
of a text from what it denotes, tries points in time before days, and tries signed integers before
unsigned ones; `Scalar.KeepsSort` says which scalars come through this as they were. -/

namespace QueryTree

namespace Calendar

/-- No text denotes both a point in time and a day. -/
theorem Date.ofText_ne_ok {text : String} {t : DateTime} (h : DateTime.ofText text = .ok t)
    (d : Date) : Date.ofText text ≠ .ok d := by
  have hSpelled := DateTime.ofText_eq_ok_iff.mp h
  rw [Date.ofText]
  generalize text.toList = cs at hSpelled ⊢
  cases hSpelled with
  | @form separator fraction zone hYear hSeparator =>
    have hMark : Decimal.isDigit separator = false := by
      rcases hSeparator with rfl | rfl | rfl <;> rfl
    rw [← toList_yearText_unsigned hYear, t.dateScan_form hMark]
    intro hDate
    cases hDate

end Calendar

open Calendar (Date DateTime)

namespace Scalar

/-- The scalars whose document stands for them and for no other: unsigned integers must lie above
the signed range, doubles must be finite, and a text must denote what its sort says, a plain one
neither a point in time nor a day. -/
def KeepsSort : Scalar → Prop
  | .null | .bool _ | .int _ | .bytes _ => True
  | .uint n => 0x8000000000000000 ≤ n.toNat
  | .float x => x.isFinite = true
  | .timestamp text => ∃ t, DateTime.ofText text = .ok t
  | .date text => ∃ d, Date.ofText text = .ok d
  | .string text => (∀ t, DateTime.ofText text ≠ .ok t) ∧ ∀ d, Date.ofText text ≠ .ok d

theorem ofText_of_dateTime {text : String} {t : DateTime} (h : DateTime.ofText text = .ok t) :
    ofText text = .timestamp text := by
  rw [ofText, timestampOfText, h]
  rfl

theorem ofText_of_date {text : String} {d : Date} (h : Date.ofText text = .ok d) :
    ofText text = .date text := by
  cases hTime : DateTime.ofText text with
  | ok t => exact absurd h (Date.ofText_ne_ok hTime d)
  | error e =>
    rw [ofText, timestampOfText, dateOfText, hTime, h]
    rfl

theorem ofText_of_neither {text : String} (hTime : ∀ t, DateTime.ofText text ≠ .ok t)
    (hDate : ∀ d, Date.ofText text ≠ .ok d) : ofText text = .string text := by
  rw [ofText, timestampOfText, dateOfText]
  cases h : DateTime.ofText text with
  | ok t => exact absurd h (hTime t)
  | error e =>
    cases h' : Date.ofText text with
    | ok d => exact absurd h' (hDate d)
    | error e' => rfl

/-- The sort of a text is the one whose scalar keeps it. -/
theorem keepsSort_ofText (text : String) : (ofText text).KeepsSort := by
  cases hTime : DateTime.ofText text with
  | ok t =>
    rw [ofText_of_dateTime hTime]
    exact ⟨t, hTime⟩
  | error e =>
    cases hDate : Date.ofText text with
    | ok d =>
      rw [ofText_of_date hDate]
      exact ⟨d, hDate⟩
    | error e' =>
      have hNoTime : ∀ t, DateTime.ofText text ≠ .ok t := by simp [hTime]
      have hNoDate : ∀ d, Date.ofText text ≠ .ok d := by simp [hDate]
      rw [ofText_of_neither hNoTime hNoDate]
      exact ⟨hNoTime, hNoDate⟩

theorem keepsSort_ofInteger {n : Int} {v : Scalar} (h : ofInteger n = some v) : v.KeepsSort := by
  rw [ofInteger] at h
  split at h
  · cases h
    trivial
  · split at h
    · next hUnsigned =>
      cases h
      have hSize : n.toNat < UInt64.size := by
        rw [UInt64.size]
        omega
      rw [KeepsSort, Nat.toUInt64, UInt64.toNat_ofNat_of_lt' hSize]
      omega
    · cases h

section Retention

variable {v w : Scalar}

/-- A scalar that was read keeps its sort. -/
theorem Settled.keepsSort (h : v.Settled) : v.KeepsSort := by
  obtain ⟨d, hFinite, hDraft⟩ := h
  cases d with
  | null | bool b =>
    cases hDraft
    trivial
  | number n =>
    cases n with
    | integer n => exact keepsSort_ofInteger hDraft
    | real x =>
      cases hDraft
      exact hFinite.real
  | string text =>
    cases hDraft
    exact keepsSort_ofText text
  | array items ending =>
    obtain ⟨os, -, rfl⟩ := Option.map_eq_some_iff.mp hDraft
    trivial
  | flawed | object | broken => cases hDraft

theorem settled_of_ofText {text : String} (h : Scalar.read.ofText text = .ok v) : v.Settled := by
  obtain ⟨d, rest, hText, hRead, -⟩ := Reader.ofText_ok h
  have hFinite := Draft.finite_ofText text.toList
  rw [hText] at hFinite
  exact ⟨d, hFinite, (read_ok hRead).2⟩

/-- The document of a scalar that keeps its sort, and is no double, stands for it. -/
theorem KeepsSort.ofDraft? (h : v.KeepsSort) (hNot : ∀ x, v ≠ .float x) :
    Scalar.ofDraft? v.toJson.draft = some v := by
  cases v with
  | float x => exact absurd rfl (hNot x)
  | null | bool => rfl
  | int n =>
    rw [toJson, draft_integer n.le_toInt (Int.lt_trans n.toInt_lt (by decide))]
    exact ofInteger_toInt n
  | uint n =>
    have hHigh := n.toNat_lt
    have hLow : 0x8000000000000000 ≤ n.toNat := h
    rw [toJson, draft_integer (by omega) (by omega), Scalar.ofDraft?, ofInteger,
      if_neg (by omega), if_pos (by omega), Int.toNat_natCast]
    exact congrArg (fun m => some (uint m)) UInt64.ofNat_toNat
  | timestamp text =>
    obtain ⟨t, ht⟩ := h
    exact congrArg some (ofText_of_dateTime ht)
  | date text =>
    obtain ⟨d, hd⟩ := h
    exact congrArg some (ofText_of_date hd)
  | string text => exact congrArg some (ofText_of_neither h.1 h.2)
  | bytes os =>
    rw [toJson, Json.draft, Scalar.ofDraft?, mapM_octet?]
    rfl

theorem KeepsSort.reread (h : v.KeepsSort)
    (hFloats : ∀ x, v = .float x → x.isFinite = true → (Number.real x).ReadsBack) :
    v.reread = .ok v := by
  by_cases hFloat : ∃ x, v = .float x
  · obtain ⟨x, rfl⟩ := hFloat
    exact reread_float (hFloats x rfl h)
  · have hNot : ∀ x, v ≠ .float x := fun x hx => hFloat ⟨x, hx⟩
    exact reread_of_ofDraft? (h.ofDraft? hNot)

theorem keepsSort_ofUInt64 (n : UInt64) : (ofUInt64 n).KeepsSort := by
  unfold ofUInt64
  split
  · trivial
  · exact Nat.le_of_not_lt ‹_›

theorem reread_ofUInt64 (n : UInt64) : (ofUInt64 n).reread = .ok (ofUInt64 n) := by
  refine (keepsSort_ofUInt64 n).reread fun x hx => ?_
  unfold ofUInt64 at hx
  split at hx <;> cases hx

theorem reread_int (n : Int64) : (Scalar.int n).reread = .ok (.int n) :=
  KeepsSort.reread (v := .int n) trivial nofun

/-- Only doubles can be the same without being equal. -/
theorem eq_of_same (h : w.same v = true) (hNot : ∀ x, v ≠ .float x) : w = v := by
  cases w <;> cases v <;> simp_all [same]

end Retention

/-- Every scalar is read back from its own text, as one that is written the same.  It comes back
equal exactly when it keeps its sort; integers of 64 bits, signed or not, always do when they were
made from the number.  Of doubles it is assumed that a finite one is read back from the text that is
written for it. -/
theorem reread_self_iff_keepsSort (v : Scalar)
    (hFloats : ∀ x, v = .float x → x.isFinite = true → (Number.real x).ReadsBack) :
    (∃ w, v.reread = .ok w ∧ w.toJson.compact = v.toJson.compact ∧
      (w = v ↔ v.KeepsSort) ∧ (w.same v = true ↔ v.KeepsSort)) ∧
    (∀ n : UInt64, (ofUInt64 n).reread = .ok (ofUInt64 n)) ∧
    ∀ n : Int64, (Scalar.int n).reread = .ok (.int n) := by
  refine ⟨?_, reread_ofUInt64, reread_int⟩
  obtain ⟨w, hReread, hText⟩ := exists_reread hFloats
  have hSettled : w.Settled := settled_of_ofText hReread
  have hBack : v.KeepsSort → w = v := fun hKeeps =>
    Except.ok.inj (hReread.symm.trans (hKeeps.reread hFloats))
  refine ⟨w, hReread, hText, ⟨fun hEq => hEq ▸ hSettled.keepsSort, hBack⟩, ?_, ?_⟩
  · intro hSame
    by_cases hFloat : ∃ x, v = .float x
    · obtain ⟨x, rfl⟩ := hFloat
      by_cases hFinite : x.isFinite = true
      · exact hFinite
      · -- what is not finite comes back as nothing, which is no double
        have hNull : w = .null :=
          Except.ok.inj (hReread.symm.trans (reread_of_not_finite hFinite).1)
        rw [hNull] at hSame
        cases hSame
    · have hEq := eq_of_same hSame fun x hx => hFloat ⟨x, hx⟩
      exact hEq ▸ hSettled.keepsSort
  · intro hKeeps
    have hEq := hBack hKeeps
    rw [← hEq]
    exact hSettled.same_self

/-- A finite double, a plain text that denotes a day, a timestamp that denotes nothing, a small
unsigned integer and no octets at all. -/
def mixedScalars : List Scalar :=
  [.float 19.99, .string "2024-02-29", .timestamp "noon", .uint 7, .bytes []]

theorem reread_self_iff_keepsSort_mixedScalars : mixedScalars.Forall fun v =>
    (∀ x, v = .float x → x.isFinite = true → (Number.real x).ReadsBack) ∧
    (∃ w, v.reread = .ok w ∧ w.toJson.compact = v.toJson.compact ∧
      (w = v ↔ v.KeepsSort) ∧ (w.same v = true ↔ v.KeepsSort)) ∧
    (∀ n : UInt64, (ofUInt64 n).reread = .ok (ofUInt64 n)) ∧
    ∀ n : Int64, (Scalar.int n).reread = .ok (.int n) := by
  refine List.forall_iff_forall_mem.mpr fun v hv => ?_
  have hFloats : ∀ x, v = .float x → x.isFinite = true → (Number.real x).ReadsBack := by
    rintro x rfl -
    have hPrice : x = 19.99 := by simpa [mixedScalars] using hv
    rw [hPrice]
    decide +kernel
  exact ⟨hFloats, reread_self_iff_keepsSort v hFloats⟩

end Scalar

end QueryTree
