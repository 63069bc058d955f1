import QueryTree.Proofs.Json.Scalars
import QueryTree.Proofs.Json.Yields

/-! Scalars that were read.  A scalar that some document stands for is settled: no text of a day
comes as a plain text, no unsigned integer lies within the signed range, and every double is finite.
So it is read back as it is, and it is the same as itself. -/

namespace QueryTree.Scalar

/-- Some document, with finite doubles, stands for the scalar. -/
def Settled (v : Scalar) : Prop := ∃ d : Draft, d.Finite ∧ ofDraft? d = some v

section Settled

variable {v : Scalar}

theorem ofInteger_eq_some {n : Int} (h : ofInteger n = some v) :
    v.toJson = .integer n ∧ -0x8000000000000000 ≤ n ∧ n < 0x10000000000000000 ∧
      ∀ x, v ≠ .float x := by
  rw [ofInteger] at h
  split at h
  · next hSigned =>
    cases h
    refine ⟨?_, by omega, by omega, fun x hx => by cases hx⟩
    rw [toJson, Int64.toInt_ofInt_of_le (by omega) (by omega)]
  · split at h
    · next hUnsigned =>
      cases h
      refine ⟨?_, by omega, by omega, fun x hx => by cases hx⟩
      have hSize : n.toNat < UInt64.size := by
        rw [UInt64.size]
        omega
      rw [toJson, Nat.toUInt64, UInt64.toNat_ofNat_of_lt' hSize, Int.toNat_of_nonneg (by omega)]
    · cases h

/-- A scalar that was read is a finite double, or what its own document stands for. -/
theorem Settled.cases (h : v.Settled) : (∃ x, v = .float x ∧ x.isFinite = true) ∨
    ((∀ x, v ≠ .float x) ∧ ofDraft? v.toJson.draft = some v) := by
  obtain ⟨d, hFinite, hDraft⟩ := h
  cases d with
  | null =>
    cases hDraft
    exact .inr ⟨nofun, rfl⟩
  | bool b =>
    cases hDraft
    exact .inr ⟨nofun, rfl⟩
  | number n =>
    cases n with
    | real x =>
      cases hDraft
      exact .inl ⟨x, rfl, hFinite.real⟩
    | integer n =>
      obtain ⟨hJson, hLow, hHigh, hFloat⟩ := ofInteger_eq_some hDraft
      refine .inr ⟨hFloat, ?_⟩
      rw [hJson, draft_integer hLow hHigh]
      exact hDraft
  | string s =>
    cases hDraft
    refine .inr ⟨?_, by rw [toJson_ofText]; rfl⟩
    intro x hx
    have hJson := toJson_ofText s
    rw [hx] at hJson
    cases hJson
  | array items ending =>
    obtain ⟨os, -, rfl⟩ := Option.map_eq_some_iff.mp hDraft
    refine .inr ⟨nofun, ?_⟩
    rw [toJson, Json.draft, ofDraft?, mapM_octet?]
    rfl
  | flawed | object | broken => cases hDraft

theorem Settled.reread (h : v.Settled)
    (hFloats : ∀ x, v = .float x → x.isFinite = true → (Number.real x).ReadsBack) :
    v.reread = .ok v := by
  rcases h.cases with ⟨x, rfl, hFinite⟩ | ⟨-, hDraft⟩
  · exact reread_float (hFloats x rfl hFinite)
  · exact reread_of_ofDraft? hDraft

theorem Settled.same_self (h : v.Settled) : v.same v = true := by
  rcases h.cases with ⟨x, rfl, hFinite⟩ | ⟨hNot, -⟩
  · exact Double.beq_self_of_isFinite hFinite
  · cases v with
    | float x => exact absurd rfl (hNot x)
    | _ => simp [same]

end Settled

/-- Only octets are written as an array, and they are read from one. -/
theorem nesting_of_ofDraft? {v : Scalar} {d : Draft} {n : Nat} (h : ofDraft? d = some v)
    (hNests : d.Nests n) : v.toJson.nesting ≤ n := by
  cases d with
  | array items ending =>
    cases n with
    | zero => cases hNests
    | succ n => exact Nat.le_trans v.nesting_toJson (Nat.le_add_left 1 n)
  | number m =>
    cases m with
    | real x =>
      cases h
      exact Nat.zero_le n
    | integer m =>
      rw [(ofInteger_eq_some h).1]
      exact Nat.zero_le n
  | string s =>
    cases h
    rw [toJson_ofText]
    exact Nat.zero_le n
  | null | bool =>
    cases h
    exact Nat.zero_le n
  | flawed | object | broken => cases h

theorem yields_read : Scalar.read.Yields fun n v => v.toJson.nesting ≤ n ∧ v.Settled := by
  intro mode d v n hFinite hAllows hRead
  obtain ⟨hKeep, hDraft⟩ := read_ok hRead
  exact ⟨nesting_of_ofDraft? hDraft (hAllows.nests hKeep), d, hFinite, hDraft⟩

end QueryTree.Scalar
