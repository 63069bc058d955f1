import QueryTree.Scalar.Codec
import QueryTree.Proofs.Json.Decoding

/-! Scalars read back from their own text.  What comes back need not be the same scalar, but it is
written the same. -/

namespace QueryTree

open Json.Read (NumberText)

/-- The number that a draft stands for. -/
def Draft.number? : Draft → Option Number
  | .number n => some n
  | _ => none

namespace Number

/-- The number is read back from its own text as it is. -/
def ReadsBack (n : Number) : Prop :=
  Draft.ofText (Json.number n).compact.toList = (.number n, .ok [])

theorem readsBack_iff {n : Number} : n.ReadsBack ↔
    (Draft.ofText (Json.number n).compact.toList).1.number? = some n ∧
      (Draft.ofText (Json.number n).compact.toList).2.toOption = some [] := by
  rw [ReadsBack]
  constructor
  · intro h
    rw [h]
    exact ⟨rfl, rfl⟩
  · intro ⟨hDraft, hRest⟩
    refine Prod.ext ?_ ?_
    · revert hDraft
      cases (Draft.ofText (Json.number n).compact.toList).1 <;> simp [Draft.number?]
    · revert hRest
      cases (Draft.ofText (Json.number n).compact.toList).2 <;> simp [Except.toOption]

instance (n : Number) : Decidable n.ReadsBack := decidable_of_iff' _ readsBack_iff

theorem draft_of_numberText {n : Number} {d : Draft}
    (h : NumberText (Json.numberText n).toList d) : (Json.number n).draft = d := by
  rw [Json.draft, h.scalar_eq]

end Number

namespace Scalar

/-- What a scalar becomes when it is written and read again. -/
def reread (v : Scalar) : Decoded Scalar := Scalar.read.ofText v.toJson.compact

theorem nesting_toJson (v : Scalar) : v.toJson.nesting ≤ 1 := by
  have hItems : ∀ os : List UInt8,
      Json.nestingItems (os.map fun o => Json.integer o.toNat) = 0 := by
    intro os
    induction os with
    | nil => rfl
    | cons o os ih =>
      rw [List.map_cons, Json.nestingItems, ih]
      rfl
  cases v with
  | bytes os =>
    have hNesting : (Scalar.bytes os).toJson.nesting = 1 := by rw [toJson, Json.nesting, hItems]
    exact Nat.le_of_eq hNesting
  | _ => exact Nat.zero_le 1

theorem legible_integer {n : Int} (hLow : -0x8000000000000000 ≤ n)
    (hHigh : n < 0x10000000000000000) : (Json.integer n).Legible :=
  ⟨_, Json.Read.numberText_integer hLow hHigh⟩

theorem draft_integer {n : Int} (hLow : -0x8000000000000000 ≤ n)
    (hHigh : n < 0x10000000000000000) : (Json.integer n).draft = .number (.integer n) :=
  Number.draft_of_numberText (Json.Read.numberText_integer hLow hHigh)

theorem legible_toJson (v : Scalar) : v.toJson.Legible := by
  cases v with
  | float x => exact Number.legible_real x
  | int n => exact legible_integer n.le_toInt (Int.lt_trans n.toInt_lt (by decide))
  | uint n =>
    have := n.toNat_lt
    exact legible_integer (by omega) (by omega)
  | bytes os =>
    show Json.LegibleItems _
    induction os with
    | nil => trivial
    | cons o os ih =>
      have := o.toNat_lt
      exact ⟨legible_integer (by omega) (by omega), ih⟩
  | _ => trivial

/-- The scalar of a legible document is that of its draft. -/
theorem decodes_of_ofDraft? {j : Json} {w : Scalar} (hLegible : j.Legible)
    (h : ofDraft? j.draft = some w) (levels : Nat) : Decodes levels Scalar.read j w where
  legible := hLegible
  read mode _ := by
    rw [read, mode.keep_draft hLegible]
    refine mode.within_bind_ok ?_
    rw [h]

theorem read_ok {mode : Mode} {d : Draft} {w : Scalar} (h : Scalar.read mode d = .ok w) :
    mode.keep d = .ok () ∧ ofDraft? d = some w := by
  obtain ⟨⟨⟩, hKeep, hDraft⟩ := bind_ok h
  refine ⟨hKeep, ?_⟩
  split at hDraft
  · next hSome =>
    cases hDraft
    exact hSome
  · cases hDraft

/-- What a scalar becomes by itself it becomes within any document. -/
theorem decodes_of_reread {v w : Scalar} (h : v.reread = .ok w) (levels : Nat) :
    Decodes levels Scalar.read v.toJson w := by
  obtain ⟨d, rest, hText, hRead, -⟩ := Reader.ofText_ok h
  rw [Json.ofText_compact v.legible_toJson] at hText
  cases hText
  exact decodes_of_ofDraft? v.legible_toJson (read_ok hRead).2 levels

theorem reread_of_ofDraft? {v w : Scalar} (h : ofDraft? v.toJson.draft = some w) :
    v.reread = .ok w := by
  have hText := (decodes_of_ofDraft? v.legible_toJson h nestingLimit).ofText (Nat.le_refl _)
  have hRoom : v.toJson.nesting ≤ nestingLimit := Nat.le_trans v.nesting_toJson (by decide)
  rw [reread, hText, Mode.start, Mode.within, if_pos hRoom]

/-! What comes back of each sort of scalar. -/

theorem toJson_ofText (text : String) : (Scalar.ofText text).toJson = .string text := by
  unfold ofText timestampOfText dateOfText
  cases Calendar.DateTime.ofText text with
  | ok t => rfl
  | error e => cases Calendar.Date.ofText text <;> rfl

theorem ofInteger_toInt (n : Int64) : ofInteger n.toInt = some (.int n) := by
  have hLow := n.le_toInt
  have hHigh := n.toInt_lt
  rw [ofInteger, if_pos (by omega), Int64.ofInt_toInt]

theorem exists_ofInteger_toNat (n : UInt64) :
    ∃ w, ofInteger n.toNat = some w ∧ w.toJson = .integer n.toNat := by
  have hHigh := n.toNat_lt
  by_cases hSigned : n.toNat < 0x8000000000000000
  · refine ⟨.int (Int64.ofInt n.toNat), by rw [ofInteger, if_pos (by omega)], ?_⟩
    rw [toJson, Int64.toInt_ofInt_of_le (by omega) (by omega)]
  · refine ⟨.uint n, ?_, rfl⟩
    rw [ofInteger, if_neg (by omega), if_pos (by omega), Int.toNat_natCast]
    exact congrArg (fun m => some (uint m)) UInt64.ofNat_toNat

theorem mapM_octet? (os : List UInt8) :
    (Json.draftItems (os.map fun o => Json.integer o.toNat)).mapM octet? = some os := by
  induction os with
  | nil => rfl
  | cons o os ih =>
    have hHigh := o.toNat_lt
    have hDraft : (Json.integer o.toNat).draft = .number (.integer o.toNat) :=
      draft_integer (by omega) (by omega)
    have hOctet : octet? (.number (.integer o.toNat)) = some o := by
      rw [octet?, if_pos (by omega), Int.toNat_natCast]
      exact congrArg some UInt8.ofNat_toNat
    rw [List.map_cons, Json.draftItems, List.mapM_cons, hDraft, hOctet, ih]
    rfl

/-- What is no double is taken for a scalar that is written the same. -/
theorem exists_ofDraft? {v : Scalar} (h : ∀ x, v ≠ .float x) :
    ∃ w, ofDraft? v.toJson.draft = some w ∧ w.toJson = v.toJson := by
  cases v with
  | float x => exact absurd rfl (h x)
  | null => exact ⟨.null, rfl, rfl⟩
  | bool b => exact ⟨.bool b, rfl, rfl⟩
  | timestamp text | date text | string text =>
    exact ⟨ofText text, rfl, toJson_ofText text⟩
  | int n =>
    refine ⟨.int n, ?_, rfl⟩
    rw [toJson, draft_integer n.le_toInt (Int.lt_trans n.toInt_lt (by decide))]
    exact ofInteger_toInt n
  | uint n =>
    have hHigh := n.toNat_lt
    rw [toJson, draft_integer (by omega) (by omega)]
    exact exists_ofInteger_toNat n
  | bytes os =>
    refine ⟨.bytes os, ?_, rfl⟩
    rw [toJson, Json.draft, ofDraft?, mapM_octet?]
    rfl

theorem reread_float {x : Float} (h : (Number.real x).ReadsBack) :
    (Scalar.float x).reread = .ok (.float x) := by
  have hDraft : (Json.number (.real x)).draft = .number (.real x) := by
    have hText := Json.ofText_compact (j := .number (.real x)) (Number.legible_real x)
    exact congrArg Prod.fst (hText.symm.trans h)
  refine reread_of_ofDraft? ?_
  rw [toJson, hDraft]
  rfl

/-- A double that is not finite is read back as nothing. -/
theorem reread_of_not_finite {x : Float} (h : ¬x.isFinite = true) :
    (Scalar.float x).reread = .ok .null ∧
      Scalar.null.toJson.compact = (Scalar.float x).toJson.compact := by
  have hText : Json.numberText (.real x) = "null" := by rw [Json.numberText, if_neg h]
  have hNull : NumberText (Json.numberText (.real x)).toList .null := by
    rw [hText]
    exact .null
  refine ⟨reread_of_ofDraft? ?_, hText.symm⟩
  rw [toJson, Number.draft_of_numberText hNull]
  rfl

/-- Every scalar is read back as one that is written the same, as long as a finite double is read
back from its text. -/
theorem exists_reread {v : Scalar}
    (h : ∀ x, v = .float x → x.isFinite → (Number.real x).ReadsBack) :
    ∃ w, v.reread = .ok w ∧ w.toJson.compact = v.toJson.compact := by
  by_cases hFloat : ∃ x, v = .float x
  · obtain ⟨x, rfl⟩ := hFloat
    by_cases hFinite : x.isFinite
    · exact ⟨.float x, reread_float (h x rfl hFinite), rfl⟩
    · exact ⟨.null, reread_of_not_finite hFinite⟩
  · have hNot : ∀ x, v ≠ .float x := fun x hx => hFloat ⟨x, hx⟩
    obtain ⟨w, hDraft, hSame⟩ := exists_ofDraft? hNot
    exact ⟨w, reread_of_ofDraft? hDraft, by rw [hSame]⟩

end Scalar

end QueryTree
