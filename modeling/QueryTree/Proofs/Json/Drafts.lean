import QueryTree.Proofs.Doubles
import QueryTree.Proofs.Json.Reading

/-! What a draft can hold.  However a text is written, the doubles in its draft are finite
(`Draft.finite_ofText`): a numeral that is too large leaves no number behind.  And a draft that can
be kept nests no deeper than there is room (`Draft.nests_of_refusal?`). -/

namespace QueryTree

namespace Draft

/-- What stands between the brackets of an array or object. -/
def within? : Draft → Option (List Draft)
  | .array items _ => some items
  | .object members _ => some (members.map Prod.snd)
  | _ => none

/-- At most so many arrays and objects stand within one another. -/
def Nests : Nat → Draft → Prop
  | 0, d => d.within? = none
  | n + 1, d => ∀ ds, d.within? = some ds → ∀ e ∈ ds, e.Nests n

/-- All doubles are finite. -/
inductive Finite : Draft → Prop
  | intro {d : Draft} (real : ∀ x, d = .number (.real x) → x.isFinite = true)
      (within : ∀ ds, d.within? = some ds → ∀ e ∈ ds, e.Finite) : Finite d

/-! ### Nesting -/

theorem Nests.of_none {d : Draft} (h : d.within? = none) (n : Nat) : d.Nests n := by
  cases n with
  | zero => exact h
  | succ n =>
    intro ds hds
    rw [h] at hds
    cases hds

theorem Nests.mono {d : Draft} {m n : Nat} (h : d.Nests m) (hmn : m ≤ n) : d.Nests n := by
  induction m generalizing d n with
  | zero => exact .of_none h n
  | succ m ih =>
    cases n with
    | zero => cases hmn
    | succ n => exact fun ds hds e he => ih (h ds hds e he) (Nat.le_of_succ_le_succ hmn)

theorem itemsRefusal?_eq_none_iff {room : Nat} {items : List Draft} :
    itemsRefusal? room items = none ↔ ∀ e ∈ items, e.refusal? room = none := by
  induction items with
  | nil => simp [itemsRefusal?]
  | cons d rest ih =>
    rw [itemsRefusal?, Option.or_eq_none_iff, ih]
    simp

theorem membersRefusal?_eq_none_iff {room : Nat} {members : List (Option String × Draft)} :
    membersRefusal? room members = none ↔
      ∀ m ∈ members, m.1 ≠ none ∧ m.2.refusal? room = none := by
  induction members with
  | nil => simp [membersRefusal?]
  | cons m rest ih =>
    obtain ⟨_ | name, d⟩ := m
    · simp [membersRefusal?]
    · rw [membersRefusal?, Option.or_eq_none_iff, ih]
      simp

theorem refusal?_array_eq_none_iff {room : Nat} {items : List Draft} {ending : Ending} :
    (Draft.array items ending).refusal? room = none ↔
      0 < room ∧ (∀ e ∈ items, e.refusal? (room - 1) = none) ∧ ending.refusal? = none := by
  cases room <;> simp [refusal?, itemsRefusal?_eq_none_iff]

theorem refusal?_object_eq_none_iff {room : Nat} {members : List (Option String × Draft)}
    {ending : Ending} : (Draft.object members ending).refusal? room = none ↔
      0 < room ∧ (∀ m ∈ members, m.1 ≠ none ∧ m.2.refusal? (room - 1) = none) ∧
        ending.refusal? = none := by
  cases room <;> simp [refusal?, membersRefusal?_eq_none_iff]

/-- Where there is no refusal, there is room, and neither is there a refusal one level deeper. -/
theorem refusal?_within {room : Nat} {d : Draft} {ds : List Draft} (h : d.refusal? room = none)
    (hds : d.within? = some ds) : 0 < room ∧ ∀ e ∈ ds, e.refusal? (room - 1) = none := by
  cases d with
  | array items ending =>
    cases hds
    obtain ⟨hPos, hItems, -⟩ := refusal?_array_eq_none_iff.mp h
    exact ⟨hPos, hItems⟩
  | object members ending =>
    cases hds
    obtain ⟨hPos, hMembers, -⟩ := refusal?_object_eq_none_iff.mp h
    refine ⟨hPos, fun e he => ?_⟩
    obtain ⟨m, hm, rfl⟩ := List.mem_map.mp he
    exact (hMembers m hm).2
  | _ => cases hds

/-- What can be kept does not nest too deeply. -/
theorem nests_of_refusal? {room : Nat} {d : Draft} (h : d.refusal? room = none) :
    d.Nests room := by
  induction room generalizing d with
  | zero =>
    rw [Nests, Option.eq_none_iff_forall_not_mem]
    intro ds hds
    exact absurd (refusal?_within h hds).1 (Nat.lt_irrefl 0)
  | succ room ih => exact fun ds hds e he => ih ((refusal?_within h hds).2 e he)

/-! ### Doubles -/

/-- Only numbers, arrays and objects can hold a double. -/
theorem Finite.of_none {d : Draft} (hNumber : ∀ n, d ≠ .number n) (hWithin : d.within? = none) :
    d.Finite := by
  refine .intro (fun x hx => absurd hx (hNumber _)) fun ds hds => ?_
  rw [hWithin] at hds
  cases hds

theorem Finite.number {n : Number} (h : ∀ x, n = .real x → x.isFinite = true) :
    (Draft.number n).Finite :=
  .intro (fun x hx => h x (Draft.number.inj hx)) nofun

theorem Finite.array {items : List Draft} {ending : Ending} (h : ∀ e ∈ items, e.Finite) :
    (Draft.array items ending).Finite :=
  .intro nofun fun _ hds => Option.some.inj hds ▸ h

theorem Finite.object {members : List (Option String × Draft)} {ending : Ending}
    (h : ∀ m ∈ members, m.2.Finite) : (Draft.object members ending).Finite :=
  .intro nofun fun _ hds => Option.some.inj hds ▸ fun e he => by
    obtain ⟨m, hm, rfl⟩ := List.mem_map.mp he
    exact h m hm

theorem Finite.real {x : Float} (h : (Draft.number (.real x)).Finite) : x.isFinite = true := by
  cases h with
  | intro hReal => exact hReal x rfl

theorem Finite.within {d : Draft} {ds : List Draft} (h : d.Finite) (hds : d.within? = some ds) :
    ∀ e ∈ ds, e.Finite := by
  cases h with
  | intro _ hWithin => exact hWithin ds hds

end Draft

namespace Json.Read

theorem isFinite_of_integer {negative : Bool} {significand : Nat} {x : Float}
    (h : integer negative significand = .real x) : x.isFinite = true := by
  rw [integer] at h
  split at h
  · split at h
    · cases h
    · cases h
      exact Double.isFinite_neg (Double.below_toFloat _).isFinite
  · cases h

/-- The number of a numeral is an integer or a finite double. -/
theorem isFinite_of_value {n : Numeral} {x : Float} (h : n.value = some (.real x)) :
    x.isFinite = true := by
  simp only [Numeral.value] at h
  split at h
  · exact isFinite_of_integer (Option.some.inj h)
  · obtain ⟨y, hy, hx⟩ := Option.map_eq_some_iff.mp h
    have hFinite := Double.isFinite_of_scaled hy
    cases hx
    split
    · exact Double.isFinite_neg hFinite
    · exact hFinite

theorem finite_stop (begun : Begun) (fault : Fault) : (stop begun fault).1.Finite :=
  .of_none nofun rfl

theorem finite_noDigit (text : List Char) : (noDigit text).1.Finite := by
  cases text <;> exact finite_stop _ _

theorem finite_numeral (n : Numeral) (rest : List Char) : (numeral n rest).1.Finite := by
  rw [numeral]
  split
  · next value hValue =>
    refine .number fun x hx => ?_
    subst hx
    exact isFinite_of_value hValue
  · exact .of_none nofun rfl

theorem finite_exponent (n : Numeral) (text : List Char) : (exponent n text).1.Finite := by
  rw [exponent_eq, exponentDigits]
  split
  · exact finite_noDigit _
  · exact finite_numeral _ _

theorem finite_afterDigits (n : Numeral) (text : List Char) : (afterDigits n text).1.Finite := by
  fun_cases afterDigits n text
  · exact finite_exponent _ _
  · exact finite_exponent _ _
  · exact finite_numeral _ _

theorem finite_afterWhole (n : Numeral) (text : List Char) : (afterWhole n text).1.Finite := by
  fun_cases afterWhole n text
  · exact finite_noDigit _
  · exact finite_afterDigits _ _
  · exact finite_afterDigits _ _

theorem finite_unsigned (negative : Bool) (text : List Char) :
    (unsigned negative text).1.Finite := by
  rw [unsigned]
  split
  · exact finite_noDigit _
  · exact finite_stop _ _
  · exact finite_afterWhole _ _

theorem finite_word {begun : Begun} {d : Draft} (h : d.Finite) (letters text : List Char) :
    (word begun d letters text).1.Finite := by
  fun_induction word begun d letters text with
  | case1 => exact h
  | case2 => exact finite_stop _ _
  | case3 _ _ _ ih => exact ih
  | case4 => exact finite_stop _ _

theorem finite_string (text : List Char) : (string text).1.Finite := by
  rw [string]
  split
  · exact .of_none (fun n hn => by cases hn) rfl
  · exact .of_none (fun n hn => by cases hn) rfl
  · exact finite_stop _ _

theorem finite_scalar (text : List Char) : (scalar text).1.Finite := by
  have hNull : Draft.null.Finite := .of_none nofun rfl
  have hBool (b : Bool) : (Draft.bool b).Finite := .of_none nofun rfl
  rw [scalar.eq_def]
  split
  · exact finite_stop _ _
  · exact finite_word hNull _ _
  · exact finite_word (hBool true) _ _
  · exact finite_word (hBool false) _ _
  · exact finite_string _
  · exact finite_unsigned _ _
  · split
    · exact finite_unsigned _ _
    · exact finite_stop _ _

/-- With so much fuel, the doubles of a value, of items and of members are finite. -/
structure ReadsFinite (fuel : Nat) : Prop where
  value : ∀ text, (value fuel text).1.Finite
  items : ∀ text, ∀ e ∈ (items fuel text).1, e.Finite
  members : ∀ text, ∀ m ∈ (members fuel text).1, m.2.Finite

theorem ReadsFinite.value_succ {fuel : Nat} (h : ReadsFinite fuel) (text : List Char) :
    (Read.value (fuel + 1) text).1.Finite := by
  rw [Read.value]
  split
  · split
    · exact .array (List.forall_mem_nil _)
    · exact .array (List.forall_mem_nil _)
    · exact .array (h.items _)
  · split
    · exact .object (List.forall_mem_nil _)
    · exact .object (List.forall_mem_nil _)
    · exact .object (h.members _)
  · exact finite_scalar _

theorem ReadsFinite.items_succ {fuel : Nat} (h : ReadsFinite fuel) (text : List Char) :
    ∀ e ∈ (Read.items (fuel + 1) text).1, e.Finite := by
  have hValue := h.value text
  rw [Read.items]
  split
  · next hText =>
    rw [hText] at hValue
    exact List.forall_mem_singleton.mpr hValue
  · next hText =>
    rw [hText] at hValue
    split
    · exact List.forall_mem_singleton.mpr hValue
    · exact List.forall_mem_singleton.mpr hValue
    · exact List.forall_mem_cons.mpr ⟨hValue, h.items _⟩
    · exact List.forall_mem_singleton.mpr hValue

theorem ReadsFinite.members_succ {fuel : Nat} (h : ReadsFinite fuel) (text : List Char) :
    ∀ m ∈ (Read.members (fuel + 1) text).1, m.2.Finite := by
  have hBroken (fault : Fault) : (Draft.broken .nothing fault).Finite := .of_none nofun rfl
  rw [Read.members]
  split
  · split
    · simp
    · split
      · exact List.forall_mem_singleton.mpr (hBroken _)
      · next rest _ =>
        have hValue := h.value rest
        split
        · next hText =>
          rw [hText] at hValue
          exact List.forall_mem_singleton.mpr hValue
        · next hText =>
          rw [hText] at hValue
          split
          · exact List.forall_mem_singleton.mpr hValue
          · exact List.forall_mem_singleton.mpr hValue
          · exact List.forall_mem_cons.mpr ⟨hValue, h.members _⟩
          · exact List.forall_mem_singleton.mpr hValue
      · exact List.forall_mem_singleton.mpr (hBroken _)
  · simp

theorem readsFinite (fuel : Nat) : ReadsFinite fuel := by
  induction fuel with
  | zero => exact ⟨fun _ => finite_stop _ _, fun _ => nofun, fun _ => nofun⟩
  | succ fuel ih => exact ⟨ih.value_succ, ih.items_succ, ih.members_succ⟩

end Json.Read

/-- The doubles of a text are finite. -/
theorem Draft.finite_ofText (text : List Char) : (Draft.ofText text).1.Finite :=
  (Json.Read.readsFinite _).value text

end QueryTree
