import QueryTree.Proofs.Json.Decoding
import QueryTree.Proofs.Json.Drafts

/-! What decoding can give, whatever the text.  `Reader.Yields r P` says that each value of the
reader `r` satisfies `P n`, where `n` bounds how deep the document can nest: in a streamed document
there is no more room than that, and a buffered one is known to nest no deeper.  A record hands the
property of each of its fields on, whether it is written as an object or as an array and whatever is
left out (`Layout.read_ok`). -/

namespace QueryTree

namespace Mode

/-- What is read from the draft in the mode nests at most `n` deep. -/
def Allows (n : Nat) : Mode → Draft → Prop
  | .streaming room, _ => room ≤ n
  | .buffered, d => d.Nests n

section Allows

variable {mode inner : Mode} {d : Draft} {ds : List Draft} {n : Nat}

theorem Allows.enter (h : mode.Allows n d) (hInner : mode.enter = .ok inner)
    (hds : d.within? = some ds) : 0 < n ∧ ∀ e ∈ ds, inner.Allows (n - 1) e := by
  cases mode with
  | streaming room =>
    replace h : room ≤ n := h
    cases room with
    | zero => cases hInner
    | succ room =>
      cases hInner
      refine ⟨by omega, fun e _ => ?_⟩
      show room ≤ n - 1
      omega
  | buffered =>
    cases hInner
    cases n with
    | zero =>
      rw [show d.within? = none from h] at hds
      cases hds
    | succ n => exact ⟨n.succ_pos, h ds hds⟩

theorem Allows.nests (h : mode.Allows n d) (hKeep : mode.keep d = .ok ()) : d.Nests n := by
  cases mode with
  | streaming room => exact (Draft.nests_of_refusal? (refuse?_ok hKeep)).mono h
  | buffered => exact h

end Allows

end Mode

/-- A value of the reader satisfies `P n` if the document can nest at most `n` deep. -/
def Reader.Yields {α : Type} (r : Reader α) (P : Nat → α → Prop) : Prop :=
  ∀ ⦃mode : Mode⦄ ⦃d : Draft⦄ ⦃a : α⦄ ⦃n : Nat⦄,
    d.Finite → mode.Allows n d → r mode d = .ok a → P n a

namespace Reader.Yields

variable {α : Type} {r : Reader α} {P : Nat → α → Prop}

theorem anything (r : Reader α) : r.Yields fun _ _ => True := fun _ _ _ _ _ _ _ => trivial

theorem option (h : r.Yields P) : r.option.Yields fun n o => ∀ a, o = some a → P n a := by
  intro mode d o n hFinite hAllows hRead a ha
  subst ha
  rw [Reader.option.eq_def] at hRead
  split at hRead
  · cases hRead
  · cases hRead
  · obtain ⟨b, hb, hSome⟩ := map_ok hRead
    cases hSome
    exact h hFinite hAllows hb

theorem items (h : r.Yields P) {mode : Mode} {n : Nat} {ds : List Draft} {as : List α}
    (hDs : ∀ e ∈ ds, e.Finite ∧ mode.Allows n e) (hRead : Reader.items r mode ds = .ok as) :
    ∀ a ∈ as, P n a := by
  induction ds generalizing as with
  | nil =>
    cases hRead
    simp
  | cons d rest ih =>
    obtain ⟨b, hb, hMore⟩ := bind_ok hRead
    obtain ⟨bs, hbs, hList⟩ := bind_ok hMore
    cases hList
    obtain ⟨hFirst, hRest⟩ := List.forall_mem_cons.mp hDs
    exact List.forall_mem_cons.mpr ⟨h hFirst.1 hFirst.2 hb, ih hRest hbs⟩

theorem list (h : r.Yields P) : r.list.Yields fun n as => 0 < n ∧ ∀ a ∈ as, P (n - 1) a := by
  intro mode d as n hFinite hAllows hRead
  cases d with
  | array ds ending =>
    obtain ⟨inner, hInner, hMore⟩ := bind_ok hRead
    obtain ⟨bs, hbs, hEnd⟩ := bind_ok hMore
    obtain ⟨⟨⟩, -, hList⟩ := bind_ok hEnd
    cases hList
    obtain ⟨hPos, hDs⟩ := hAllows.enter hInner rfl
    exact ⟨hPos, h.items (fun e he => ⟨hFinite.within rfl e he, hDs e he⟩) hbs⟩
  | _ => cases hRead

end Reader.Yields

/-! ### Records -/

/-- The value of a field satisfies `P n` if the document can nest at most `n` deep, also when the
field is left out. -/
structure Field.Yields {α : Type} (f : Field α) (P : Nat → α → Prop) : Prop where
  read : f.read.Yields P
  absent : ∀ a, f.absent = some a → ∀ n, P n a

namespace Layout

/-- Each field has its default or is read from one of the drafts. -/
def Reads (mode : Mode) (ds : List Draft) : {ρ σ : Type} → Layout ρ σ → ρ → Prop
  | _, _, .done, _ => True
  | _, _, .field f rest, (a, b) =>
    (f.absent = some a ∨ ∃ d ∈ ds, f.read mode d = .ok a) ∧ rest.Reads mode ds b

/-- Each field that was found is read from one of the drafts. -/
def Found (mode : Mode) (ds : List Draft) : {ρ σ : Type} → Layout ρ σ → σ → Prop
  | _, _, .done, _ => True
  | _, _, .field f rest, (found, more) =>
    (∀ a, found = some a → ∃ d ∈ ds, f.read mode d = .ok a) ∧ rest.Found mode ds more

section Inversion

variable {mode : Mode} {ds : List Draft}

theorem found_empty : {ρ σ : Type} → (layout : Layout ρ σ) → layout.Found mode ds layout.empty
  | _, _, .done => trivial
  | _, _, .field _ rest => ⟨nofun, found_empty rest⟩

theorem Found.put {name : String} {d : Draft} (hd : d ∈ ds) : {ρ σ : Type} →
    {layout : Layout ρ σ} → {found found' : σ} → layout.Found mode ds found →
    layout.put mode name d found = .ok found' → layout.Found mode ds found'
  | _, _, .done, _, _, _, _ => trivial
  | _, _, .field f rest, (found, more), found', h, hPut => by
    simp only [Layout.put] at hPut
    split at hPut
    · split at hPut
      · cases hPut
      · obtain ⟨a, ha, hOk⟩ := bind_ok hPut
        cases hOk
        exact ⟨fun b hb => ⟨d, hd, Option.some.inj hb ▸ ha⟩, h.2⟩
    · obtain ⟨more', hMore, hOk⟩ := bind_ok hPut
      cases hOk
      exact ⟨h.1, Found.put hd h.2 hMore⟩

theorem Found.putAll {ρ σ : Type} {layout : Layout ρ σ} {ms : List (Option String × Draft)}
    {found found' : σ} (hms : ∀ m ∈ ms, m.2 ∈ ds) (h : layout.Found mode ds found)
    (hPut : layout.putAll mode ms found = .ok found') : layout.Found mode ds found' := by
  induction ms generalizing found with
  | nil =>
    cases hPut
    exact h
  | cons m rest ih =>
    obtain ⟨hFirst, hRest⟩ := List.forall_mem_cons.mp hms
    obtain ⟨_ | name, d⟩ := m
    · cases hPut
    · obtain ⟨next, hNext, hMore⟩ := bind_ok hPut
      exact ih hRest (h.put hFirst hNext) hMore

theorem Found.finish : {ρ σ : Type} → {layout : Layout ρ σ} → {found : σ} → {a : ρ} →
    layout.Found mode ds found → layout.finish found = .ok a → layout.Reads mode ds a
  | _, _, .done, _, _, _, _ => trivial
  | _, _, .field f rest, (found, more), _, h, hFinish => by
    simp only [Layout.finish] at hFinish
    split at hFinish
    · next a ha =>
      obtain ⟨b, hb, hOk⟩ := bind_ok (x := rest.finish more) hFinish
      cases hOk
      refine ⟨?_, h.2.finish hb⟩
      rcases Option.or_eq_some_iff.mp ha with hFound | ⟨-, hAbsent⟩
      · exact .inr (h.1 a hFound)
      · exact .inl hAbsent
    · cases hFinish

theorem reads_of_positional {ending : Ending} : {ρ σ : Type} → {layout : Layout ρ σ} →
    {items : List Draft} → {a : ρ} → items ⊆ ds →
    layout.positional mode items ending = .ok a → layout.Reads mode ds a
  | _, _, .done, _, _, _, _ => trivial
  | _, _, .field f rest, [], _, hItems, h => by
    obtain ⟨⟨⟩, -, hMore⟩ := bind_ok h
    split at hMore
    · cases hMore
    · next a hAbsent =>
      obtain ⟨b, hb, hOk⟩ := bind_ok hMore
      cases hOk
      exact ⟨.inl hAbsent, reads_of_positional hItems hb⟩
  | _, _, .field f rest, d :: items, _, hItems, h => by
    obtain ⟨a, ha, hMore⟩ := bind_ok h
    obtain ⟨b, hb, hOk⟩ := bind_ok hMore
    cases hOk
    obtain ⟨hd, hRest⟩ := List.cons_subset.mp hItems
    exact ⟨.inr ⟨d, hd, ha⟩, reads_of_positional hRest hb⟩

end Inversion

/-- A record is read from what stands between the brackets of an object or array. -/
theorem read_ok {ρ σ : Type} {layout : Layout ρ σ} {mode : Mode} {d : Draft} {a : ρ}
    (h : layout.read mode d = .ok a) : ∃ inner ds, mode.enter = .ok inner ∧
      d.within? = some ds ∧ layout.Reads inner ds a := by
  cases d with
  | object members ending =>
    obtain ⟨inner, hInner, hMore⟩ := bind_ok h
    obtain ⟨found, hFound, hEnd⟩ := bind_ok hMore
    obtain ⟨⟨⟩, -, hFinish⟩ := bind_ok hEnd
    refine ⟨inner, _, hInner, rfl, ?_⟩
    exact ((found_empty layout).putAll (fun m hm => List.mem_map_of_mem hm) hFound).finish hFinish
  | array items ending =>
    obtain ⟨inner, hInner, hItems⟩ := bind_ok h
    exact ⟨inner, items, hInner, rfl, reads_of_positional (fun _ => id) hItems⟩
  | _ => cases h

/-- The values of the fields satisfy `P n` together if the document can nest at most `n` deep. -/
inductive Yields : {ρ σ : Type} → Layout ρ σ → (Nat → ρ → Prop) → Prop
  | done : Yields .done fun _ _ => True
  | field {α β σ : Type} {f : Field α} {rest : Layout β σ} {P : Nat → α → Prop}
      {Q : Nat → β → Prop} (first : f.Yields P) (more : Yields rest Q) :
      Yields (.field f rest) fun n r => P n r.1 ∧ Q n r.2

theorem Yields.of_reads {ρ σ : Type} {layout : Layout ρ σ} {P : Nat → ρ → Prop} {mode : Mode}
    {ds : List Draft} {n : Nat} {a : ρ} (h : layout.Yields P)
    (hDs : ∀ e ∈ ds, e.Finite ∧ mode.Allows n e) (hReads : layout.Reads mode ds a) : P n a := by
  induction h with
  | done => trivial
  | field first more ih =>
    obtain ⟨hField, hRest⟩ := hReads
    refine ⟨?_, ih hRest⟩
    rcases hField with hAbsent | ⟨d, hd, hRead⟩
    · exact first.absent _ hAbsent n
    · exact first.read (hDs d hd).1 (hDs d hd).2 hRead

theorem Yields.read {ρ σ : Type} {layout : Layout ρ σ} {P : Nat → ρ → Prop} (h : layout.Yields P) :
    layout.read.Yields fun n a => 0 < n ∧ P (n - 1) a := by
  intro mode d a n hFinite hAllows hRead
  obtain ⟨inner, ds, hInner, hds, hReads⟩ := read_ok hRead
  obtain ⟨hPos, hDs⟩ := hAllows.enter hInner hds
  exact ⟨hPos, h.of_reads (fun e he => ⟨hFinite.within hds e he, hDs e he⟩) hReads⟩

end Layout

end QueryTree
