import Mathlib.Data.List.Permutation
import QueryTree.Proofs.Json.Yields

/-! Objects with their members in another order.  `Draft.Rearranged d e` says that `e` is `d` but
for the order of members, in objects at any depth.  Nothing that a draft is refused for depends on
that order, and a reader that is put together from texts, choices, lists and records gives the same
value for both drafts (`Reader.IgnoresOrder`): the members of a record are taken in one by one, and
two of them can be exchanged, because what the one puts down the other leaves alone. -/

namespace QueryTree

namespace Draft

/-- The second draft is the first but for the order of members in objects. -/
inductive Rearranged : Draft → Draft → Prop
  | refl (d : Draft) : Rearranged d d
  | array {items items' : List Draft} (ending : Ending)
      (below : List.Forall₂ Rearranged items items') :
    Rearranged (.array items ending) (.array items' ending)
  | object {members between members' : List (Option String × Draft)} (ending : Ending)
      (names : members.map Prod.fst = between.map Prod.fst)
      (below : List.Forall₂ Rearranged (members.map Prod.snd) (between.map Prod.snd))
      (order : between.Perm members') :
    Rearranged (.object members ending) (.object members' ending)

/-- Members of one name whose values are rearranged. -/
def MemberRearranged (m m' : Option String × Draft) : Prop :=
  m.1 = m'.1 ∧ m.2.Rearranged m'.2

theorem forall₂_memberRearranged {members between : List (Option String × Draft)}
    (names : members.map Prod.fst = between.map Prod.fst)
    (below : List.Forall₂ Rearranged (members.map Prod.snd) (between.map Prod.snd)) :
    List.Forall₂ MemberRearranged members between := by
  induction members generalizing between with
  | nil =>
    cases between with
    | nil => exact .nil
    | cons m between => cases names
  | cons m members ih =>
    cases between with
    | nil => cases names
    | cons m' between =>
      obtain ⟨hName, hNames⟩ := List.cons_eq_cons.mp names
      obtain ⟨hFirst, hBelow⟩ := List.forall₂_cons.mp below
      exact .cons ⟨hName, hFirst⟩ (ih hNames hBelow)

theorem Rearranged.of_perm {members members' : List (Option String × Draft)} (ending : Ending)
    (order : members.Perm members') :
    (Draft.object members ending).Rearranged (.object members' ending) :=
  .object ending rfl (List.forall₂_same.mpr fun d _ => .refl d) order

/-- What holds of a draft whenever it holds of what stands between its brackets holds of every
draft. -/
@[elab_as_elim]
theorem induction {motive : Draft → Prop}
    (step : ∀ d, (∀ ds, d.within? = some ds → ∀ e ∈ ds, motive e) → motive d) (d : Draft) :
    motive d :=
  step d fun ds hds e he =>
    have : sizeOf e < sizeOf d := by
      cases d with
      | array items ending =>
        cases hds
        have := List.sizeOf_lt_of_mem he
        rw [array.sizeOf_spec]
        omega
      | object members ending =>
        cases hds
        obtain ⟨⟨name, e⟩, hm, rfl⟩ := List.mem_map.mp he
        have := List.sizeOf_lt_of_mem hm
        rw [Prod.mk.sizeOf_spec] at this
        rw [object.sizeOf_spec]
        show sizeOf e < _
        omega
      | _ => cases hds
    induction step e
termination_by sizeOf d

end Draft

theorem exists_mem_of_forall₂ {α β : Type} {R : α → β → Prop} {xs : List α} {ys : List β}
    (h : List.Forall₂ R xs ys) : ∀ y ∈ ys, ∃ x ∈ xs, R x y := by
  induction h with
  | nil => nofun
  | cons hFirst _ ih =>
    intro y hy
    rcases List.mem_cons.mp hy with rfl | hy
    · exact ⟨_, List.mem_cons_self, hFirst⟩
    · obtain ⟨x, hx, hR⟩ := ih y hy
      exact ⟨x, List.mem_cons_of_mem _ hx, hR⟩

/-! ### Refusals -/

namespace Draft

theorem itemsSkimRefusal?_eq_none_iff {items : List Draft} :
    itemsSkimRefusal? items = none ↔ ∀ e ∈ items, e.skimRefusal? = none := by
  induction items with
  | nil => simp [itemsSkimRefusal?]
  | cons d rest ih => simp [itemsSkimRefusal?, ih]

theorem membersSkimRefusal?_eq_none_iff {members : List (Option String × Draft)} :
    membersSkimRefusal? members = none ↔ ∀ m ∈ members, m.2.skimRefusal? = none := by
  induction members with
  | nil => simp [membersSkimRefusal?]
  | cons m rest ih => simp [membersSkimRefusal?, ih]

namespace Rearranged

variable {d e : Draft}

/-- A property passes to a rearranged draft if an array or object has it exactly when all that
stands between the brackets does, one level deeper; `O`, `N` and `E` are what it asks of the level,
of each name and of the ending. -/
theorem transfer {P : Nat → Draft → Prop} {O : Nat → Prop} {N : Option String → Prop}
    {E : Ending → Prop}
    (hArray : ∀ n items ending, P n (.array items ending) ↔
      O n ∧ (∀ e ∈ items, P (n - 1) e) ∧ E ending)
    (hObject : ∀ n members ending, P n (.object members ending) ↔
      O n ∧ (∀ m ∈ members, N m.1 ∧ P (n - 1) m.2) ∧ E ending)
    (n : Nat) (h : d.Rearranged e) (hd : P n d) : P n e := by
  induction d using Draft.induction generalizing e n with
  | step d ih =>
    cases h with
    | refl => exact hd
    | array ending below =>
      obtain ⟨hOpen, hItems, hEnds⟩ := (hArray _ _ _).mp hd
      apply (hArray _ _ _).mpr
      refine ⟨hOpen, fun e' he' => ?_, hEnds⟩
      obtain ⟨e, he, hBelow⟩ := exists_mem_of_forall₂ below e' he'
      exact ih _ rfl e he (n - 1) hBelow (hItems e he)
    | object ending names below order =>
      obtain ⟨hOpen, hMembers, hEnds⟩ := (hObject _ _ _).mp hd
      apply (hObject _ _ _).mpr
      refine ⟨hOpen, fun m' hm' => ?_, hEnds⟩
      obtain ⟨m, hm, hName, hBelow⟩ := exists_mem_of_forall₂
        (forall₂_memberRearranged names below) m' (order.mem_iff.mpr hm')
      obtain ⟨hNamed, hValue⟩ := hMembers m hm
      rw [← hName]
      exact ⟨hNamed, ih _ rfl m.2 (List.mem_map_of_mem hm) (n - 1) hBelow hValue⟩

theorem refusal? {room : Nat} (h : d.Rearranged e) (hd : d.refusal? room = none) :
    e.refusal? room = none :=
  transfer (P := fun room d => d.refusal? room = none) (N := fun name => name ≠ none)
    (fun _ _ _ => refusal?_array_eq_none_iff) (fun _ _ _ => refusal?_object_eq_none_iff) room h hd

theorem skimRefusal? (h : d.Rearranged e) (hd : d.skimRefusal? = none) :
    e.skimRefusal? = none := by
  apply transfer (P := fun _ d => d.skimRefusal? = none) (O := fun _ => True)
    (N := fun _ => True) (E := fun ending => ending.skimRefusal? = none) ?_ ?_ 0 h hd
  · intro n items ending
    simp [Draft.skimRefusal?, itemsSkimRefusal?_eq_none_iff]
  · intro n members ending
    simp [Draft.skimRefusal?, membersSkimRefusal?_eq_none_iff]

theorem eq_of_object_nil {ending : Ending} (h : (Draft.object [] ending).Rearranged e) :
    e = .object [] ending := by
  cases h with
  | refl => rfl
  | object _ names below order =>
    rw [List.map_eq_nil_iff.mp names.symm] at order
    rw [order.nil_eq]

theorem of_object_singleton {name : Option String} {ending : Ending}
    (h : (Draft.object [(name, d)] ending).Rearranged e) :
    ∃ d', e = .object [(name, d')] ending ∧ d.Rearranged d' := by
  cases h with
  | refl => exact ⟨d, rfl, .refl d⟩
  | object _ names below order =>
    obtain ⟨⟨name', d'⟩, between, ⟨hName, hValue⟩, hNil, rfl⟩ :=
      List.forall₂_cons_left_iff.mp (forall₂_memberRearranged names below)
    cases hName
    rw [List.forall₂_nil_left_iff.mp hNil] at order
    rw [← List.singleton_perm.mp order]
    exact ⟨d', rfl, hValue⟩

theorem keep {mode : Mode} (h : d.Rearranged e) (hd : mode.keep d = .ok ()) :
    mode.keep e = .ok () := by
  cases mode with
  | buffered => rfl
  | streaming room => rw [Mode.keep, h.refusal? (refuse?_ok hd)]; rfl

theorem skim {mode : Mode} (h : d.Rearranged e) (hd : mode.skim d = .ok ()) :
    mode.skim e = .ok () := by
  cases mode with
  | buffered => rfl
  | streaming room => rw [Mode.skim, h.skimRefusal? (refuse?_ok hd)]; rfl

end Rearranged

end Draft

open Draft (Rearranged MemberRearranged)

/-! ### Readers -/

/-- The reader gives the same value when members stand in another order. -/
def Reader.IgnoresOrder {α : Type} (r : Reader α) : Prop :=
  ∀ ⦃mode : Mode⦄ ⦃d e : Draft⦄ ⦃a : α⦄, d.Rearranged e → r mode d = .ok a → r mode e = .ok a

namespace Reader.IgnoresOrder

variable {α β : Type} {r : Reader α}

theorem bind (h : r.IgnoresOrder) (k : α → Decoded β) :
    IgnoresOrder (fun mode d => r mode d >>= k) := by
  intro mode d e b hOrder hRead
  obtain ⟨a, ha, hb⟩ := bind_ok hRead
  show r mode e >>= k = .ok b
  rw [h hOrder ha]
  exact hb

theorem map (h : r.IgnoresOrder) {g : α → β} {mode : Mode} {d e : Draft} {b : β}
    (hOrder : d.Rearranged e) (hRead : (r mode d).map g = .ok b) : (r mode e).map g = .ok b := by
  obtain ⟨a, ha, hb⟩ := map_ok hRead
  rw [h hOrder ha, ← hb]
  rfl

theorem text : Reader.text.IgnoresOrder := by
  intro mode d e s hOrder hRead
  cases hOrder with
  | refl => exact hRead
  | array | object => cases hRead

theorem option (h : r.IgnoresOrder) : r.option.IgnoresOrder := by
  intro mode d e o hOrder hRead
  cases hOrder with
  | refl => exact hRead
  | array ending below => exact h.map (.array ending below) hRead
  | object ending names below order => exact h.map (.object ending names below order) hRead

theorem items (h : r.IgnoresOrder) {mode : Mode} {ds es : List Draft} {as : List α}
    (hOrder : List.Forall₂ Rearranged ds es) (hRead : Reader.items r mode ds = .ok as) :
    Reader.items r mode es = .ok as := by
  induction hOrder generalizing as with
  | nil => exact hRead
  | cons hFirst _ ih =>
    obtain ⟨a, ha, hMore⟩ := bind_ok hRead
    obtain ⟨as, has, hOk⟩ := bind_ok hMore
    rw [Reader.items, h hFirst ha, ih has]
    exact hOk

theorem list (h : r.IgnoresOrder) : r.list.IgnoresOrder := by
  intro mode d e as hOrder hRead
  cases hOrder with
  | refl => exact hRead
  | object => cases hRead
  | array ending below =>
    obtain ⟨inner, hInner, hMore⟩ := bind_ok hRead
    obtain ⟨as, has, hEnd⟩ := bind_ok hMore
    rw [Reader.list, hInner, ok_bind, h.items below has]
    exact hEnd

theorem nothing : Reader.nothing.IgnoresOrder := by
  intro mode d e u hOrder hRead
  cases d with
  | object members ending =>
    cases members with
    | nil =>
      rw [hOrder.eq_of_object_nil]
      exact hRead
    | cons => cases mode <;> cases hRead
  | array => cases mode <;> cases hRead
  | _ =>
    cases hOrder
    exact hRead

theorem streamedChoice {all : List α} {name : α → String} {mode : Mode} {d e : Draft} {a : α}
    (hOrder : d.Rearranged e) (hRead : Reader.streamedChoice all name mode d = .ok a) :
    Reader.streamedChoice all name mode e = .ok a := by
  cases d with
  | object members ending =>
    cases members with
    | nil =>
      rw [hOrder.eq_of_object_nil]
      exact hRead
    | cons m more =>
      obtain ⟨_ | s, content⟩ := m
      · cases hRead
      · obtain ⟨inner, hInner, hMore⟩ := bind_ok hRead
        obtain ⟨b, hb, hRest⟩ := bind_ok hMore
        obtain ⟨u, hu, hEnd⟩ := bind_ok hRest
        split at hEnd
        · obtain ⟨content', rfl, hContent⟩ := hOrder.of_object_singleton
          rw [Reader.streamedChoice, hInner, ok_bind, hb, ok_bind, nothing hContent hu]
          exact hEnd
        · cases hEnd
        · cases hEnd
  | array => cases hRead
  | _ =>
    cases hOrder
    exact hRead

theorem bufferedChoice {all : List α} {name : α → String} {d e : Draft} {a : α}
    (hOrder : d.Rearranged e) (hRead : Reader.bufferedChoice all name d = .ok a) :
    Reader.bufferedChoice all name e = .ok a := by
  cases d with
  | object members ending =>
    rw [Reader.bufferedChoice.eq_def] at hRead
    split at hRead
    · next hString => cases hString
    · next hObject =>
      cases hObject
      obtain ⟨b, hb, hMore⟩ := bind_ok hRead
      obtain ⟨u, hu, hEnd⟩ := bind_ok hMore
      obtain ⟨content', rfl, hContent⟩ := hOrder.of_object_singleton
      rw [Reader.bufferedChoice, hb, ok_bind, nothing hContent hu]
      exact hEnd
    · cases hRead
    · cases hRead
  | array => cases hRead
  | _ =>
    cases hOrder
    exact hRead

/-- Where a choice is an object, that has one member only. -/
theorem choice (all : List α) (name : α → String) : (Reader.choice all name).IgnoresOrder := by
  intro mode d e a hOrder hRead
  cases mode with
  | streaming => exact streamedChoice hOrder hRead
  | buffered => exact bufferedChoice hOrder hRead

end Reader.IgnoresOrder

/-! ### Steps that can fail -/

section Steps

variable {ε α σ : Type} {f : σ → α → Except ε σ}

/-- Two steps can be exchanged if both succeed. -/
def Exchangeable (f : σ → α → Except ε σ) : Prop :=
  ∀ ⦃a b : α⦄ ⦃s t u : σ⦄, f s a = .ok t → f t b = .ok u →
    ∃ t', f s b = .ok t' ∧ f t' a = .ok u

theorem foldlM_cons_ok {a : α} {xs : List α} {s u : σ} (h : (a :: xs).foldlM f s = .ok u) :
    ∃ t, f s a = .ok t ∧ xs.foldlM f t = .ok u := by
  rw [List.foldlM_cons] at h
  exact bind_ok h

theorem foldlM_cons_of_ok {a : α} {xs : List α} {s t u : σ} (h : f s a = .ok t)
    (hRest : xs.foldlM f t = .ok u) : (a :: xs).foldlM f s = .ok u := by
  rw [List.foldlM_cons, h]
  exact hRest

theorem foldlM_ok_of_perm (hStep : Exchangeable f) {xs ys : List α} (h : xs.Perm ys) :
    ∀ {s u : σ}, xs.foldlM f s = .ok u → ys.foldlM f s = .ok u := by
  induction h with
  | nil => exact id
  | cons a _ ih =>
    intro s u hRun
    obtain ⟨t, ht, hRest⟩ := foldlM_cons_ok hRun
    exact foldlM_cons_of_ok ht (ih hRest)
  | swap a b xs =>
    intro s u hRun
    obtain ⟨t, hb, hMore⟩ := foldlM_cons_ok hRun
    obtain ⟨t', ha, hRest⟩ := foldlM_cons_ok hMore
    obtain ⟨w, hFirst, hSecond⟩ := hStep hb ha
    exact foldlM_cons_of_ok hFirst (foldlM_cons_of_ok hSecond hRest)
  | trans _ _ ih ih' => exact fun hRun => ih' (ih hRun)

theorem foldlM_ok_of_forall₂ {R : α → α → Prop}
    (hStep : ∀ ⦃a b : α⦄ ⦃s t : σ⦄, R a b → f s a = .ok t → f s b = .ok t)
    {xs ys : List α} (h : List.Forall₂ R xs ys) :
    ∀ {s u : σ}, xs.foldlM f s = .ok u → ys.foldlM f s = .ok u := by
  induction h with
  | nil => exact id
  | cons hFirst _ ih =>
    intro s u hRun
    obtain ⟨t, ht, hRest⟩ := foldlM_cons_ok hRun
    exact foldlM_cons_of_ok (hStep hFirst ht) (ih hRest)

end Steps

/-! ### Records -/

namespace Layout

/-- Takes in a member, which must have a name. -/
def take {ρ σ : Type} (layout : Layout ρ σ) (mode : Mode) (found : σ)
    (m : Option String × Draft) : Decoded σ :=
  match m with
  | (none, _) => .error (.refused .malformed)
  | (some name, d) => layout.put mode name d found

theorem putAll_eq_foldlM {ρ σ : Type} (layout : Layout ρ σ) (mode : Mode)
    (ms : List (Option String × Draft)) (found : σ) :
    layout.putAll mode ms found = ms.foldlM (layout.take mode) found := by
  induction ms generalizing found with
  | nil => rfl
  | cons m ms ih =>
    rw [List.foldlM_cons]
    obtain ⟨_ | name, d⟩ := m
    · rfl
    · simp only [putAll, take, ih]

/-- A member is put down in the place of its field, or nowhere; so what two members put down is in
different places, or the second is refused. -/
theorem put_exchange {mode : Mode} {name name' : String} {d d' : Draft} : {ρ σ : Type} →
    {layout : Layout ρ σ} → {s t u : σ} → layout.put mode name d s = .ok t →
    layout.put mode name' d' t = .ok u →
    ∃ t', layout.put mode name' d' s = .ok t' ∧ layout.put mode name d t' = .ok u
  | _, _, .done, s, t, u, h, h' => by
    obtain ⟨_, hSkim, hOk⟩ := bind_ok h
    cases hOk
    obtain ⟨_, hSkim', hOk⟩ := bind_ok h'
    cases hOk
    exact ⟨s, h', h⟩
  | _, _, .field f rest, (found, more), t, u, h, h' => by
    simp only [put] at h
    split at h
    · next hName =>
      split at h
      · cases h
      · obtain ⟨a, ha, hOk⟩ := bind_ok h
        cases hOk
        simp only [put] at h'
        split at h'
        · cases h'
        · next hName' =>
          obtain ⟨more', hMore, hOk⟩ := bind_ok h'
          cases hOk
          refine ⟨(none, more'), ?_, ?_⟩
          · simp only [put, hName', hMore]
            rfl
          · simp only [put, hName, ha]
            rfl
    · next hName =>
      obtain ⟨more₁, hMore₁, hOk⟩ := bind_ok h
      cases hOk
      simp only [put] at h'
      split at h'
      · next hName' =>
        split at h'
        · cases h'
        · obtain ⟨a, ha, hOk⟩ := bind_ok h'
          cases hOk
          refine ⟨(some a, more), ?_, ?_⟩
          · simp only [put, hName', ha]
            rfl
          · simp only [put, hName, hMore₁]
            rfl
      · next hName' =>
        obtain ⟨more₂, hMore₂, hOk⟩ := bind_ok h'
        cases hOk
        obtain ⟨more', hFirst, hSecond⟩ := put_exchange hMore₁ hMore₂
        refine ⟨(found, more'), ?_, ?_⟩
        · simp only [put, hName', hFirst]
          rfl
        · simp only [put, hName, hSecond]
          rfl

theorem exchangeable_take {ρ σ : Type} (layout : Layout ρ σ) (mode : Mode) :
    Exchangeable (layout.take mode) := by
  intro m m' s t u h h'
  obtain ⟨_ | name, d⟩ := m
  · cases h
  obtain ⟨_ | name', d'⟩ := m'
  · cases h'
  exact put_exchange h h'

/-- The readers of all fields give the same value when members stand in another order. -/
inductive IgnoresOrder : {ρ σ : Type} → Layout ρ σ → Prop
  | done : IgnoresOrder .done
  | field {α β σ : Type} {f : Field α} {rest : Layout β σ} (first : f.read.IgnoresOrder)
      (more : IgnoresOrder rest) : IgnoresOrder (.field f rest)

namespace IgnoresOrder

variable {ρ σ : Type} {layout : Layout ρ σ} {mode : Mode}

theorem put {name : String} {d e : Draft} {s t : σ} (h : layout.IgnoresOrder)
    (hOrder : d.Rearranged e) (hPut : layout.put mode name d s = .ok t) :
    layout.put mode name e s = .ok t := by
  induction h with
  | done =>
    obtain ⟨_, hSkim, hOk⟩ := bind_ok hPut
    rw [Layout.put, hOrder.skim hSkim]
    exact hOk
  | field first _ ih =>
    obtain ⟨found, more⟩ := s
    simp only [Layout.put] at hPut ⊢
    split at hPut
    · next hName =>
      rw [if_pos hName]
      split at hPut
      · cases hPut
      · obtain ⟨a, ha, hOk⟩ := bind_ok hPut
        rw [first hOrder ha]
        exact hOk
    · next hName =>
      obtain ⟨more', hMore, hOk⟩ := bind_ok hPut
      rw [if_neg hName, ih hMore]
      exact hOk

theorem take {m m' : Option String × Draft} {s t : σ} (h : layout.IgnoresOrder)
    (hOrder : MemberRearranged m m') (hTake : layout.take mode s m = .ok t) :
    layout.take mode s m' = .ok t := by
  obtain ⟨_ | name, d⟩ := m
  · cases hTake
  obtain ⟨name', d'⟩ := m'
  obtain ⟨hName, hValue⟩ := hOrder
  cases hName
  exact h.put hValue hTake

theorem putAll {members between members' : List (Option String × Draft)} {s t : σ}
    (h : layout.IgnoresOrder) (below : List.Forall₂ MemberRearranged members between)
    (order : between.Perm members') (hPut : layout.putAll mode members s = .ok t) :
    layout.putAll mode members' s = .ok t := by
  rw [putAll_eq_foldlM] at hPut ⊢
  have hBetween := foldlM_ok_of_forall₂ (f := layout.take mode)
    (fun _ _ _ _ hMember hTake => h.take hMember hTake) below hPut
  exact foldlM_ok_of_perm (layout.exchangeable_take mode) order hBetween

theorem positional {items items' : List Draft} {ending : Ending} {a : ρ}
    (h : layout.IgnoresOrder) (below : List.Forall₂ Rearranged items items')
    (hRead : layout.positional mode items ending = .ok a) :
    layout.positional mode items' ending = .ok a := by
  induction h generalizing items items' with
  | done =>
    cases below with
    | nil => exact hRead
    | cons => cases mode <;> cases hRead
  | field first _ ih =>
    cases below with
    | nil => exact hRead
    | cons hFirst hRest =>
      obtain ⟨b, hb, hMore⟩ := bind_ok hRead
      obtain ⟨c, hc, hOk⟩ := bind_ok hMore
      rw [Layout.positional, first hFirst hb, ok_bind, ih hRest hc]
      exact hOk

theorem read (h : layout.IgnoresOrder) : layout.read.IgnoresOrder := by
  intro mode d e a hOrder hRead
  cases hOrder with
  | refl => exact hRead
  | array ending below =>
    obtain ⟨inner, hInner, hItems⟩ := bind_ok hRead
    rw [Layout.read, hInner]
    exact h.positional below hItems
  | object ending names below order =>
    obtain ⟨inner, hInner, hMore⟩ := bind_ok hRead
    obtain ⟨found, hFound, hEnd⟩ := bind_ok hMore
    rw [Layout.read, hInner, ok_bind,
      h.putAll (Draft.forall₂_memberRearranged names below) order hFound]
    exact hEnd

end IgnoresOrder

end Layout

end QueryTree
