import Mathlib.Data.List.SplitBy
import QueryTree.Proofs.Additions
import QueryTree.Proofs.Templates

/-! Raw text from a template is the template with its parameters in the holes.  What a question mark
stands for depends on the run of question marks that it belongs to: pairs, taken from the left,
stand for one mark each, and the mark that is left over in a run of odd length is a hole.
`Template.stencil` says this of the runs; reading finds the same holes by going through the
characters (`Template.split_eq_ofRuns`). -/

namespace QueryTree

namespace Template

/-- Whether both or neither of two characters are question marks. -/
def alike (a b : Char) : Bool := (a == '?') == (b == '?')

/-- The longest runs of question marks and of other characters, in order. -/
def runs (text : List Char) : List (List Char) := text.splitBy alike

/-- What a run stands for: half as many question marks, and a hole if one is left over; a run of
other characters stands for itself. -/
def runStencil (run : List Char) : Stencil :=
  if run.head? = some '?' then
    some (String.ofList (List.replicate (run.length / 2) '?')) ::
      if run.length % 2 = 1 then [none] else []
  else [some (String.ofList run)]

/-- A template as text with holes. -/
def stencil (template : String) : Stencil := (runs template.toList).flatMap runStencil

/-! ### Runs -/

/-- The fragments of a template, run by run. -/
def ofRuns : List (List Char) → List (List Char)
  | [] => [[]]
  | run :: rest =>
    if run.head? = some '?' then
      prepend (List.replicate (run.length / 2) '?')
        (if run.length % 2 = 1 then [] :: ofRuns rest else ofRuns rest)
    else prepend run (ofRuns rest)

theorem split_marks {rest : List Char} (h : rest.head? ≠ some '?') (n : Nat) :
    split (List.replicate n '?' ++ rest) = prepend (List.replicate (n / 2) '?')
      (if n % 2 = 1 then [] :: split rest else split rest) := by
  induction n using Nat.twoStepInduction with
  | zero => rfl
  | one => exact split_hole h
  | more n ih _ =>
    have hHalf : (n + 2) / 2 = n / 2 + 1 := by omega
    have hOdd : (n + 2) % 2 = n % 2 := by omega
    rw [hHalf, hOdd, List.replicate_succ, List.replicate_succ, List.cons_append, List.cons_append,
      split_pair, ih, List.replicate_succ]
    rfl

/-- The characters of a run are all like its first. -/
theorem alike_of_isChain {c : Char} {run : List Char}
    (h : (c :: run).IsChain fun a b => alike a b = true) : ∀ e ∈ c :: run, alike c e = true := by
  induction run generalizing c with
  | nil => simp [alike]
  | cons e run ih =>
    obtain ⟨hFirst, hRest⟩ := List.isChain_cons_cons.mp h
    intro x hx
    rcases List.mem_cons.mp hx with rfl | hx
    · simp [alike]
    · have hx := ih hRest x hx
      simp only [alike, beq_iff_eq] at hFirst hx ⊢
      exact hFirst.trans hx

theorem eq_mark_of_alike {c : Char} (h : alike '?' c = true) : c = '?' := by
  simpa [alike] using h

theorem ne_mark_of_alike {c e : Char} (hc : c ≠ '?') (h : alike c e = true) : e ≠ '?' := by
  simpa [alike, hc] using h

/-- What follows a run of question marks begins with another character. -/
theorem head?_flatten_ne_mark {run : List Char} {rest : List (List Char)}
    (hMarks : ∀ c ∈ run, c = '?')
    (hApart : (run :: rest).IsChain fun a b => ∃ ha hb, alike (a.getLast ha) (b.head hb) = false) :
    rest.flatten.head? ≠ some '?' := by
  cases rest with
  | nil => simp
  | cons next more =>
    obtain ⟨⟨hRun, hNext, hUnlike⟩, -⟩ := List.isChain_cons_cons.mp hApart
    obtain ⟨c, cs, rfl⟩ := List.exists_cons_of_ne_nil hNext
    rw [hMarks _ (List.getLast_mem hRun)] at hUnlike
    rintro hHead
    cases hHead
    cases hUnlike

/-- Reading character by character finds the fragments that the runs make. -/
theorem split_flatten {groups : List (List Char)} (hFilled : [] ∉ groups)
    (hRuns : ∀ run ∈ groups, run.IsChain fun a b => alike a b = true)
    (hApart : groups.IsChain fun a b => ∃ ha hb, alike (a.getLast ha) (b.head hb) = false) :
    split groups.flatten = ofRuns groups := by
  induction groups with
  | nil => rfl
  | cons run rest ih =>
    have hRest := ih (fun h => hFilled (List.mem_cons_of_mem run h))
      (fun g hg => hRuns g (List.mem_cons_of_mem run hg)) (List.isChain_cons.mp hApart).2
    have hAlike := hRuns run List.mem_cons_self
    cases run with
    | nil => exact absurd List.mem_cons_self hFilled
    | cons c cs =>
      have hSame := alike_of_isChain hAlike
      rw [List.flatten_cons, ofRuns, List.head?_cons, ← hRest]
      by_cases hc : c = '?'
      · subst hc
        have hMarks : ∀ e ∈ '?' :: cs, e = '?' := fun e he => eq_mark_of_alike (hSame e he)
        have hReplicate : '?' :: cs = List.replicate ('?' :: cs).length '?' :=
          List.eq_replicate_of_mem hMarks
        rw [if_pos rfl, ← split_marks (head?_flatten_ne_mark hMarks hApart), ← hReplicate]
      · rw [if_neg (fun h => hc (Option.some.inj h))]
        exact split_plain (fun e he => ne_mark_of_alike hc (hSame e he)) _

theorem split_eq_ofRuns (text : List Char) : split text = ofRuns (runs text) := by
  have hFlatten := split_flatten (List.nil_notMem_splitBy alike text)
    (fun _ => List.isChain_of_mem_splitBy) (List.isChain_getLast_head_splitBy alike text)
  rwa [List.flatten_splitBy] at hFlatten

/-! ### Fragments in place -/

theorem exists_ofRuns_eq (groups : List (List Char)) : ∃ f fs, ofRuns groups = f :: fs := by
  induction groups with
  | nil => exact ⟨[], [], rfl⟩
  | cons run rest ih =>
    obtain ⟨f, fs, hRest⟩ := ih
    rw [ofRuns, hRest]
    split
    · split <;> exact ⟨_, _, prepend_cons _ _ _⟩
    · exact ⟨_, _, prepend_cons _ _ _⟩

theorem length_ofRuns (groups : List (List Char)) :
    (ofRuns groups).length = Stencil.holes (groups.flatMap runStencil) + 1 := by
  induction groups with
  | nil => rfl
  | cons run rest ih =>
    obtain ⟨f, fs, hRest⟩ := exists_ofRuns_eq rest
    rw [hRest, List.length_cons] at ih
    rw [ofRuns, hRest, List.flatMap_cons, Stencil.holes_append, runStencil]
    -- only an odd run of question marks makes a hole, and a fragment with it
    split
    on_goal 1 => split
    all_goals
      simp only [prepend_cons, List.length_cons, Stencil.holes_some, Stencil.holes_none,
        Stencil.holes_nil]
      omega

end Template

open Template

theorem Emission.text_empty : Emission.text "" = Emission.nothing := by
  funext p
  simp [Emission.text, Emission.nothing]

theorem emitRaw_prepend (d : Dialect) (ns : List Node) (text f : List Char)
    (fs : List (List Char)) : emitRaw d ns ((prepend text (f :: fs)).map String.ofList) =
      Emission.text (String.ofList text) ++ emitRaw d ns ((f :: fs).map String.ofList) := by
  have hText : Emission.text (String.ofList (text ++ f)) =
      Emission.text (String.ofList text) ++ Emission.text (String.ofList f) := by
    rw [Emission.text_append_text, String.ofList_append]
  rw [prepend_cons, List.map_cons, List.map_cons]
  cases ns with
  | nil => simp only [emitRaw, Emission.texts, hText, Emission.append_assoc]
  | cons n ns => simp only [emitRaw, hText, Emission.append_assoc]

/-- Fragments and nodes in turn are the runs with the nodes in their holes. -/
theorem emitRaw_ofRuns (d : Dialect) {groups : List (List Char)} {ns : List Node}
    (h : (ofRuns groups).length = ns.length + 1) :
    emitRaw d ns ((ofRuns groups).map String.ofList) =
      Stencil.emit d (groups.flatMap runStencil) ns := by
  induction groups generalizing ns with
  | nil =>
    obtain rfl := List.length_eq_zero_iff.mp (Nat.succ.inj h).symm
    simp [ofRuns, emitRaw, Emission.texts, Emission.text_empty, Stencil.emit]
  | cons run rest ih =>
    obtain ⟨f, fs, hRest⟩ := exists_ofRuns_eq rest
    rw [hRest] at ih
    rw [ofRuns, hRest] at h ⊢
    rw [List.flatMap_cons, runStencil]
    by_cases hMarks : run.head? = some '?'
    · by_cases hOdd : run.length % 2 = 1
      · simp only [if_pos hMarks, if_pos hOdd, prepend_cons, List.length_cons] at h
        cases ns with
        | nil => cases h
        | cons n ns =>
          simp only [if_pos hMarks, if_pos hOdd, emitRaw_prepend]
          rw [List.map_cons, emitRaw, ih (Nat.succ.inj h), List.cons_append, Stencil.emit,
            List.cons_append, Stencil.emit]
          simp only [String.ofList_nil, Emission.text_empty, Emission.nothing_append,
            List.nil_append]
      · simp only [if_pos hMarks, if_neg hOdd, prepend_cons, List.length_cons] at h
        simp only [if_pos hMarks, if_neg hOdd, emitRaw_prepend]
        rw [ih h]
        rfl
    · simp only [if_neg hMarks, prepend_cons, List.length_cons] at h
      simp only [if_neg hMarks, emitRaw_prepend]
      rw [ih h]
      rfl

namespace Raw

theorem ofTemplate_ok {template : String} {ps : List Node} {r : Raw}
    (h : ofTemplate template ps = .ok r) :
    r = ⟨Template.fragments template, ps⟩ ∧
      (Template.fragments template).length = ps.length + 1 := by
  rw [ofTemplate, parse_eq] at h
  replace h : ofFragments (Template.fragments template) ps = .ok r := h
  by_cases hArity : (Template.fragments template).length = ps.length + 1
  · simp only [ofFragments, arityError?, if_pos hArity] at h
    cases h
    exact ⟨rfl, hArity⟩
  · simp only [ofFragments, arityError?, if_neg hArity] at h
    cases h

/-- The visit of raw text from a template writes the template with what each parameter adds in its
hole, every parameter being visited with the bindings that those before it have left; the bindings
are those of the parameters, in order.  It fails exactly if the visit of a parameter does, with the
error of the first such parameter. -/
theorem emit_substitutes {template : String} {ps : List Node} {r : Raw}
    (h : ofTemplate template ps = .ok r) (d : Dialect) (p : Progress) :
    (Template.stencil template).holes = ps.length ∧
    (∀ e, (r.emit d p).2 = some e ↔ visitInTurn d p ps = .error e) ∧
    (∀ added, visitInTurn d p ps = .ok added → r.emit d p = ({ p with
      sql := p.sql ++ (Template.stencil template).fill (added.map Addition.text)
      bindings := p.bindings ++ (added.flatMap Addition.values).toArray }, none)) := by
  obtain ⟨rfl, hArity⟩ := ofTemplate_ok h
  have hLength : (ofRuns (runs template.toList)).length = ps.length + 1 := by
    rw [← split_eq_ofRuns, ← hArity, Template.fragments, List.length_map]
  have hHoles : (Template.stencil template).holes = ps.length :=
    Nat.succ.inj ((length_ofRuns _).symm.trans hLength)
  have hEmit : emit d ⟨Template.fragments template, ps⟩ =
      (Template.stencil template).emit d ps := by
    rw [emit, arityError?, if_pos hArity, Template.fragments, split_eq_ofRuns,
      emitRaw_ofRuns d hLength]
    rfl
  rw [hEmit]
  have hFilled := Stencil.emit_filledBy (d := d) hHoles p
  exact ⟨hHoles, hFilled.fails_iff, hFilled.writes⟩

/-- The offers below a price. -/
def lowOffers : Query where
  sources := [.table none "offers"]
  condition := some (.binaryFilter (.identifier "price") "<" (.value (.int 10)))

theorem emit_substitutes_lowOffers :
    let p : Progress := { sql := "from t where ", bindings := #[.bool true], depth := 1 }
    let ps := [.value (.int 7), .query lowOffers]
    let added : List Addition := [
      { text := "$1", values := [.int 7] },
      { text := "(from \"offers\" where \"price\" < $2)", values := [.int 10] }]
    ∃ r, ofTemplate "tags ?? 'new' and x ??? or id in ?" ps = .ok r ∧
      visitInTurn .standard p ps = .ok added ∧
      (Template.stencil "tags ?? 'new' and x ??? or id in ?").fill (added.map Addition.text) =
        "tags ? 'new' and x ?$1 or id in (from \"offers\" where \"price\" < $2)" ∧
      r.emit .standard p = ({ p with
        sql := p.sql ++ (Template.stencil "tags ?? 'new' and x ??? or id in ?").fill
          (added.map Addition.text)
        bindings := p.bindings ++ (added.flatMap Addition.values).toArray }, none) := by
  intro p ps added
  have hTemplate : ofTemplate "tags ?? 'new' and x ??? or id in ?" ps =
      .ok ⟨["tags ? 'new' and x ?", " or id in ", ""], ps⟩ := by
    rw [ofTemplate, parse_eq]
    rfl
  have hAdded : visitInTurn .standard p ps = .ok added := by cbv
  exact ⟨_, hTemplate, hAdded, by decide +kernel,
    (emit_substitutes hTemplate .standard p).2.2 added hAdded⟩

end Raw

/-! ### How many parameters a template takes -/

namespace Template

/-- Question marks only, and an odd number of them. -/
def isOddMarks (run : List Char) : Bool := run.all (· == '?') && run.length % 2 == 1

/-- The number of the longest runs of question marks whose length is odd. -/
def oddRuns (template : String) : Nat := (runs template.toList).countP isOddMarks

theorem all_marks_iff {c : Char} {run : List Char}
    (h : (c :: run).IsChain fun a b => alike a b = true) :
    (c :: run).all (· == '?') = true ↔ c = '?' := by
  rw [List.all_eq_true]
  constructor
  · intro hAll
    exact beq_iff_eq.mp (hAll c List.mem_cons_self)
  · rintro rfl e he
    exact beq_iff_eq.mpr (eq_mark_of_alike (alike_of_isChain h e he))

theorem holes_runStencil {run : List Char} (hFilled : run ≠ [])
    (hRun : run.IsChain fun a b => alike a b = true) :
    Stencil.holes (runStencil run) = if isOddMarks run then 1 else 0 := by
  obtain ⟨c, cs, rfl⟩ := List.exists_cons_of_ne_nil hFilled
  have hMarks := all_marks_iff hRun
  by_cases hc : c = '?'
  · rw [isOddMarks, hMarks.mpr hc, runStencil, List.head?_cons, if_pos (congrArg some hc)]
    simp only [Stencil.holes_some, Bool.true_and, beq_iff_eq]
    split <;> rfl
  · have hNone : isOddMarks (c :: cs) = false := by
      rw [isOddMarks, Bool.eq_false_iff.mpr (mt hMarks.mp hc), Bool.false_and]
    rw [hNone, runStencil, List.head?_cons, if_neg (fun h => hc (Option.some.inj h))]
    rfl

theorem holes_flatMap_runStencil {groups : List (List Char)} (hFilled : [] ∉ groups)
    (hRuns : ∀ run ∈ groups, run.IsChain fun a b => alike a b = true) :
    Stencil.holes (groups.flatMap runStencil) = groups.countP isOddMarks := by
  induction groups with
  | nil => rfl
  | cons run rest ih =>
    have hRun : run ≠ [] := by
      rintro rfl
      exact hFilled List.mem_cons_self
    have hRest := ih (fun h => hFilled (List.mem_cons_of_mem run h))
      (fun g hg => hRuns g (List.mem_cons_of_mem run hg))
    rw [List.flatMap_cons, Stencil.holes_append, hRest, List.countP_cons,
      holes_runStencil hRun (hRuns run List.mem_cons_self), Nat.add_comm]

theorem length_fragments (template : String) :
    (fragments template).length = oddRuns template + 1 := by
  have hHoles : Stencil.holes ((runs template.toList).flatMap runStencil) = oddRuns template :=
    holes_flatMap_runStencil (List.nil_notMem_splitBy alike _) fun _ => List.isChain_of_mem_splitBy
  rw [fragments, List.length_map, split_eq_ofRuns, length_ofRuns, hHoles]

end Template

namespace Raw

theorem ofTemplate_eq (template : String) (ps : List Node) : ofTemplate template ps =
    if ps.length = oddRuns template then .ok ⟨Template.fragments template, ps⟩
    else .error (.rawArity (oddRuns template + 1) ps.length) := by
  have hParsed : ofTemplate template ps = ofFragments (Template.fragments template) ps := by
    rw [ofTemplate, parse_eq]
    rfl
  rw [hParsed, ofFragments, arityError?, length_fragments]
  by_cases hCount : ps.length = oddRuns template
  · simp only [hCount, if_true]
  · have hArity : oddRuns template + 1 ≠ ps.length + 1 := by omega
    simp only [if_neg hCount, if_neg hArity]

/-- A template takes one parameter for each longest run of question marks whose length is odd.  With
any other number of them it is refused for its arity, and it is never refused for its text. -/
theorem ofTemplate_accepts_iff (template : String) (ps : List Node) :
    ((∃ r, ofTemplate template ps = .ok r) ↔ ps.length = oddRuns template) ∧
    (ofTemplate template ps = .error (.rawArity (oddRuns template + 1) ps.length) ↔
      ps.length ≠ oddRuns template) ∧
    ∀ position reason, ofTemplate template ps ≠ .error (.template position reason) := by
  rw [ofTemplate_eq]
  by_cases hCount : ps.length = oddRuns template
  · rw [if_pos hCount]
    exact ⟨⟨fun _ => hCount, fun _ => ⟨_, rfl⟩⟩, ⟨nofun, fun h => absurd hCount h⟩, nofun⟩
  · rw [if_neg hCount]
    exact ⟨⟨nofun, fun h => absurd h hCount⟩, ⟨fun _ => hCount, fun _ => rfl⟩, nofun⟩

theorem ofTemplate_accepts_iff_adjacentRuns :
    oddRuns "???a??b?" = 2 ∧
    (∃ r, ofTemplate "???a??b?" [.selectAll, .selectAll] = .ok r) ∧
    ofTemplate "???a??b?" [.selectAll] = .error (.rawArity 3 1) := by
  have hRuns : oddRuns "???a??b?" = 2 := by decide +kernel
  refine ⟨hRuns, (ofTemplate_accepts_iff _ _).1.mpr hRuns.symm, ?_⟩
  have hRefused := (ofTemplate_accepts_iff "???a??b?" [.selectAll]).2.1
  rw [hRuns] at hRefused
  exact hRefused.mpr (by decide)

end Raw

end QueryTree
