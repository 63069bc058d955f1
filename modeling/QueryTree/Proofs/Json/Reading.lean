import QueryTree.Json.Printer
import QueryTree.Json.Decode
import QueryTree.Proofs.Numerals

/-! Reading texts of documents step by step.  `Json.Read.NumberText` says which texts are read
whole, as a number or as `null`, and `Json.Read.ReadsAs` that a text is read as a draft whatever
follows it.  Such texts are put together, with white space between them, to texts of arrays and
objects. -/

namespace QueryTree

open Decimal (isDigit digitValue natOfDigits startsWithDigit)

namespace Json.Read

/-! ### Strings -/

theorem units_plain {c : Char} (hQuote : c ≠ '"') (hBackslash : c ≠ '\\') (h : ¬c.toNat < 32)
    (text : List Char) : units (c :: text) = before (.char c) (units text) := by
  rw [units.eq_def]
  simp [hBackslash, h]

theorem units_escape {c e : Char} (h : simpleEscape? c = some e) (text : List Char) :
    units ('\\' :: c :: text) = before (.char e) (units text) := by
  have hu : c ≠ 'u' := by
    rintro rfl
    cases h
  rw [units.eq_def]
  simp [hu, h]

theorem join_code {n : Nat} (h : n < 32) (us : List TextUnit) :
    join (.code n :: us) = (join us).after (Char.ofNat n) := by
  have hLow : isLow n = false := by
    rw [isLow, Bool.and_eq_false_iff, decide_eq_false_iff_not, Nat.not_le]
    exact .inl (by omega)
  have hHigh : isHigh n = false := by
    rw [isHigh, Bool.and_eq_false_iff, decide_eq_false_iff_not, Nat.not_le]
    exact .inl (by omega)
  rw [join.eq_def]
  simp [hLow, hHigh]

/-- A character is written by a one-letter escape, in hexadecimal, or as it is. -/
theorem escaped_cases (c : Char) :
    (∃ e, escaped c = ['\\', e] ∧ simpleEscape? e = some c) ∨
    (c.toNat < 32 ∧ escaped c =
      ['\\', 'u', '0', '0', Nat.digitChar (c.toNat / 16), Nat.digitChar (c.toNat % 16)]) ∨
    (escaped c = [c] ∧ c ≠ '"' ∧ c ≠ '\\' ∧ ¬c.toNat < 32) := by
  have hCode : ∀ n, c.toNat = n → Char.ofNat n = c := by
    rintro n rfl
    exact Char.ofNat_toNat c
  unfold escaped
  split
  · next h => exact .inl ⟨_, rfl, by rw [h]; rfl⟩
  split
  · next h => exact .inl ⟨_, rfl, by rw [h]; rfl⟩
  split
  · next h => exact .inl ⟨_, rfl, by rw [h]; rfl⟩
  split
  · next h => exact .inl ⟨_, rfl, by rw [h]; rfl⟩
  split
  · next h => exact .inl ⟨_, rfl, by rw [h]; rfl⟩
  split
  · next h => exact .inl ⟨_, rfl, by rw [← hCode 8 h]; rfl⟩
  split
  · next h => exact .inl ⟨_, rfl, by rw [← hCode 12 h]; rfl⟩
  split
  · next h => exact .inr (.inl ⟨h, rfl⟩)
  · next hQuote hBackslash _ _ _ _ _ h => exact .inr (.inr ⟨rfl, hQuote, hBackslash, h⟩)

/-- An escaped character is read as one unit, which stands for the character. -/
theorem units_escaped (c : Char) (text : List Char) :
    ∃ u, units (escaped c ++ text) = before u (units text) ∧
      ∀ us, join (u :: us) = (join us).after c := by
  have hChar : ∀ us, join (.char c :: us) = (join us).after c := by
    intro us
    rw [join]
  rcases escaped_cases c with ⟨e, hText, he⟩ | ⟨h, hText⟩ | ⟨hText, hQuote, hBackslash, h⟩
  · rw [hText]
    exact ⟨.char c, units_escape he text, hChar⟩
  · refine ⟨.code c.toNat, ?_, fun us => ?_⟩
    · rw [hText]
      simp only [List.cons_append, List.nil_append]
      rw [units, Text.hexQuad?_octet (by omega)]
    · rw [join_code h, Char.ofNat_toNat]
  · rw [hText]
    exact ⟨.char c, units_plain hQuote hBackslash h text, hChar⟩

theorem units_flatMap_escaped (cs rest : List Char) :
    ∃ us, units (cs.flatMap escaped ++ '"' :: rest) = (us, .ok rest) ∧ join us = .whole cs := by
  induction cs with
  | nil => exact ⟨[], by rw [List.flatMap_nil, List.nil_append, units], by rw [join]⟩
  | cons c cs ih =>
    obtain ⟨us, hUnits, hJoin⟩ := ih
    obtain ⟨u, hUnit, hChar⟩ := units_escaped c (cs.flatMap escaped ++ '"' :: rest)
    refine ⟨u :: us, ?_, ?_⟩
    · rw [List.flatMap_cons, List.append_assoc, hUnit, hUnits, before]
    · rw [hChar, hJoin, Joined.after]

theorem stringText_escaped (s : String) (rest : List Char) :
    stringText (s.toList.flatMap escaped ++ '"' :: rest) = (some s, .ok rest) := by
  obtain ⟨us, hUnits, hJoin⟩ := units_flatMap_escaped s.toList rest
  rw [stringText, hUnits]
  simp only [hJoin, String.ofList_toList]

theorem toList_quoted_append (s : String) (rest : List Char) :
    (quoted s).toList ++ rest = '"' :: (s.toList.flatMap escaped ++ '"' :: rest) := by
  simp [quoted]

/-! ### Numbers -/

/-- What can follow a number: a comma, a closing bracket, or white space. -/
def numberEnds : List Char := [',', ']', '\x7d', ' ', '\n', '\r', '\t']

/-- Whether a number ends before a text, because nothing follows or what ends a number. -/
def endsNumber : List Char → Bool
  | [] => true
  | c :: _ => numberEnds.contains c

section Numbers

variable {rest : List Char}

theorem endsNumber_cases (h : endsNumber rest = true) :
    rest = [] ∨ ∃ c ∈ numberEnds, ∃ text, rest = c :: text := by
  cases rest with
  | nil => exact .inl rfl
  | cons c text => exact .inr ⟨c, List.contains_iff_mem.mp h, text, rfl⟩

/-- What ends a number does not continue it. -/
theorem not_numeric_of_mem_numberEnds {c : Char} (h : c ∈ numberEnds) :
    isDigit c = false ∧ c ≠ '.' ∧ c ≠ 'e' ∧ c ≠ 'E' := by
  have hAll : numberEnds.all (fun c => !isDigit c && c != '.' && c != 'e' && c != 'E') = true := by
    decide
  simpa [and_assoc] using List.all_eq_true.mp hAll c h

theorem startsWithDigit_of_endsNumber (h : endsNumber rest = true) :
    startsWithDigit rest = false := by
  rcases endsNumber_cases h with rfl | ⟨c, hc, text, rfl⟩
  · rfl
  · exact (not_numeric_of_mem_numberEnds hc).1

theorem takeWhile_append_of_endsNumber (h : endsNumber rest = true) (cs : List Char) :
    (cs ++ rest).takeWhile isDigit = cs.takeWhile isDigit := by
  induction cs with
  | nil => exact Decimal.takeWhile_isDigit_append (by simp) (startsWithDigit_of_endsNumber h)
  | cons c cs ih => rw [List.cons_append, List.takeWhile_cons, List.takeWhile_cons, ih]

theorem dropWhile_append_of_endsNumber (h : endsNumber rest = true) (cs : List Char) :
    (cs ++ rest).dropWhile isDigit = cs.dropWhile isDigit ++ rest := by
  induction cs with
  | nil => exact Decimal.dropWhile_isDigit_append (by simp) (startsWithDigit_of_endsNumber h)
  | cons c cs ih =>
    rw [List.cons_append, List.dropWhile_cons, List.dropWhile_cons, ih]
    split <;> rfl

theorem numeral_append {n : Numeral} {cs : List Char} {d : Draft} (rest : List Char)
    (h : numeral n cs = (d, .ok [])) : cs = [] ∧ numeral n rest = (d, .ok rest) := by
  unfold numeral at h ⊢
  split at h <;> simp_all

theorem noDigit_ne_ok (cs : List Char) (d : Draft) : noDigit cs ≠ (d, .ok rest) := by
  cases cs <;> simp [noDigit, stop]

/-- The digits of an exponent, after its sign. -/
def exponentDigits (n : Numeral) (negative : Bool) (digits : List Char) : Draft × Rest :=
  match digits.takeWhile isDigit with
  | [] => noDigit digits
  | ds =>
    let e := natOfDigits ds
    numeral { n with exponent := some (if negative then -(e : Int) else e) }
      (digits.dropWhile isDigit)

theorem exponentDigits_append (hRest : endsNumber rest = true) {n : Numeral} {negative : Bool}
    {cs : List Char} {d : Draft} (h : exponentDigits n negative cs = (d, .ok [])) :
    exponentDigits n negative (cs ++ rest) = (d, .ok rest) := by
  rw [exponentDigits, takeWhile_append_of_endsNumber hRest, dropWhile_append_of_endsNumber hRest]
  unfold exponentDigits at h
  split at h
  · exact absurd h (noDigit_ne_ok cs d)
  · obtain ⟨hNil, hNumeral⟩ := numeral_append rest h
    rw [hNil]
    exact hNumeral

/-- The sign of an exponent and what follows it. -/
def exponentSign : List Char → Bool × List Char
  | '-' :: rest => (true, rest)
  | '+' :: rest => (false, rest)
  | rest => (false, rest)

theorem exponentSign_cons_append (c : Char) (cs rest : List Char) :
    exponentSign (c :: cs ++ rest) =
      ((exponentSign (c :: cs)).1, (exponentSign (c :: cs)).2 ++ rest) := by
  unfold exponentSign
  rw [List.cons_append]
  split <;> simp_all

theorem exponent_eq (n : Numeral) (cs : List Char) :
    exponent n cs = exponentDigits n (exponentSign cs).1 (exponentSign cs).2 := rfl

theorem exponent_append (hRest : endsNumber rest = true) {n : Numeral} {cs : List Char} {d : Draft}
    (h : exponent n cs = (d, .ok [])) : exponent n (cs ++ rest) = (d, .ok rest) := by
  cases cs with
  | nil => cases h
  | cons c cs =>
    rw [exponent_eq, exponentSign_cons_append]
    exact exponentDigits_append hRest h

theorem afterDigits_rest (hRest : endsNumber rest = true) (n : Numeral) :
    afterDigits n rest = numeral n rest := by
  rcases endsNumber_cases hRest with rfl | ⟨c, hc, text, rfl⟩
  · rfl
  · obtain ⟨-, -, hMark, hMark'⟩ := not_numeric_of_mem_numberEnds hc
    rw [afterDigits.eq_def]
    simp [hMark, hMark']

theorem afterWhole_rest (hRest : endsNumber rest = true) (n : Numeral) :
    afterWhole n rest = numeral n rest := by
  rcases endsNumber_cases hRest with rfl | ⟨c, hc, text, rfl⟩
  · rfl
  · obtain ⟨-, hPoint, -⟩ := not_numeric_of_mem_numberEnds hc
    rw [afterWhole.eq_def]
    simp [hPoint, afterDigits_rest hRest]

theorem afterDigits_append (hRest : endsNumber rest = true) {n : Numeral} {cs : List Char}
    {d : Draft} (h : afterDigits n cs = (d, .ok [])) :
    afterDigits n (cs ++ rest) = (d, .ok rest) := by
  unfold afterDigits at h
  split at h
  · exact exponent_append hRest h
  · exact exponent_append hRest h
  · obtain ⟨rfl, hNumeral⟩ := numeral_append rest h
    rw [List.nil_append, afterDigits_rest hRest, hNumeral]

theorem afterWhole_append (hRest : endsNumber rest = true) {n : Numeral} {cs : List Char}
    {d : Draft} (h : afterWhole n cs = (d, .ok [])) :
    afterWhole n (cs ++ rest) = (d, .ok rest) := by
  unfold afterWhole at h
  split at h
  · next cs =>
    rw [List.cons_append, afterWhole, takeWhile_append_of_endsNumber hRest,
      dropWhile_append_of_endsNumber hRest]
    split at h
    · exact absurd h (noDigit_ne_ok cs d)
    · exact afterDigits_append hRest h
  · next hPoint =>
    cases cs with
    | nil =>
      obtain ⟨-, hNumeral⟩ := numeral_append rest h
      rw [List.nil_append, afterWhole_rest hRest, hNumeral]
    | cons c cs =>
      have hc : c ≠ '.' := fun hc => hPoint cs (hc ▸ rfl)
      have hSame : afterWhole n (c :: cs ++ rest) = afterDigits n (c :: cs ++ rest) := by
        rw [List.cons_append, afterWhole.eq_def]
        simp [hc]
      rw [hSame]
      exact afterDigits_append hRest h

theorem unsigned_append (hRest : endsNumber rest = true) {negative : Bool} {cs : List Char}
    {d : Draft} (h : unsigned negative cs = (d, .ok [])) :
    unsigned negative (cs ++ rest) = (d, .ok rest) := by
  rw [unsigned, takeWhile_append_of_endsNumber hRest, dropWhile_append_of_endsNumber hRest]
  unfold unsigned at h
  split at h
  · exact absurd h (noDigit_ne_ok cs d)
  · cases h
  · exact afterWhole_append hRest h

end Numbers

/-! ### Values that are neither arrays nor objects -/

/-- A text that is read whole, as a number or as `null`. -/
inductive NumberText : List Char → Draft → Prop
  | null : NumberText ['n', 'u', 'l', 'l'] .null
  | positive {c : Char} {cs : List Char} {m : Number} (digit : isDigit c = true)
      (whole : unsigned false (c :: cs) = (.number m, .ok [])) : NumberText (c :: cs) (.number m)
  | negative {cs : List Char} {m : Number} (whole : unsigned true cs = (.number m, .ok [])) :
      NumberText ('-' :: cs) (.number m)

theorem scalar_digit {c : Char} (h : isDigit c = true) (text : List Char) :
    scalar (c :: text) = unsigned false (c :: text) := by
  have hne : ∀ e, isDigit e = false → c ≠ e := fun e he => Decimal.ne_of_isDigit h he
  rw [scalar, if_pos h]
  all_goals
    intro hc
    exact hne _ (by decide) hc

theorem NumberText.scalar_append {cs : List Char} {d : Draft} (h : NumberText cs d)
    {rest : List Char} (hRest : endsNumber rest = true) : scalar (cs ++ rest) = (d, .ok rest) := by
  cases h with
  | null => simp [scalar, word]
  | positive digit whole =>
    rw [List.cons_append, scalar_digit digit, ← List.cons_append]
    exact unsigned_append hRest whole
  | negative whole => exact unsigned_append hRest whole

theorem NumberText.scalar_eq {cs : List Char} {d : Draft} (h : NumberText cs d) :
    scalar cs = (d, .ok []) := by
  have hAppend := h.scalar_append (show endsNumber [] = true from rfl)
  rw [List.append_nil] at hAppend
  exact hAppend

theorem skipSpace_cons {c : Char} (h : isSpace c = false) (text : List Char) :
    skipSpace (c :: text) = c :: text := by
  simp [skipSpace, h]

theorem value_scalar {c : Char} (hSpace : isSpace c = false) (hArray : c ≠ '[')
    (hObject : c ≠ '\x7b') (fuel : Nat) (text : List Char) :
    value (fuel + 1) (c :: text) = scalar (c :: text) := by
  rw [value, skipSpace_cons hSpace]
  split <;> simp_all

theorem not_special_of_isDigit {c : Char} (h : isDigit c = true) :
    isSpace c = false ∧ c ≠ '[' ∧ c ≠ '\x7b' := by
  have hne : ∀ e, isDigit e = false → c ≠ e := fun e he => Decimal.ne_of_isDigit h he
  refine ⟨?_, hne _ (by decide), hne _ (by decide)⟩
  simp [isSpace, hne ' ' (by decide), hne '\n' (by decide), hne '\r' (by decide),
    hne '\t' (by decide)]

theorem NumberText.exists_cons {cs : List Char} {d : Draft} (h : NumberText cs d) :
    ∃ c text, cs = c :: text ∧ isSpace c = false ∧ c ≠ '[' ∧ c ≠ '\x7b' := by
  cases h with
  | null => exact ⟨_, _, rfl, by decide, by decide, by decide⟩
  | positive digit => exact ⟨_, _, rfl, not_special_of_isDigit digit⟩
  | negative => exact ⟨_, _, rfl, by decide, by decide, by decide⟩

/-! ### White space -/

/-- White space and nothing else. -/
def Blank (ws : List Char) : Prop := ∀ c ∈ ws, isSpace c = true

theorem blank_nil : Blank [] := nofun

section Blank

variable {ws : List Char}

theorem skipSpace_append (h : Blank ws) (text : List Char) :
    skipSpace (ws ++ text) = skipSpace text := List.dropWhile_append_of_pos h

theorem value_append_blank (h : Blank ws) (fuel : Nat) (text : List Char) :
    value fuel (ws ++ text) = value fuel text := by
  cases fuel with
  | zero => rfl
  | succ fuel => rw [value, value, skipSpace_append h]

theorem items_append_blank (h : Blank ws) (fuel : Nat) (text : List Char) :
    items fuel (ws ++ text) = items fuel text := by
  cases fuel with
  | zero => rfl
  | succ fuel => rw [items, items, value_append_blank h]

theorem members_append_blank (h : Blank ws) (fuel : Nat) (text : List Char) :
    members fuel (ws ++ text) = members fuel text := by
  cases fuel with
  | zero => rfl
  | succ fuel => rw [members, members, skipSpace_append h]

theorem exists_blank (text : List Char) : ∃ ws, Blank ws ∧ text = ws ++ skipSpace text :=
  ⟨text.takeWhile isSpace, List.all_eq_true.mp List.all_takeWhile,
    List.takeWhile_append_dropWhile.symm⟩

theorem items_skipSpace (fuel : Nat) (text : List Char) :
    items fuel (skipSpace text) = items fuel text := by
  obtain ⟨ws, hBlank, hText⟩ := exists_blank text
  rw [hText, items_append_blank hBlank, ← hText]

theorem members_skipSpace (fuel : Nat) (text : List Char) :
    members fuel (skipSpace text) = members fuel text := by
  obtain ⟨ws, hBlank, hText⟩ := exists_blank text
  rw [hText, members_append_blank hBlank, ← hText]

theorem skipSpace_append_cons (h : Blank ws) {c : Char} (hc : isSpace c = false)
    (text : List Char) : skipSpace (ws ++ c :: text) = c :: text := by
  rw [skipSpace_append h, skipSpace_cons hc]

theorem endsNumber_append (h : Blank ws) {rest : List Char} (hRest : endsNumber rest = true) :
    endsNumber (ws ++ rest) = true := by
  cases ws with
  | nil => exact hRest
  | cons c ws =>
    have hc := h c List.mem_cons_self
    simp only [isSpace, Bool.or_eq_true, decide_eq_true_eq] at hc
    rcases hc with ((rfl | rfl) | rfl) | rfl <;> rfl

end Blank

/-! ### Texts that are read as drafts -/

/-- A text is read as a draft, whatever follows it.  The bound on the steps is the length of the
text: each array, object, item and member has a character of its own. -/
def ReadsAs (text : List Char) (d : Draft) : Prop :=
  ∀ rest, endsNumber rest = true → ∀ fuel, text.length ≤ fuel →
    value fuel (text ++ rest) = (d, .ok rest)

/-- A text is read as the items of an array, up to its end. -/
def ItemsReadAs (text : List Char) (ds : List Draft) : Prop :=
  ∀ rest fuel, text.length < fuel →
    items fuel (text ++ ']' :: rest) = (ds, .closed, .ok rest)

/-- A text is read as the members of an object, up to its end. -/
def MembersReadAs (text : List Char) (ms : List (Option String × Draft)) : Prop :=
  ∀ rest fuel, text.length < fuel →
    members fuel (text ++ '\x7d' :: rest) = (ms, .closed, .ok rest)

/-- What stands between quotes is read as a name, which is missing if a surrogate is unpaired. -/
def NameReadsAs (key : List Char) (name? : Option String) : Prop :=
  ∀ rest, stringText (key ++ '"' :: rest) = (name?, .ok rest)

theorem nameReadsAs_escaped (name : String) :
    NameReadsAs (name.toList.flatMap escaped) (some name) := stringText_escaped name

theorem endsNumber_cons {c : Char} (h : c ∈ numberEnds) (text : List Char) :
    endsNumber (c :: text) = true := List.contains_iff_mem.mpr h

/-- A text that is not empty leaves one step at least. -/
theorem readsAs_cons {c : Char} {text : List Char} {d : Draft}
    (h : ∀ rest, endsNumber rest = true → ∀ fuel, text.length ≤ fuel →
      value (fuel + 1) (c :: (text ++ rest)) = (d, .ok rest)) : ReadsAs (c :: text) d := by
  intro rest hRest fuel hFuel
  cases fuel with
  | zero => cases hFuel
  | succ fuel => exact h rest hRest fuel (Nat.le_of_succ_le_succ hFuel)

theorem ReadsAs.append_blank {ws text : List Char} {d : Draft} (hBlank : Blank ws)
    (h : ReadsAs text d) : ReadsAs (ws ++ text) d := by
  intro rest hRest fuel hFuel
  rw [List.length_append] at hFuel
  rw [List.append_assoc, value_append_blank hBlank]
  exact h rest hRest fuel (by omega)

theorem NumberText.readsAs {cs : List Char} {d : Draft} (h : NumberText cs d) : ReadsAs cs d := by
  obtain ⟨c, text, rfl, hSpace, hArray, hObject⟩ := h.exists_cons
  refine readsAs_cons fun rest hRest fuel _ => ?_
  rw [value_scalar hSpace hArray hObject]
  exact h.scalar_append hRest

theorem readsAs_quoted (s : String) : ReadsAs (quoted s).toList (.string s) := by
  have hText := toList_quoted_append s []
  rw [List.append_nil] at hText
  rw [hText]
  refine readsAs_cons fun rest _ fuel _ => ?_
  rw [value_scalar (by decide) (by decide) (by decide), List.append_assoc, List.singleton_append]
  simp only [scalar, Read.string, stringText_escaped]

/-- No value begins with the end of an array, or at the end of the text. -/
theorem value_ne_ok {text rest : List Char} {d : Draft} {fuel : Nat}
    (h : skipSpace text = [] ∨ ∃ more, skipSpace text = ']' :: more) :
    value fuel text ≠ (d, .ok rest) := by
  cases fuel with
  | zero => simp [value, stop]
  | succ fuel => rcases h with h | ⟨more, h⟩ <;> simp [value, h, scalar, stop, isDigit]

theorem skipSpace_of_items {fuel : Nat} {text rest : List Char} {ds : List Draft}
    (h : items fuel text = (ds, .closed, .ok rest)) :
    ¬(skipSpace text = [] ∨ ∃ more, skipSpace text = ']' :: more) := by
  intro hClosing
  cases fuel with
  | zero => cases h
  | succ fuel =>
    rw [items] at h
    split at h
    · cases h
    · next hValue => exact value_ne_ok hClosing hValue

theorem skipSpace_of_members {fuel : Nat} {text rest : List Char}
    {ms : List (Option String × Draft)} (h : members fuel text = (ms, .closed, .ok rest)) :
    ∃ more, skipSpace text = '"' :: more := by
  cases fuel with
  | zero => cases h
  | succ fuel =>
    rw [members] at h
    split at h
    · next more hText => exact ⟨more, hText⟩
    · cases h

theorem readsAs_array {text : List Char} {ds : List Draft} (h : ItemsReadAs text ds) :
    ReadsAs ('[' :: (text ++ [']'])) (.array ds .closed) := by
  refine readsAs_cons fun rest _ fuel hFuel => ?_
  rw [List.length_append, List.length_singleton] at hFuel
  have hItems := h rest fuel (by omega)
  have hOpen := skipSpace_of_items hItems
  rw [List.append_assoc, List.singleton_append, value, skipSpace_cons (by decide)]
  simp only
  split
  · next hNil => exact absurd (.inl hNil) hOpen
  · next hText => exact absurd (.inr ⟨_, hText⟩) hOpen
  · simp only [items_skipSpace, hItems]

theorem readsAs_object {text : List Char} {ms : List (Option String × Draft)}
    (h : MembersReadAs text ms) : ReadsAs ('\x7b' :: (text ++ ['\x7d'])) (.object ms .closed) := by
  refine readsAs_cons fun rest _ fuel hFuel => ?_
  rw [List.length_append, List.length_singleton] at hFuel
  have hMembers := h rest fuel (by omega)
  obtain ⟨more, hOpen⟩ := skipSpace_of_members hMembers
  rw [List.append_assoc, List.singleton_append, value, skipSpace_cons (by decide)]
  rw [← members_skipSpace, hOpen] at hMembers
  simp only [hOpen]
  split
  · next hNil => cases hNil
  · next hText => exact absurd (List.head_eq_of_cons_eq hText) (by decide)
  · simp only [hMembers]

section Steps

variable {key text more ws : List Char} {name : String} {name? : Option String} {d : Draft}
  {ds : List Draft} {ms : List (Option String × Draft)}

/-- The last item, with white space before the end of its array. -/
theorem itemsReadAs_singleton (hBlank : Blank ws) (h : ReadsAs text d) :
    ItemsReadAs (text ++ ws) [d] := by
  intro rest fuel hFuel
  cases fuel with
  | zero => cases hFuel
  | succ fuel =>
    rw [List.length_append] at hFuel
    have hEnds : endsNumber (ws ++ ']' :: rest) = true :=
      endsNumber_append hBlank (endsNumber_cons (by decide) rest)
    rw [List.append_assoc, items, h _ hEnds fuel (by omega)]
    simp only [skipSpace_append_cons hBlank (show isSpace ']' = false by decide)]

theorem itemsReadAs_cons (h : ReadsAs text d) (hMore : ItemsReadAs more ds) :
    ItemsReadAs (text ++ ',' :: more) (d :: ds) := by
  intro rest fuel hFuel
  cases fuel with
  | zero => cases hFuel
  | succ fuel =>
    rw [List.length_append, List.length_cons] at hFuel
    rw [List.append_assoc, List.cons_append, items,
      h _ (endsNumber_cons (by decide) _) fuel (by omega)]
    simp only [skipSpace_cons (show isSpace ',' = false by decide), hMore rest fuel (by omega)]

theorem MembersReadAs.append_blank (hBlank : Blank ws) (h : MembersReadAs text ms) :
    MembersReadAs (ws ++ text) ms := by
  intro rest fuel hFuel
  rw [List.length_append] at hFuel
  rw [List.append_assoc, members_append_blank hBlank]
  exact h rest fuel (by omega)

/-- The last member, with white space before the end of its object. -/
theorem NameReadsAs.singleton (hName : NameReadsAs key name?) (hBlank : Blank ws)
    (h : ReadsAs text d) :
    MembersReadAs ('"' :: (key ++ '"' :: ':' :: (text ++ ws))) [(name?, d)] := by
  intro rest fuel hFuel
  cases fuel with
  | zero => cases hFuel
  | succ fuel =>
    simp only [List.length_append, List.length_cons] at hFuel
    have hEnds : endsNumber (ws ++ '\x7d' :: rest) = true :=
      endsNumber_append hBlank (endsNumber_cons (by decide) rest)
    rw [List.cons_append, List.append_assoc, List.cons_append, members, skipSpace_cons (by decide)]
    simp only [hName _, List.cons_append, List.append_assoc,
      skipSpace_cons (show isSpace ':' = false by decide), h _ hEnds fuel (by omega),
      skipSpace_append_cons hBlank (show isSpace '\x7d' = false by decide)]

theorem NameReadsAs.cons (hName : NameReadsAs key name?) (h : ReadsAs text d)
    (hMore : MembersReadAs more ms) :
    MembersReadAs ('"' :: (key ++ '"' :: ':' :: (text ++ ',' :: more))) ((name?, d) :: ms) := by
  intro rest fuel hFuel
  cases fuel with
  | zero => cases hFuel
  | succ fuel =>
    simp only [List.length_append, List.length_cons] at hFuel
    rw [List.cons_append, List.append_assoc, List.cons_append, members, skipSpace_cons (by decide)]
    simp only [hName _, List.cons_append, List.append_assoc,
      skipSpace_cons (show isSpace ':' = false by decide),
      h (',' :: (more ++ '\x7d' :: rest)) (endsNumber_cons (by decide) _) fuel (by omega),
      skipSpace_cons (show isSpace ',' = false by decide), hMore rest fuel (by omega)]

theorem membersReadAs_singleton (hBlank : Blank ws) (h : ReadsAs text d) :
    MembersReadAs ((quoted name).toList ++ ':' :: (text ++ ws)) [(some name, d)] := by
  rw [toList_quoted_append]
  exact (nameReadsAs_escaped name).singleton hBlank h

theorem membersReadAs_cons (h : ReadsAs text d) (hMore : MembersReadAs more ms) :
    MembersReadAs ((quoted name).toList ++ ':' :: (text ++ ',' :: more))
      ((some name, d) :: ms) := by
  rw [toList_quoted_append]
  exact (nameReadsAs_escaped name).cons h hMore

end Steps

end Json.Read

/-- A number whose text is read whole. -/
def Number.Legible (n : Number) : Prop :=
  ∃ d, Json.Read.NumberText (Json.numberText n).toList d

end QueryTree
