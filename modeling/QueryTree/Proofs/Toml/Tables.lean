import QueryTree.Toml.Document
import QueryTree.Proofs.Numerals

/-! Texts of tables.  A character of a basic string can be written as it is, by a short escape, or
in hexadecimal (`CharText`), and a `Spelling` chooses one of these for each character.  A line of a
table is a key without quotes, and a string or an integer.  Such lines below a header are read as
the table with their items, in order (`ofText?_tableText`). -/

namespace QueryTree.Toml

open QueryTree.Decimal (isDigit natOfDigits startsWithDigit)
open QueryTree.Text (hexValue? hexQuad?)

/-! ### Strings -/

/-- The characters that stand in a basic string as they are. -/
def Unescaped (c : Char) : Prop :=
  c ≠ '"' ∧ c ≠ '\\' ∧ (c = '\t' ∨ 0x20 ≤ c.toNat ∧ c.toNat ≠ 0x7F)

instance (c : Char) : Decidable (Unescaped c) := inferInstanceAs (Decidable (_ ∧ _ ∧ (_ ∨ _)))

/-- The letters of the short escapes, with the characters that they stand for. -/
def shortEscapes : List (Char × Char) :=
  [('"', '"'), ('\\', '\\'), ('b', '\x08'), ('t', '\t'), ('n', '\n'), ('f', '\x0c'), ('r', '\r')]

/-- A hexadecimal digit, in either case. -/
def HexDigit (c : Char) (n : Nat) : Prop :=
  n < 16 ∧ (c = Nat.digitChar n ∨ c = (Nat.digitChar n).toUpper)

/-- Four hexadecimal digits of a number. -/
def HexQuad (a b c d : Char) (n : Nat) : Prop :=
  ∃ i j k l, HexDigit a i ∧ HexDigit b j ∧ HexDigit c k ∧ HexDigit d l ∧
    n = ((i * 16 + j) * 16 + k) * 16 + l

/-- How a character can be written in a basic string. -/
inductive CharText : List Char → Char → Prop
  | plain {c : Char} (unescaped : Unescaped c) : CharText [c] c
  | short {e c : Char} (escape : (e, c) ∈ shortEscapes) : CharText ['\\', e] c
  | quad {a b c d char : Char} (hex : HexQuad a b c d char.toNat) :
    CharText ['\\', 'u', a, b, c, d] char
  | octet {a b c d e f g h char : Char} {m n : Nat} (high : HexQuad a b c d m)
      (low : HexQuad e f g h n) (value : char.toNat = m * 65536 + n) :
    CharText ['\\', 'U', a, b, c, d, e, f, g, h] char

theorem HexDigit.digitChar {n : Nat} (h : n < 16) : HexDigit (Nat.digitChar n) n := ⟨h, .inl rfl⟩

theorem HexDigit.hexValue?_eq {c : Char} {n : Nat} (h : HexDigit c n) : hexValue? c = some n := by
  have hUpper : ∀ n < 16, hexValue? (Nat.digitChar n).toUpper = some n := by decide
  rcases h with ⟨hBound, rfl | rfl⟩
  · exact Text.hexValue?_digitChar n hBound
  · exact hUpper n hBound

theorem HexQuad.hexQuad?_eq {a b c d : Char} {n : Nat} (h : HexQuad a b c d n) :
    hexQuad? a b c d = some n := by
  obtain ⟨i, j, k, l, ha, hb, hc, hd, rfl⟩ := h
  simp only [hexQuad?, ha.hexValue?_eq, hb.hexValue?_eq, hc.hexValue?_eq, hd.hexValue?_eq,
    Option.bind_eq_bind, Option.bind_some]

theorem scalarChar?_toNat (c : Char) : scalarChar? c.toNat = some c := by
  have hValid : c.toNat.isValidChar := c.valid
  rw [scalarChar?, dif_pos hValid]
  rfl

theorem escape?_of_mem : ∀ p ∈ shortEscapes, escape? p.1 = some p.2 ∧ p.1 ≠ 'u' ∧ p.1 ≠ 'U' := by
  decide

theorem CharText.basicString_append {text : List Char} {c : Char} (h : CharText text c)
    (rest : List Char) : basicString (text ++ rest) = consChar c (basicString rest) := by
  cases h with
  | plain unescaped =>
    obtain ⟨_, hBackslash, hChar⟩ := unescaped
    have hPlain : isPlain c = true := by simpa [isPlain] using hChar
    rw [List.singleton_append, basicString.eq_def]
    simp [hPlain, hBackslash]
  | short escape =>
    obtain ⟨hEscape, hQuad, hOctet⟩ := escape?_of_mem _ escape
    rw [List.cons_append, List.singleton_append, basicString.eq_def]
    simp [hQuad, hOctet, hEscape]
  | quad hex =>
    simp only [List.cons_append, List.nil_append, basicString, hex.hexQuad?_eq,
      scalarChar?_toNat, Option.bind_eq_bind, Option.bind_some]
  | octet high low value =>
    have hChar := scalarChar?_toNat c
    rw [value] at hChar
    show basicString ('\\' :: 'U' :: _ :: _ :: _ :: _ :: _ :: _ :: _ :: _ :: rest) = _
    rw [basicString, high.hexQuad?_eq, Option.bind_eq_bind, Option.bind_some, low.hexQuad?_eq,
      Option.bind_eq_bind, Option.bind_some, hChar, Option.bind_some]

/-- No character is written with a quote in front. -/
theorem CharText.exists_cons {text : List Char} {c : Char} (h : CharText text c) :
    ∃ first more, text = first :: more ∧ first ≠ '"' := by
  cases h with
  | plain unescaped => exact ⟨c, [], rfl, unescaped.1⟩
  | short | quad | octet => exact ⟨'\\', _, rfl, by decide⟩

/-- A way of writing each character in a basic string. -/
structure Spelling where
  write : Char → List Char
  reads : ∀ c, CharText (write c) c

namespace Spelling

/-- Only what has to be escaped is. -/
def sparing : Spelling where
  write c :=
    if Unescaped c then [c]
    else if c = '"' ∨ c = '\\' then ['\\', c]
    else ['\\', 'u', '0', '0', Nat.digitChar (c.toNat / 16), Nat.digitChar (c.toNat % 16)]
  reads c := by
    split
    · next hPlain => exact .plain hPlain
    · next hPlain =>
      split
      · next hMark => rcases hMark with rfl | rfl <;> exact .short (by decide)
      · next hMark =>
        have hControl : c.toNat < 256 := by
          simp only [not_or] at hMark
          simp only [Unescaped, hMark, ne_eq, not_false_eq_true, true_and] at hPlain
          omega
        have hZero : HexDigit '0' 0 := .digitChar (by decide)
        exact .quad ⟨0, 0, _, _, hZero, hZero, .digitChar (by omega), .digitChar (by omega),
          by omega⟩

variable (w : Spelling)

/-- A string between quotes. -/
def quoted (s : String) : List Char := '"' :: (s.toList.flatMap w.write ++ ['"'])

theorem basicString_flatMap (cs rest : List Char) :
    basicString (cs.flatMap w.write ++ '"' :: rest) = some (cs, rest) := by
  induction cs with
  | nil => rfl
  | cons c cs ih =>
    rw [List.flatMap_cons, List.append_assoc, (w.reads c).basicString_append, ih]
    rfl

/-- A string that is not empty does not look like the start of a long one. -/
theorem string?_flatMap {cs : List Char} (hNil : cs ≠ []) (rest : List Char) :
    string? ('"' :: (cs.flatMap w.write ++ '"' :: rest)) = some (String.ofList cs, rest) := by
  have hBasic := w.basicString_flatMap cs rest
  cases cs with
  | nil => exact absurd rfl hNil
  | cons c cs =>
    obtain ⟨first, more, hText, hFirst⟩ := (w.reads c).exists_cons
    rw [List.flatMap_cons, hText, List.append_assoc, List.cons_append] at hBasic ⊢
    rw [string?, hBasic]
    · rfl
    · intro more' hLong
      exact hFirst (List.cons.inj hLong).1

end Spelling

/-! ### Integers -/

section Integers

variable {ds rest : List Char}

theorem digitRun_append (hDigits : ∀ c ∈ ds, isDigit c = true) (rest : List Char) :
    digitRun isDigit (ds ++ '\n' :: rest) = (ds, '\n' :: rest) := by
  induction ds with
  | nil => rfl
  | cons c ds ih =>
    obtain ⟨hFirst, hRest⟩ := List.forall_mem_cons.mp hDigits
    have hScore : c ≠ '_' := Decimal.ne_of_isDigit hFirst (by decide)
    rw [List.cons_append, digitRun.eq_def]
    simp [hScore, hFirst, ih hRest]

/-- The digits of a number, up to the end of the line. -/
theorem wholeDigits?_toDigits (n : Nat) (rest : List Char) :
    wholeDigits? (Nat.toDigits 10 n ++ '\n' :: rest) = some (Nat.toDigits 10 n, '\n' :: rest) := by
  have hDigits : ∀ c ∈ Nat.toDigits 10 n, isDigit c = true := fun _ =>
    Decimal.isDigit_of_mem_toDigits
  have hZero := Decimal.toDigits_ne_zero_cons n
  have hRun := digitRun_append hDigits rest
  cases hText : Nat.toDigits 10 n with
  | nil => exact absurd hText Nat.toDigits_ne_nil
  | cons c ds =>
    rw [hText] at hDigits hZero hRun
    by_cases hFirst : c = '0'
    · subst hFirst
      cases ds with
      | nil => rfl
      | cons d ds => exact absurd rfl (hZero d ds)
    · have hDigit := hDigits c List.mem_cons_self
      rw [List.cons_append] at hRun ⊢
      rw [wholeDigits?.eq_def]
      simpa [hFirst, digits?, hDigit] using hRun

/-- Digits up to the end of a line are followed by more of them, or by the end of the line. -/
theorem fixed?_append (hDigits : ∀ c ∈ ds, isDigit c = true) {count n : Nat} {after : List Char}
    (h : fixed? count (ds ++ '\n' :: rest) = some (n, after)) :
    ∃ c more, after = c :: more ∧ (isDigit c = true ∨ c = '\n') := by
  simp only [fixed?] at h
  split at h
  · next hTake =>
    cases h
    simp only [Bool.and_eq_true, decide_eq_true_eq, List.all_eq_true] at hTake
    have hCount : count ≤ ds.length := by
      apply Nat.le_of_not_lt
      intro hLonger
      have hLine : '\n' ∈ (ds ++ '\n' :: rest).take count := by
        rw [List.take_append, List.mem_append]
        obtain ⟨k, hk⟩ := Nat.exists_eq_succ_of_ne_zero (Nat.sub_ne_zero_of_lt hLonger)
        rw [hk]
        exact .inr List.mem_cons_self
      exact absurd (hTake.2 _ hLine) (by decide)
    rw [List.drop_append_of_le_length hCount]
    cases hDrop : ds.drop count with
    | nil => exact ⟨_, _, rfl, .inr rfl⟩
    | cons c more =>
      have hc : c ∈ ds.drop count := by rw [hDrop]; exact List.mem_cons_self
      exact ⟨c, _, rfl, .inl (hDigits c (List.mem_of_mem_drop hc))⟩
  · cases h

theorem word?_after_fixed? (hDigits : ∀ c ∈ ds, isDigit c = true) {count n : Nat} {mark : Char}
    {after : List Char} (hMark : isDigit mark = false) (hLine : mark ≠ '\n')
    (h : fixed? count (ds ++ '\n' :: rest) = some (n, after)) : word? [mark] after = none := by
  obtain ⟨c, more, rfl, hc⟩ := fixed?_append hDigits h
  have hne : mark ≠ c := by
    rintro rfl
    rcases hc with hc | hc
    · rw [hMark] at hc
      cases hc
    · exact hLine hc
  rw [word?, if_neg hne]

theorem moment?_append (hDigits : ∀ c ∈ ds, isDigit c = true) (rest : List Char) :
    moment? (ds ++ '\n' :: rest) = none := by
  have hDay : day? (ds ++ '\n' :: rest) = none := by
    unfold day?
    cases h : fixed? 4 (ds ++ '\n' :: rest) with
    | none => rfl
    | some r =>
      show (word? ['-'] r.2).bind _ = none
      rw [word?_after_fixed? hDigits (by decide) (by decide) h]
      rfl
  have hClock : clock? (ds ++ '\n' :: rest) = none := by
    unfold clock?
    cases h : fixed? 2 (ds ++ '\n' :: rest) with
    | none => rfl
    | some r =>
      show (word? [':'] r.2).bind _ = none
      rw [word?_after_fixed? hDigits (by decide) (by decide) h]
      rfl
  rw [moment?, hDay, hClock]
  rfl

section Digits

variable {c : Char} {text : List Char} (hDigit : isDigit c = true)
include hDigit

theorem sign_digit : sign (c :: text) = (false, c :: text) := by
  have hMinus : c ≠ '-' := Decimal.ne_of_isDigit hDigit (by decide)
  have hPlus : c ≠ '+' := Decimal.ne_of_isDigit hDigit (by decide)
  rw [sign.eq_def]
  simp [hMinus, hPlus]

theorem specialReal?_digit : specialReal? (c :: text) = none := by
  have hInf : 'i' ≠ c := (Decimal.ne_of_isDigit hDigit (by decide)).symm
  have hNan : 'n' ≠ c := (Decimal.ne_of_isDigit hDigit (by decide)).symm
  simp [specialReal?, sign_digit hDigit, word?, hInf, hNan]

theorem real?_digit (hWhole : wholeDigits? (c :: text) = some (ds, '\n' :: rest)) :
    real? (c :: text) = none := by
  rw [real?, sign_digit hDigit]
  show (wholeDigits? (c :: text)).bind _ = none
  rw [hWhole]
  rfl

end Digits

theorem integerItem?_eq {n : Nat} (h : n < 0x8000000000000000) (rest : List Char) :
    integerItem? n rest = some (.integer n, rest) := by
  have hRange : -0x8000000000000000 ≤ (n : Int) ∧ (n : Int) < 0x8000000000000000 := by omega
  rw [integerItem?, if_pos hRange]

/-- The mark of another base stands where a digit or the end of the line is. -/
theorem integer?_append {c : Char} (hDigits : ∀ e ∈ c :: ds, isDigit e = true)
    (hWhole : wholeDigits? (c :: (ds ++ '\n' :: rest)) = some (c :: ds, '\n' :: rest)) :
    integer? (c :: (ds ++ '\n' :: rest)) =
      integerItem? (natOfDigits (c :: ds)) ('\n' :: rest) := by
  have hPlain (mark : Char) (more : List Char) (hMark : (isDigit mark || mark == '\n') = false) :
      c :: (ds ++ '\n' :: rest) ≠ '0' :: mark :: more := by
    intro hEq
    cases ds with
    | nil =>
      cases hEq
      cases hMark
    | cons d ds =>
      have hSecond := hDigits d (List.mem_cons_of_mem c List.mem_cons_self)
      cases hEq
      rw [hSecond] at hMark
      cases hMark
  rw [integer?.eq_def]
  split
  · next hMark => exact absurd hMark (hPlain _ _ (by decide))
  · next hMark => exact absurd hMark (hPlain _ _ (by decide))
  · next hMark => exact absurd hMark (hPlain _ _ (by decide))
  · rw [sign_digit (hDigits c List.mem_cons_self)]
    dsimp only
    rw [hWhole, Option.bind_eq_bind, Option.bind_some]
    dsimp only
    rw [if_neg Bool.false_ne_true]

/-- A number on a line is read as the integer that it is. -/
theorem numeric?_toDigits {n : Nat} (h : n < 0x8000000000000000) (rest : List Char) :
    numeric? (Nat.toDigits 10 n ++ '\n' :: rest) = some (.integer n, '\n' :: rest) := by
  have hDigits : ∀ c ∈ Nat.toDigits 10 n, isDigit c = true := fun _ =>
    Decimal.isDigit_of_mem_toDigits
  have hWhole := wholeDigits?_toDigits n rest
  have hValue := Decimal.natOfDigits_toDigits n
  have hMoment := moment?_append hDigits rest
  cases hText : Nat.toDigits 10 n with
  | nil => exact absurd hText Nat.toDigits_ne_nil
  | cons c ds =>
    rw [hText] at hDigits hWhole hValue hMoment
    have hDigit := hDigits c List.mem_cons_self
    rw [List.cons_append] at hWhole hMoment ⊢
    rw [numeric?, hMoment, real?_digit hDigit hWhole, specialReal?_digit hDigit,
      integer?_append hDigits hWhole, hValue, integerItem?_eq h, Option.none_or, Option.none_or,
      Option.none_or]

end Integers

/-! ### Values on a line -/

/-- A text is read as an item, up to the end of the line. -/
structure ValueText (text : List Char) (item : Item) : Prop where
  value : ∀ room fuel rest,
    value? room (fuel + 1) (text ++ '\n' :: rest) = some (item, '\n' :: rest)
  start : ∀ rest, skipSpace (text ++ rest) = text ++ rest

theorem skipSpace_cons {c : Char} (h : isSpace c = false) (text : List Char) :
    skipSpace (c :: text) = c :: text := by
  simp [skipSpace, h]

theorem valueText_quoted (w : Spelling) {s : String} (hNil : s ≠ "") :
    ValueText (w.quoted s) (.string s) where
  value room fuel rest := by
    have hChars : s.toList ≠ [] := fun hChars => hNil (String.toList_eq_nil_iff.mp hChars)
    have hString := w.string?_flatMap hChars ('\n' :: rest)
    rw [String.ofList_toList] at hString
    rw [Spelling.quoted, List.cons_append, List.append_assoc, List.singleton_append, value?.eq_def]
    simp [hString]
  start rest := skipSpace_cons (by decide) _

theorem valueText_toDigits {n : Nat} (h : n < 0x8000000000000000) :
    ValueText (Nat.toDigits 10 n) (.integer n) := by
  have hDigits : ∀ c ∈ Nat.toDigits 10 n, isDigit c = true := fun _ =>
    Decimal.isDigit_of_mem_toDigits
  have hNumeric := numeric?_toDigits h
  cases hText : Nat.toDigits 10 n with
  | nil => exact absurd hText Nat.toDigits_ne_nil
  | cons c ds =>
    rw [hText] at hDigits hNumeric
    have hne : ∀ e, isDigit e = false → c ≠ e := fun e he =>
      Decimal.ne_of_isDigit (hDigits c List.mem_cons_self) he
    constructor
    · intro room fuel rest
      have hValue := hNumeric rest
      rw [List.cons_append] at hValue ⊢
      rw [value?.eq_def]
      simp [hne '[' (by decide), hne '\x7b' (by decide), hne '"' (by decide),
        hne '\'' (by decide), hne 't' (by decide), hne 'f' (by decide), hValue]
    · intro rest
      apply skipSpace_cons
      simp [isSpace, hne ' ' (by decide), hne '\t' (by decide)]

/-! ### Keys -/

/-- A key that needs no quotes. -/
def Bare (key : List Char) : Prop := key ≠ [] ∧ ∀ c ∈ key, isBare c = true

instance (key : List Char) : Decidable (Bare key) :=
  decidable_of_iff ((!key.isEmpty && key.all isBare) = true) (by simp [Bare])

theorem ne_of_isBare {c e : Char} (h : isBare c = true) (he : isBare e = false) : c ≠ e := by
  rintro rfl
  rw [h] at he
  cases he

theorem Bare.exists_cons {key : List Char} (h : Bare key) :
    ∃ c more, key = c :: more ∧ isBare c = true := by
  obtain ⟨hNil, hChars⟩ := h
  cases key with
  | nil => exact absurd rfl hNil
  | cons c more => exact ⟨c, more, rfl, hChars c List.mem_cons_self⟩

section Keys

variable {key : List Char} (h : Bare key) {stop : Char} (hStop : isBare stop = false)
  (rest : List Char)
include h

theorem Bare.skipSpace_append : skipSpace (key ++ rest) = key ++ rest := by
  obtain ⟨c, more, rfl, hc⟩ := h.exists_cons
  apply skipSpace_cons
  simp [isSpace, ne_of_isBare hc (show isBare ' ' = false by decide),
    ne_of_isBare hc (show isBare '\t' = false by decide)]

include hStop

theorem Bare.keyPart?_append :
    keyPart? (key ++ stop :: rest) = some (String.ofList key, stop :: rest) := by
  have hTake : (key ++ stop :: rest).takeWhile isBare = key := by
    rw [List.takeWhile_append_of_pos h.2]
    simp [hStop]
  have hDrop : (key ++ stop :: rest).dropWhile isBare = stop :: rest := by
    rw [List.dropWhile_append_of_pos h.2]
    simp [hStop]
  obtain ⟨c, more, rfl, hc⟩ := h.exists_cons
  rw [List.cons_append] at hTake hDrop ⊢
  rw [keyPart?.eq_def]
  simp [ne_of_isBare hc (show isBare '"' = false by decide),
    ne_of_isBare hc (show isBare '\'' = false by decide), hTake, hDrop]

/-- A single key, up to what ends it. -/
theorem Bare.key?_append (hDot : ∀ more, skipSpace (stop :: rest) ≠ '.' :: more) :
    key? (key ++ stop :: rest) = some (([], String.ofList key), skipSpace (stop :: rest)) := by
  have hParts : keyParts? (keyLimit - 1) (key ++ stop :: rest) =
      some ([String.ofList key], skipSpace (stop :: rest)) := by
    show keyParts? (78 + 1) _ = _
    rw [keyParts?, h.skipSpace_append, h.keyPart?_append hStop]
    simp only [Option.bind_eq_bind, Option.bind_some]
  rw [key?, hParts]
  rfl

end Keys

theorem header?_bare {name : List Char} (h : Bare name) (rest : List Char) :
    header? [']'] (name ++ ']' :: '\n' :: rest) = some (([], String.ofList name), rest) := by
  have hKey := h.key?_append (show isBare ']' = false by decide) ('\n' :: rest) nofun
  rw [header?, hKey]
  rfl

/-! ### Lines below a header -/

/-- A line of a table: its key, its value as it is written, and the item that this stands for. -/
structure Line where
  key : List Char
  text : List Char
  item : Item

namespace Line

/-- The text of a line, with its line break. -/
def chars (l : Line) : List Char := l.key ++ ' ' :: '=' :: ' ' :: (l.text ++ ['\n'])

/-- What the line enters in its table. -/
def entry (l : Line) : String × Item := (String.ofList l.key, l.item)

structure Proper (l : Line) : Prop where
  bare : Bare l.key
  reads : ValueText l.text l.item

theorem chars_append (l : Line) (rest : List Char) :
    l.chars ++ rest = l.key ++ ' ' :: '=' :: ' ' :: (l.text ++ '\n' :: rest) := by
  simp [chars]

theorem Proper.assignment?_append {l : Line} (h : l.Proper) (rest : List Char) :
    assignment? (l.chars ++ rest) = some (([], l.entry), rest) := by
  have hSpace : skipSpace (' ' :: '=' :: ' ' :: (l.text ++ '\n' :: rest)) =
      '=' :: ' ' :: (l.text ++ '\n' :: rest) := rfl
  have hKey := h.bare.key?_append (show isBare ' ' = false by decide)
    ('=' :: ' ' :: (l.text ++ '\n' :: rest)) (by rw [hSpace]; exact nofun)
  have hText : skipSpace (' ' :: (l.text ++ '\n' :: rest)) = l.text ++ '\n' :: rest :=
    h.reads.start _
  rw [chars_append, assignment?, hKey, hSpace]
  simp only [Option.bind_eq_bind, Option.bind_some, word?, if_true, hText, h.reads.value]
  rfl

/-- A line enters its item at its place. -/
theorem Proper.lines?_append {l : Line} (h : l.Proper) (fuel : Nat) (rest : List Char)
    (place : List String) (root : Entries) :
    lines? (fuel + 1) (l.chars ++ rest) place root =
      (Entries.changeAt (Entries.put l.entry.1 l.item []) place root).bind
        fun root => lines? fuel rest place root := by
  have hStart : skipSpace (l.chars ++ rest) = l.chars ++ rest := by
    rw [chars_append]
    exact h.bare.skipSpace_append _
  have hLine := h.assignment?_append rest
  obtain ⟨c, name, hKey, hc⟩ := h.bare.exists_cons
  obtain ⟨more, hText⟩ : ∃ more, l.chars ++ rest = c :: more :=
    ⟨_, by rw [chars_append, hKey, List.cons_append]⟩
  have hne : ∀ e, isBare e = false → c ≠ e := fun e he => ne_of_isBare hc he
  have hNewline : newline? (c :: more) = none := by
    rw [newline?.eq_def]
    simp [hne '\n' (by decide), hne '\r' (by decide)]
  rw [hText] at hStart hLine ⊢
  rw [lines?.eq_def]
  simp only [hStart]
  split
  · next hNil => cases hNil
  · next hComment => exact absurd (List.cons.inj hComment).1 (hne '#' (by decide))
  · next hElement => exact absurd (List.cons.inj hElement).1 (hne '[' (by decide))
  · next hHeader => exact absurd (List.cons.inj hHeader).1 (hne '[' (by decide))
  · rw [hNewline]
    simp only [hLine, Option.bind_eq_bind, Option.bind_some]
    rfl

end Line

theorem Entries.add_of_not_mem {entries : Entries} {key : String} (h : key ∉ entries.map Prod.fst)
    (item : Item) : entries.add key item = some (entries ++ [(key, item)]) := by
  have hNone : entries.find? key = none := by
    apply List.lookup_eq_none_iff.mpr
    intro e he
    apply bne_iff_ne.mpr
    rintro rfl
    exact h (List.mem_map_of_mem he)
  rw [Entries.add, hNone]

/-- A new key in the only table of a document. -/
theorem Entries.changeAt_put {entries : Entries} {key : String} (h : key ∉ entries.map Prod.fst)
    (name : String) (item : Item) :
    changeAt (put key item []) [name] [(name, .table .header entries)] =
      some [(name, .table .header (entries ++ [(key, item)]))] := by
  simp [changeAt, find?, put, add_of_not_mem h, replace]

/-- The lines of a table are entered one after the other. -/
theorem lines?_flatMap {name : String} {ls : List Line} (hProper : ∀ l ∈ ls, l.Proper)
    (entries : Entries) (hFresh : ((entries ++ ls.map Line.entry).map Prod.fst).Nodup) {fuel : Nat}
    (hFuel : ls.length < fuel) :
    lines? fuel (ls.flatMap Line.chars) [name] [(name, .table .header entries)] =
      some [(name, .table .header (entries ++ ls.map Line.entry))] := by
  induction ls generalizing entries fuel with
  | nil =>
    cases fuel with
    | zero => cases hFuel
    | succ fuel =>
      rw [List.map_nil, List.append_nil]
      rfl
  | cons l ls ih =>
    cases fuel with
    | zero => cases hFuel
    | succ fuel =>
      obtain ⟨hFirst, hRest⟩ := List.forall_mem_cons.mp hProper
      have hNew : l.entry.1 ∉ entries.map Prod.fst := by
        intro hOld
        rw [List.map_append, List.nodup_append] at hFresh
        exact hFresh.2.2 _ hOld _ (List.mem_map_of_mem List.mem_cons_self) rfl
      have hAll : entries ++ (l :: ls).map Line.entry =
          (entries ++ [l.entry]) ++ ls.map Line.entry := by simp
      rw [hAll] at hFresh ⊢
      rw [List.flatMap_cons, hFirst.lines?_append, Entries.changeAt_put hNew, Option.bind_some]
      exact ih hRest _ hFresh (Nat.lt_of_succ_lt_succ hFuel)

/-- A line has a character at least, so the length of a text is enough fuel for its lines. -/
theorem length_le_flatMap_chars (ls : List Line) : ls.length ≤ (ls.flatMap Line.chars).length := by
  induction ls with
  | nil => exact Nat.zero_le _
  | cons l ls ih =>
    simp only [List.flatMap_cons, List.length_append, List.length_cons, Line.chars]
    omega

/-- A header with lines below it. -/
def tableText (name : String) (ls : List Line) : String :=
  String.ofList ('[' :: (name.toList ++ ']' :: '\n' :: ls.flatMap Line.chars))

theorem ofText?_tableText {name : String} (hName : Bare name.toList) {ls : List Line}
    (hProper : ∀ l ∈ ls, l.Proper) (hFresh : ((ls.map Line.entry).map Prod.fst).Nodup) :
    ofText? (tableText name ls) = some [(name, .table .header (ls.map Line.entry))] := by
  have hHeader := header?_bare hName (ls.flatMap Line.chars)
  rw [String.ofList_toList] at hHeader
  obtain ⟨c, more, hText, hc⟩ := hName.exists_cons
  have hSpace (text : List Char) : skipSpace ('[' :: text) = '[' :: text := rfl
  rw [tableText, ofText?, String.toList_ofList]
  show lines? (_ + 1) ('[' :: (name.toList ++ ']' :: '\n' :: ls.flatMap Line.chars)) [] [] = _
  rw [lines?.eq_def]
  simp only [hSpace]
  split
  · next hNil => cases hNil
  · next hComment => exact absurd (List.cons.inj hComment).1 (by decide)
  · next hElement =>
    -- the name does not start with a bracket
    rw [hText] at hElement
    exact absurd (List.cons.inj (List.cons.inj hElement).2).1 (ne_of_isBare hc (by decide))
  · next hRest =>
    obtain rfl := (List.cons.inj hRest).2
    rw [hHeader]
    refine lines?_flatMap hProper [] hFresh (Nat.lt_succ_of_le ?_)
    calc ls.length ≤ (ls.flatMap Line.chars).length := length_le_flatMap_chars ls
      _ ≤ (name.toList ++ ']' :: '\n' :: ls.flatMap Line.chars).length := by
        simp only [List.length_append, List.length_cons]
        omega
  · next hOther => exact absurd rfl (hOther _)

end QueryTree.Toml
