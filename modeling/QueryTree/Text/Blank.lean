/-! White space as Unicode's `White_Space` property lists it, and the size of a text in UTF-8.
`isBlank` decides the property, `dropBlank` passes over a run of it, and `utf8Size` counts the
octets that a list of characters takes. -/

namespace QueryTree.Text

/-- The ranges of code points with the property `White_Space`, in ascending order. -/
def blankRanges : List (Nat × Nat) :=
  [(0x09, 0x0D), (0x20, 0x20), (0x85, 0x85), (0xA0, 0xA0), (0x1680, 0x1680), (0x2000, 0x200A),
    (0x2028, 0x2029), (0x202F, 0x202F), (0x205F, 0x205F), (0x3000, 0x3000)]

/-- A character is blank when its code point lies in one of the ranges. -/
def isBlank (c : Char) : Bool :=
  blankRanges.any fun (low, high) => low ≤ c.toNat && c.toNat ≤ high

/-- The text after its leading blank characters. -/
def dropBlank (text : List Char) : List Char := text.dropWhile isBlank

/-- The number of octets of a text in UTF-8. -/
def utf8Size : List Char → Nat
  | [] => 0
  | c :: rest => c.utf8Size + utf8Size rest

@[simp] theorem utf8Size_nil : utf8Size [] = 0 := rfl

@[simp] theorem utf8Size_cons (c : Char) (rest : List Char) :
    utf8Size (c :: rest) = c.utf8Size + utf8Size rest := rfl

/-- No text has more characters than octets. -/
theorem length_le_utf8Size (text : List Char) : text.length ≤ utf8Size text := by
  induction text with
  | nil => simp
  | cons c rest ih =>
    have positive := c.utf8Size_pos
    simp only [List.length_cons, utf8Size_cons]
    omega

end QueryTree.Text
