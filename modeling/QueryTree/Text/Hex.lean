/-! Hexadecimal digits, in either case.  Two digits of a small number are read as that number. -/

namespace QueryTree.Text

def hexValue? (c : Char) : Option Nat :=
  if '0' ≤ c ∧ c ≤ '9' then some (c.toNat - '0'.toNat)
  else if 'a' ≤ c ∧ c ≤ 'f' then some (c.toNat - 'a'.toNat + 10)
  else if 'A' ≤ c ∧ c ≤ 'F' then some (c.toNat - 'A'.toNat + 10)
  else none

def hexQuad? (a b c d : Char) : Option Nat := do
  let a ← hexValue? a
  let b ← hexValue? b
  let c ← hexValue? c
  let d ← hexValue? d
  some (((a * 16 + b) * 16 + c) * 16 + d)

theorem hexValue?_digitChar : ∀ n < 16, hexValue? (Nat.digitChar n) = some n := by decide

/-- An octet is written with two digits. -/
theorem hexQuad?_octet {n : Nat} (h : n < 256) :
    hexQuad? '0' '0' (Nat.digitChar (n / 16)) (Nat.digitChar (n % 16)) = some n := by
  have hHigh := hexValue?_digitChar (n / 16) (by omega)
  have hLow := hexValue?_digitChar (n % 16) (by omega)
  have hZero : hexValue? '0' = some 0 := by decide
  simp only [hexQuad?, hHigh, hLow, hZero, Option.bind_eq_bind, Option.bind_some,
    Option.some.injEq]
  omega

end QueryTree.Text
