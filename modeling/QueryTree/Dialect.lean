/-! A dialect says how a statement writes names and placeholders: the character on both sides of a
name, and the text of the placeholder with a given index.  `Settings` are the dialects that a
configuration can choose. -/

namespace QueryTree

/-- How names and placeholders are written. -/
structure Dialect where
  /-- The character on both sides of a name; a name that contains it is not escaped. -/
  quote : Char
  /-- The placeholder of the binding with the given index, counted from zero. -/
  placeholder : Nat → String

/-- Double quotes, and a dollar sign before the index. -/
def Dialect.standard : Dialect where
  quote := '"'
  placeholder index := "$" ++ toString index

structure Settings where
  identifierQuote : Char := '"'
  placeholderLead : String := "$"
  /-- The number of the first placeholder. -/
  placeholderBase : Nat := 0
deriving DecidableEq

def Settings.dialect (s : Settings) : Dialect where
  quote := s.identifierQuote
  placeholder index := s.placeholderLead ++ toString (index + s.placeholderBase)

theorem Settings.dialect_default : ({} : Settings).dialect = Dialect.standard := rfl

end QueryTree
