import QueryTree.Json.Decode
import QueryTree.Scalar

/-! Scalars in documents.  A scalar is written without its sort; the reader takes the sort from
the form of the document and, for a text, from what it denotes. -/

namespace QueryTree.Scalar

/-- The document of a scalar.  A double that is not finite is written as `null`. -/
def toJson : Scalar → Json
  | .null => .null
  | .bool b => .bool b
  | .int n => .integer n.toInt
  | .uint n => .integer n.toNat
  | .float x => .number (.real x)
  | .timestamp text => .string text
  | .date text => .string text
  | .string text => .string text
  | .bytes octets => .array (octets.map fun o => .integer o.toNat)

/-- The scalar of an integer: signed if it fits, else unsigned. -/
def ofInteger (n : Int) : Option Scalar :=
  if -0x8000000000000000 ≤ n ∧ n < 0x8000000000000000 then some (.int (Int64.ofInt n))
  else if 0x8000000000000000 ≤ n ∧ n < 0x10000000000000000 then some (.uint n.toNat.toUInt64)
  else none

/-- The octet that an item of an array stands for. -/
def octet? : Draft → Option UInt8
  | .number (.integer n) => if 0 ≤ n ∧ n < 256 then some n.toNat.toUInt8 else none
  | _ => none

/-- The scalar of a readable draft. -/
def ofDraft? : Draft → Option Scalar
  | .null => some .null
  | .bool b => some (.bool b)
  | .number (.integer n) => ofInteger n
  | .number (.real x) => some (.float x)
  | .string s => some (ofText s)
  | .array items _ => (items.mapM octet?).map .bytes
  | _ => none

/-- Reads a scalar.  The whole of the document is read before its sort is looked for. -/
def read : Reader Scalar
  | mode, d => do
    mode.keep d
    match ofDraft? d with
    | some v => .ok v
    | none => .error .noScalar

end QueryTree.Scalar
