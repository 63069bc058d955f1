/-! JSON documents as values.  A number is an integer or a double; the members of an object keep
the order in which they are written. -/

namespace QueryTree

inductive Number where
  | integer (n : Int)
  | real (x : Float)
deriving DecidableEq

inductive Json where
  | null
  | bool (b : Bool)
  | number (n : Number)
  | string (s : String)
  | array (items : List Json)
  | object (members : List (String × Json))

def Json.integer (n : Int) : Json := .number (.integer n)

end QueryTree
