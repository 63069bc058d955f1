/-! Why a tree has no statement, a template does not fit its parameters, or a configuration is
refused.  Each error is a cause; `Error.message` has the wording. -/

namespace QueryTree

/-- The errors of compiling trees and of configuring a dialect. -/
inductive Error where
  /-- A node lacks a child without which it has no statement text. -/
  | missingChild (node field : String)
  /-- A raw node does not have exactly one more fragment than parameters. -/
  | rawArity (fragments params : Nat)
  | template (position : Nat) (reason : String)
  | config (reason : String)
  | unreadable (reason : String)
deriving DecidableEq, Repr

def Error.message : Error → String
  | .missingChild node field => "Malformed tree: " ++ node ++ " node has no " ++ field
  | .rawArity fragments params =>
    "Raw node has " ++ toString fragments ++ " fragment(s) for " ++ toString params
      ++ " parameter(s)"
  | .template position reason =>
    "Template error at position " ++ toString position ++ ": " ++ reason
  | .config reason => "Configuration error: " ++ reason
  | .unreadable reason => "IO error: " ++ reason

end QueryTree
