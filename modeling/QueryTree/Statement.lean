import QueryTree.Dialect
import QueryTree.Tree.Build

/-! From a tree to a statement.  A visit of a node extends the statement text and the bindings
that were collected before it; `Progress` holds both, with the number of queries that enclose the
place.  Every placeholder takes the number of bindings before it as its index, and every query
within another one stands between parentheses.

An `Emission` is a step of a compilation, and `++` runs one step after the other up to the first
failure.  `Query.compile` runs the emission of a query from nothing. -/

namespace QueryTree

/-- What a compilation has produced so far. -/
structure Progress where
  sql : String := ""
  bindings : Array Scalar := #[]
  /-- The number of queries that enclose the place. -/
  depth : Nat := 0

/-- A step of a compilation: the progress after it, and its error if it fails. -/
def Emission := Progress → Progress × Option Error

namespace Emission

def nothing : Emission := fun p => (p, none)

def fail (e : Error) : Emission := fun p => (p, some e)

/-- One step after the other; after a failure the second is not run. -/
def append (first second : Emission) : Emission := fun p =>
  match first p with
  | (after, none) => second after
  | (after, some e) => (after, some e)

instance : Append Emission := ⟨append⟩

def text (s : String) : Emission := fun p => ({ p with sql := p.sql ++ s }, none)

/-- A second step starts where a first step that did not fail has ended. -/
theorem append_apply_of_ok {first second : Emission} {p after : Progress}
    (h : first p = (after, none)) : (first ++ second) p = second after := by
  show append first second p = _
  simp only [append, h]

/-- A second step is not run after a first step that failed. -/
theorem append_apply_of_fail {first second : Emission} {p after : Progress} {e : Error}
    (h : first p = (after, some e)) : (first ++ second) p = (after, some e) := by
  show append first second p = _
  simp only [append, h]

@[simp] theorem nothing_append (step : Emission) : nothing ++ step = step := rfl

@[simp] theorem append_nothing (step : Emission) : step ++ nothing = step := by
  funext p
  rcases h : step p with ⟨after, _ | e⟩
  · exact append_apply_of_ok h
  · exact append_apply_of_fail h

/-- Steps can be grouped in either way. -/
theorem append_assoc (a b c : Emission) : a ++ b ++ c = a ++ (b ++ c) := by
  funext p
  show append (append a b) c p = append a (append b c) p
  simp only [append]
  rcases a p with ⟨after, _ | e⟩ <;> rfl

theorem text_append_text (s t : String) : text s ++ text t = text (s ++ t) := by
  funext p
  show (({ p with sql := p.sql ++ s ++ t } : Progress), none) = _
  rw [String.append_assoc]
  rfl

/-- Extends the statement text by each text in turn. -/
def texts : List String → Emission
  | [] => nothing
  | s :: rest => text s ++ texts rest

def name (d : Dialect) (s : String) : Emission :=
  text (d.quote.toString ++ s ++ d.quote.toString)

/-- Writes the next placeholder and binds a scalar to it. -/
def bind (d : Dialect) (v : Scalar) : Emission := fun p =>
  ({ p with
      sql := p.sql ++ d.placeholder p.bindings.size
      bindings := p.bindings.push v }, none)

/-- Binds scalars one after the other, with commas between them. -/
def bindAll (d : Dialect) : List Scalar → Emission
  | [] => nothing
  | [v] => bind d v
  | v :: vs => bind d v ++ text ", " ++ bindAll d vs

/-- Runs the body of a query one level deeper, between parentheses unless it is the outermost.  The
closing parenthesis and the old depth come back also when the body fails. -/
def nested (body : Emission) : Emission := fun p =>
  let enclosed := 0 < p.depth
  let (after, failure) :=
    body { p with sql := if enclosed then p.sql ++ "(" else p.sql, depth := p.depth + 1 }
  ({ after with
      sql := if enclosed then after.sql ++ ")" else after.sql
      depth := after.depth - 1 }, failure)

def schema (d : Dialect) : Option String → Emission
  | none => nothing
  | some s => name d s ++ text "."

def distinct : Bool → Emission
  | false => nothing
  | true => text distinctKeyword ++ text " "

def lock : Option Lock → Emission
  | none => nothing
  | some l => text " " ++ text l.keyword

end Emission

open Emission

mutual

def Node.emit (d : Dialect) : Node → Emission
  | .identifier s => name d s
  | .reference table column => table.emit d ++ text "." ++ column.emit d
  | .table s t => schema d s ++ name d t
  | .aliased node s => node.emit d ++ text " as " ++ name d s
  | .selection node => node.emit d
  | .selectAll => text "*"
  | .select s => s.emit d
  | .query q => q.emit d
  | .filter lhs operator rhs =>
    emitOperand d lhs ++ operator.emit d ++ text " " ++ rhs.emit d
  | .and lhs rhs => lhs.emit d ++ text " and " ++ rhs.emit d
  | .or lhs rhs => lhs.emit d ++ text " or " ++ rhs.emit d
  | .parens node => text "(" ++ node.emit d ++ text ")"
  | .value v => bind d v
  | .valueList nodes => text "(" ++ emitList d nodes ++ text ")"
  | .scalarList vs => text "(" ++ bindAll d vs ++ text ")"
  | .join j => j.emit d
  | .operator s => text s
  | .raw r => r.emit d

/-- Visits a select list, which must not be empty. -/
def Select.emit (d : Dialect) : Select → Emission
  | ⟨selections, distinctOn, isDistinct⟩ =>
    if selections.isEmpty then fail (.missingChild "Select" "selections")
    else
      text "select "
        ++ (if distinctOn.isEmpty then nothing
          else text "distinct on (" ++ emitList d distinctOn ++ text ") ")
        ++ distinct isDistinct ++ emitList d selections

/-- Visits a query, which must have a source. -/
def Query.emit (d : Dialect) : Query → Emission
  | ⟨select, sources, joins, condition, l⟩ =>
    if sources.isEmpty then fail (.missingChild "Query" "from")
    else
      nested <|
        emitSelect d select ++ text "from " ++ emitList d sources ++ emitJoins d joins
          ++ emitClause d " where " condition ++ lock l

def Join.emit (d : Dialect) : Join → Emission
  | ⟨kind, table, condition⟩ =>
    text kind.keyword ++ text " " ++ table.emit d ++ emitClause d " on " condition

/-- Visits a raw node, whose fragments and parameters must alternate. -/
def Raw.emit (d : Dialect) : Raw → Emission
  | ⟨fragments, params⟩ =>
    match Raw.arityError? ⟨fragments, params⟩ with
    | some e => fail e
    | none => emitRaw d params fragments

/-- Visits nodes one after the other, with commas between them. -/
def emitList (d : Dialect) : List Node → Emission
  | [] => nothing
  | [n] => n.emit d
  | n :: ns => n.emit d ++ text ", " ++ emitList d ns

/-- Visits joins one after the other, each after a space. -/
def emitJoins (d : Dialect) : List Join → Emission
  | [] => nothing
  | j :: js => text " " ++ j.emit d ++ emitJoins d js

/-- Visits parameters, each after its fragment; the fragments that are left follow. -/
def emitRaw (d : Dialect) : List Node → List String → Emission
  | [], fragments => texts fragments
  | _ :: _, [] => nothing
  | p :: ps, f :: fs => text f ++ p.emit d ++ emitRaw d ps fs

def emitSelect (d : Dialect) : Option Select → Emission
  | none => nothing
  | some s => s.emit d ++ text " "

def emitOperand (d : Dialect) : Option Node → Emission
  | none => nothing
  | some n => n.emit d ++ text " "

/-- Visits a condition after its keyword, if there is one. -/
def emitClause (d : Dialect) (keyword : String) : Option Node → Emission
  | none => nothing
  | some n => text keyword ++ n.emit d

end

/-- A statement with the scalars bound to its placeholders, in order. -/
structure Statement where
  sql : String
  bindings : List Scalar

/-- Compiles a tree.  There is no statement unless the whole tree has one. -/
def Query.compile (d : Dialect) (q : Query) : Except Error Statement :=
  match q.emit d {} with
  | (p, none) => .ok ⟨p.sql, p.bindings.toList⟩
  | (_, some e) => .error e

end QueryTree
