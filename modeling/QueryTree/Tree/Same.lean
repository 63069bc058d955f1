import QueryTree.Tree.Basic

/-! Equality of trees: the same kinds in the same places, with the same texts and with scalars that
`Scalar.same` calls equal. -/

namespace QueryTree

/-- Two lists agree when they are equally long and agree place by place. -/
def sameScalars : List Scalar → List Scalar → Bool
  | [], [] => true
  | a :: as, b :: bs => a.same b && sameScalars as bs
  | _, _ => false

mutual

/-- Equality of nodes. -/
def Node.same : Node → Node → Bool
  | .identifier a, .identifier b => a == b
  | .reference t c, .reference t' c' => t.same t' && c.same c'
  | .table s t, .table s' t' => s == s' && t == t'
  | .aliased n a, .aliased n' a' => n.same n' && a == a'
  | .selection n, .selection n' => n.same n'
  | .selectAll, .selectAll => true
  | .select s, .select s' => s.same s'
  | .query q, .query q' => q.same q'
  | .filter l o r, .filter l' o' r' => sameOption l l' && o.same o' && r.same r'
  | .and l r, .and l' r' => l.same l' && r.same r'
  | .or l r, .or l' r' => l.same l' && r.same r'
  | .parens n, .parens n' => n.same n'
  | .value v, .value v' => v.same v'
  | .valueList ns, .valueList ns' => sameNodes ns ns'
  | .scalarList vs, .scalarList vs' => sameScalars vs vs'
  | .join j, .join j' => j.same j'
  | .operator t, .operator t' => t == t'
  | .raw r, .raw r' => r.same r'
  | _, _ => false
termination_by structural x => x

def Select.same : Select → Select → Bool
  | ⟨ns, os, d⟩, ⟨ns', os', d'⟩ => sameNodes ns ns' && sameNodes os os' && d == d'
termination_by structural x => x

def Query.same : Query → Query → Bool
  | ⟨s, ns, js, c, l⟩, ⟨s', ns', js', c', l'⟩ =>
    sameSelect s s' && sameNodes ns ns' && sameJoins js js' && sameOption c c' && l == l'
termination_by structural x => x

def Join.same : Join → Join → Bool
  | ⟨k, t, c⟩, ⟨k', t', c'⟩ => k == k' && t.same t' && sameOption c c'
termination_by structural x => x

def Raw.same : Raw → Raw → Bool
  | ⟨fs, ps⟩, ⟨fs', ps'⟩ => fs == fs' && sameNodes ps ps'
termination_by structural x => x

def sameNodes : List Node → List Node → Bool
  | [], [] => true
  | n :: ns, n' :: ns' => n.same n' && sameNodes ns ns'
  | _, _ => false
termination_by structural x => x

def sameJoins : List Join → List Join → Bool
  | [], [] => true
  | j :: js, j' :: js' => j.same j' && sameJoins js js'
  | _, _ => false
termination_by structural x => x

def sameOption : Option Node → Option Node → Bool
  | none, none => true
  | some n, some n' => n.same n'
  | _, _ => false
termination_by structural x => x

def sameSelect : Option Select → Option Select → Bool
  | none, none => true
  | some s, some s' => s.same s'
  | _, _ => false
termination_by structural x => x

end

end QueryTree
