/-! What a run can read.  A `FileTree` holds files by the names that lead to them from the root;
`FileTree.read` follows a path step by step, and every step needs a directory to start from. -/

namespace QueryTree.CommandLine

inductive ReadFault where
  | missing
  | directory
  | notDirectory
  | nameTooLong
  | notText
  | other (reason : String)
deriving DecidableEq

def ReadFault.message : ReadFault → String
  | .missing => "No such file or directory (os error 2)"
  | .directory => "Is a directory (os error 21)"
  | .notDirectory => "Not a directory (os error 20)"
  | .nameTooLong => "File name too long (os error 36)"
  | .notText => "stream did not contain valid UTF-8"
  | .other reason => reason

/-- What stands at a place of a file tree. -/
inductive Place where
  | file (content : Except ReadFault String)
  | directory

structure FileTree where
  /-- The files, each with the names that lead to it from the root. -/
  files : List (List String × Except ReadFault String)
  /-- Directories that may be without files. -/
  directories : List (List String)
  /-- The directory that a path starts from unless it starts with a slash. -/
  working : List String

namespace FileTree

/-- What stands where names lead from the root.  The way to a file or directory is made of
directories. -/
def place? (t : FileTree) (names : List String) : Option Place :=
  match t.files.lookup names with
  | some content => some (.file content)
  | none =>
    if (t.working :: t.directories ++ t.files.map Prod.fst).any names.isPrefixOf then
      some .directory
    else none

def nameLimit : Nat := 255

/-- Paths have fewer octets than this. -/
def pathLimit : Nat := 4096

/-- One step along a path: to a name within a directory, up from it, or nowhere.  The root is its
own parent. -/
def step (t : FileTree) (here : List String) (name : String) : Except ReadFault (List String) :=
  match t.place? here with
  | none => .error .missing
  | some (.file _) => .error .notDirectory
  | some .directory =>
    if name = "." then .ok here
    else if name = ".." then .ok here.dropLast
    else if nameLimit < name.utf8ByteSize then .error .nameTooLong
    else if (t.place? (here ++ [name])).isSome then .ok (here ++ [name])
    else .error .missing

/-- The text of the file at a path.  Only the path of a directory may end with a slash. -/
def read (t : FileTree) (path : String) : Except ReadFault String :=
  if path.isEmpty then .error .missing
  else if pathLimit ≤ path.utf8ByteSize then .error .nameTooLong
  else do
    let start := if path.startsWith "/" then [] else t.working
    let reached ← ((path.splitOn "/").filter (· ≠ "")).foldlM t.step start
    match t.place? reached with
    | none => .error .missing
    | some .directory => .error .directory
    | some (.file content) => if path.endsWith "/" then .error .notDirectory else content

end FileTree

end QueryTree.CommandLine
