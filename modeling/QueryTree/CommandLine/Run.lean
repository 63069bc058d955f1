import QueryTree.CommandLine.Arguments
import QueryTree.CommandLine.Files
import QueryTree.Config
import QueryTree.Json.Printer
import QueryTree.Outline
import QueryTree.Statement
import QueryTree.Tree.Decode
import QueryTree.Tree.Encode

/-! The command line as a function from its surroundings and arguments to a report.  A tree is read
first, then the configuration, and then the tree is compiled; the first failure ends the run, and
what was printed before it stays. -/

namespace QueryTree.CommandLine

/-- What a run can see of the world. -/
structure Surroundings where
  standardInput : Except ReadFault String
  file : String → Except ReadFault String
  /-- The configuration file that the environment names. -/
  configVariable : Option String := none
  /-- The user's directory for configurations. -/
  configDirectory : Option String := none
  colors : Bool := false

inductive Failure where
  | unreadableInput (input : String) (fault : ReadFault)
  | invalidTree (input : String) (reason : DecodeError)
  /-- The configuration cannot be used; its path is given if it was named. -/
  | unreadableConfig (path : Option String) (fault : ReadFault)
  | invalidConfig (path : Option String) (reason : Error)
  | uncompilable (reason : Error)

/-- The context of a configuration that was named. -/
def configContext : Option String → List String
  | none => []
  | some path => ["Failed to load config '" ++ path ++ "'"]

/-- The causes of a failure, from the outermost to the innermost.  The wording of the last one is
abridged for a tree that cannot be decoded and for a document without settings
(`DecodeError.message`, `Settings.ofToml`). -/
def Failure.causes : Failure → List String
  | .unreadableInput input fault =>
    [if input = "-" then "Failed to read stdin" else "Failed to read file '" ++ input ++ "'",
      fault.message]
  | .invalidTree input reason => ["Invalid query tree in '" ++ input ++ "'", reason.message]
  | .unreadableConfig path fault =>
    configContext path ++ [(Error.unreadable fault.message).message, fault.message]
  | .invalidConfig path reason => configContext path ++ [reason.message]
  | .uncompilable reason => [reason.message]

def errorLine (causes : List String) : Line :=
  [.bold .red "Error:", .plain (" " ++ ": ".intercalate causes)]

inductive Outcome where
  | success
  | failed (failure : Failure)
  | misused

/-- What a run prints, and how it ends. -/
structure Report where
  output : List Line
  outcome : Outcome

def Outcome.exitCode : Outcome → Nat
  | .success => 0
  | .failed _ => 1
  | .misused => 2

def versionLine : Line := [.plain "opsql 0.3.0"]

def helpLines : List Line :=
  ["Compile operation-node query trees to SQL", "",
    "Usage: opsql [OPTIONS] <COMMAND>", "",
    "Commands:",
    "  compile   Compile a JSON query tree",
    "  explain   Print the tree outline, then the compiled statement",
    "  keywords  Show the modifier and join keyword tables", "",
    "Options:",
    "  -c, --config <CONFIG>  Compiler config file",
    "  -v, --verbose          Verbose output",
    "  -h, --help             Print help",
    "  -V, --version          Print version"].map fun s => [.plain s]

/-- The file in the working directory that is looked for. -/
def localConfig : String := "opsql.toml"

/-- The file in the user's directory that is looked for. -/
def userConfig (directory : String) : String := directory ++ "/opsql/config.toml"

/-- Reads the tree from a file, or from standard input if the name is a hyphen. -/
def readTree (s : Surroundings) (input : String) : Except Failure Query :=
  match if input = "-" then s.standardInput else s.file input with
  | .error fault => .error (.unreadableInput input fault)
  | .ok text => (Query.ofText text).mapError (.invalidTree input)

def loadSettings (path : Option String) (content : Except ReadFault String) :
    Except Failure Settings :=
  match content with
  | .error fault => .error (.unreadableConfig path fault)
  | .ok text => (Settings.ofToml text).mapError (.invalidConfig path)

/-- Whether there is something at a place. -/
def isPresent (content : Except ReadFault String) : Bool :=
  match content with
  | .error .missing => false
  | .error .notDirectory => false
  | .error .nameTooLong => false
  | _ => true

/-- The settings of a run: from the file that was named, else from the first file found, else the
defaults. -/
def settings (s : Surroundings) (named : Option String) : Except Failure Settings :=
  match named with
  | some path => loadSettings (some path) (s.file path)
  | none =>
    let places := localConfig :: (s.configDirectory.map userConfig).toList
    match (places.map s.file).find? isPresent with
    | some content => loadSettings none content
    | none => .ok {}

/-- The bindings of a statement, one a line with its index and sort. -/
def bindingLines (index : Nat) : List Scalar → List Line
  | [] => []
  | v :: vs =>
    [.plain ("  [" ++ toString index ++ "] "), .color .yellow v.display, .plain " ",
      .dimmed v.typeName] :: bindingLines (index + 1) vs

/-- A statement as text: the statement itself, and its bindings if it has any. -/
def statementLines (st : Statement) : List Line :=
  [.color .white st.sql] ::
    if st.bindings.isEmpty then []
    else [.plain ""] :: [.color .cyan "Bindings:"] :: bindingLines 0 st.bindings

def Format.lines (format : Format) (st : Statement) : List Line :=
  match format with
  | .text => statementLines st
  | .json => [[.plain (st.toJson.indented 0)]]

/-- The placeholders of a statement, one a line with the scalar bound to it. -/
def placeholderLines (d : Dialect) (index : Nat) : List Scalar → List Line
  | [] => []
  | v :: vs =>
    [.plain "  ", .color .cyan (d.placeholder index), .plain " = ", .color .yellow v.display]
      :: placeholderLines d (index + 1) vs

/-- The outline of a tree, and the title of its statement. -/
def outlineLines (q : Query) : List Line :=
  [.bold .green "Tree:"] :: (Outline.query 1 q).map Outline.Entry.line
    ++ [[.plain ""], [.bold .green "Compiled:"]]

/-- A statement below its title. -/
def explainedLines (d : Dialect) (st : Statement) : List Line :=
  [.plain "  ", .color .white st.sql] :: placeholderLines d 0 st.bindings

/-- A text filled up with spaces to a width. -/
def filled (width : Nat) (s : String) : String :=
  s ++ String.ofList (List.replicate (width - s.length) ' ')

/-- A table of document names and keywords under its title. -/
def keywordTable (title : String) (rows : List (String × String)) : List Line :=
  [.bold .cyan title] :: [.dimmed (String.ofList (List.replicate 40 '─'))] ::
    rows.map fun (name, keyword) => [.color .yellow (filled 20 name), .plain (" " ++ keyword)]

def keywordLines : List Line :=
  keywordTable "Query modifiers" (Lock.all.map fun l => (l.name, l.keyword))
    ++ [.plain ""]
    :: keywordTable "Join types" (JoinKind.all.map fun k => (k.name, k.keyword))

/-- A report of a run that prints nothing before it fails. -/
def reportOf (result : Except Failure (List Line)) : Report :=
  match result with
  | .ok output => ⟨output, .success⟩
  | .error failure => ⟨[], .failed failure⟩

def compileReport (s : Surroundings) (config : Option String) (input : String) (format : Format) :
    Report :=
  reportOf do
    let q ← readTree s input
    let dialect := (← settings s config).dialect
    let st ← (q.compile dialect).mapError Failure.uncompilable
    .ok (format.lines st)

/-- Prints the outline of a tree, then compiles it and prints the statement. -/
def explainReport (s : Surroundings) (config : Option String) (input : String) : Report :=
  let prepared : Except Failure (Query × Dialect) := do
    let q ← readTree s input
    .ok (q, (← settings s config).dialect)
  match prepared with
  | .error failure => ⟨[], .failed failure⟩
  | .ok (q, dialect) =>
    match q.compile dialect with
    | .error reason => ⟨outlineLines q, .failed (.uncompilable reason)⟩
    | .ok st => ⟨outlineLines q ++ explainedLines dialect st, .success⟩

def Invocation.report (i : Invocation) (s : Surroundings) : Report :=
  match i.command with
  | .compile input format => compileReport s i.config input format
  | .explain input => explainReport s i.config input
  | .keywords => ⟨keywordLines, .success⟩

def Usage.report (s : Surroundings) : Usage → Report
  | .run invocation => invocation.report s
  | .version => ⟨[versionLine], .success⟩
  | .help => ⟨helpLines, .success⟩
  | .misuse => ⟨[], .misused⟩

def run (s : Surroundings) (args : List String) : Report :=
  (Usage.ofArguments s.configVariable args).report s

def Report.outputText (s : Surroundings) (r : Report) : String := Line.renderAll s.colors r.output

def Report.errorText (s : Surroundings) (r : Report) : String :=
  match r.outcome with
  | .success => ""
  | .failed failure => (errorLine failure.causes).render s.colors
  | .misused => "error: invalid arguments\n"

end QueryTree.CommandLine
