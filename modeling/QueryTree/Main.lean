import QueryTree.CommandLine.Run

/-! The program: collects the surroundings of a run, and prints its report. -/

open QueryTree.CommandLine

/-- Whether an error code has the given number; codes come with either sign. -/
def hasNumber (code number : UInt32) : Bool := code = number || -code = number

/-- The fault that an error of the operating system stands for. -/
def faultOf (e : IO.Error) : ReadFault :=
  match e with
  | .noFileOrDirectory _ _ _ => .missing
  | .inappropriateType _ code _ => if hasNumber code 21 then .directory else .notDirectory
  | .invalidArgument _ code _ => if hasNumber code 36 then .nameTooLong else .other (toString e)
  | _ => .other (toString e)

def textOf (octets : ByteArray) : Except ReadFault String :=
  match String.fromUTF8? octets with
  | some text => .ok text
  | none => .error .notText

def readText (path : String) : IO (Except ReadFault String) := do
  try
    return textOf (← IO.FS.readBinFile path)
  catch e =>
    return .error (faultOf e)

/-- Reads standard input to its end. -/
partial def readInput (stream : IO.FS.Stream) (found : ByteArray) : IO ByteArray := do
  let more ← stream.read 65536
  if more.isEmpty then return found else readInput stream (found ++ more)

/-- The user's directory for configurations. -/
def findConfigDirectory : IO (Option String) := do
  match ← IO.getEnv "XDG_CONFIG_HOME" with
  | some path => if path.startsWith "/" then return some path
  | none => pure ()
  return (← IO.getEnv "HOME").map (· ++ "/.config")

/-- Whether output is coloured: on a terminal, unless the environment decides. -/
def findColors : IO Bool := do
  match ← IO.getEnv "CLICOLOR_FORCE" with
  | some value => if value ≠ "0" then return true
  | none => pure ()
  if (← IO.getEnv "NO_COLOR").isSome then return false
  (← IO.getStdout).isTty

/-- The files that a run may look at. -/
def candidates (usage : Usage) (configDirectory : Option String) : List String :=
  match usage with
  | .run ⟨command, config, _⟩ =>
    let input := match command with
      | .compile input _ => [input]
      | .explain input => [input]
      | .keywords => []
    input ++ config.toList ++ localConfig :: (configDirectory.map userConfig).toList
  | _ => []

def main (args : List String) : IO UInt32 := do
  let configVariable ← IO.getEnv "OPSQL_CONFIG"
  let configDirectory ← findConfigDirectory
  let colors ← findColors
  let paths := candidates (Usage.ofArguments configVariable args) configDirectory
  let standardInput ←
    if paths.contains "-" then pure (textOf (← readInput (← IO.getStdin) .empty)) else pure (.ok "")
  let contents ← paths.mapM fun path => return (path, ← readText path)
  let surroundings : Surroundings := {
    standardInput
    file := fun path => (contents.lookup path).getD (.error .missing)
    configVariable, configDirectory, colors }
  let report := run surroundings args
  IO.print (report.outputText surroundings)
  IO.eprint (report.errorText surroundings)
  return report.outcome.exitCode.toUInt32
