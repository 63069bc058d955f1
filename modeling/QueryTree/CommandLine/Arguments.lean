/-! The arguments of the command line.  `Usage.ofArguments` takes them to an invocation, or says
that they ask for the version or for help, or that they make no sense.

Switches stand before or after the name of the command, long or short.  Short ones can share a
hyphen, and the value of a switch follows it in the same argument or is the next argument. -/

namespace QueryTree.CommandLine

/-- How a compiled statement is printed. -/
inductive Format where
  | text
  | json
deriving DecidableEq

def Format.ofName? (name : String) : Option Format :=
  if name = "text" then some .text else if name = "json" then some .json else none

/-- What to do. -/
inductive Command where
  | compile (input : String) (format : Format)
  | explain (input : String)
  | keywords
deriving DecidableEq

/-- What to do, and how. -/
structure Invocation where
  command : Command
  /-- The configuration file that was named. -/
  config : Option String
  verbose : Bool
deriving DecidableEq

inductive Usage where
  | run (invocation : Invocation)
  | version
  | help
  | misuse
deriving DecidableEq

inductive Switch where
  | config
  | verbose
  | format
  | version
  | help
deriving DecidableEq

namespace Switch

def takesValue : Switch → Bool
  | .config => true
  | .format => true
  | _ => false

def long : Switch → String
  | .config => "config"
  | .verbose => "verbose"
  | .format => "format"
  | .version => "version"
  | .help => "help"

def short : Switch → Char
  | .config => 'c'
  | .verbose => 'v'
  | .format => 'f'
  | .version => 'V'
  | .help => 'h'

/-- The switches before the name of a command. -/
def general : List Switch := [.config, .verbose, .version, .help]

end Switch

inductive Event where
  | flag (s : Switch)
  /-- A switch with its value, or with none if that is the next argument. -/
  | valued (s : Switch) (value : Option String)
  | unknown
deriving DecidableEq

/-- A long switch after its hyphens; an equals sign stands between name and value. -/
def longEvent (allowed : List Switch) (arg : List Char) : Event :=
  let name := String.ofList (arg.takeWhile (· ≠ '='))
  let value := match arg.dropWhile (· ≠ '=') with
    | [] => none
    | _ :: value => some (String.ofList value)
  match allowed.find? (fun s => s.long = name), value with
  | none, _ => .unknown
  | some s, value =>
    if s.takesValue then .valued s value
    else if value.isNone then .flag s
    else .unknown

/-- Short switches after their hyphen.  The rest of the argument after a switch with a value is its
value, without a leading equals sign. -/
def shortEvents (allowed : List Switch) : List Char → List Event
  | [] => []
  | c :: rest =>
    match allowed.find? fun s => s.short = c with
    | none => [.unknown]
    | some s =>
      if s.takesValue then
        match rest with
        | [] => [.valued s none]
        | '=' :: value => [.valued s (some (String.ofList value))]
        | value => [.valued s (some (String.ofList value))]
      else .flag s :: shortEvents allowed rest

/-- What the arguments around the name of a command say. -/
structure Found where
  config : Option String := none
  format : Option Format := none
  verbose : Bool := false
  words : List String := []

/-- Why going through arguments ends before their end. -/
inductive Stop where
  | version
  | help
  | misuse
deriving DecidableEq

def Stop.usage : Stop → Usage
  | .version => .version
  | .help => .help
  | .misuse => .misuse

/-- Takes in a switch with its value.  No switch may come twice. -/
def Found.set (found : Found) (s : Switch) (value : String) : Except Stop Found :=
  match s with
  | .config =>
    if found.config.isSome ∨ value.isEmpty then .error .misuse
    else .ok { found with config := some value }
  | .format =>
    match found.format, Format.ofName? value with
    | none, some format => .ok { found with format := some format }
    | _, _ => .error .misuse
  | _ => .error .misuse

/-- Takes in a switch without a value. -/
def Found.raise (found : Found) : Switch → Except Stop Found
  | .verbose => if found.verbose then .error .misuse else .ok { found with verbose := true }
  | .version => .error .version
  | .help => .error .help
  | _ => .error .misuse

/-- Takes in what one argument says.  The second component is a switch that waits for its value. -/
def Found.take (found : Found) : List Event → Except Stop (Found × Option Switch)
  | [] => .ok (found, none)
  | .unknown :: _ => .error .misuse
  | .flag s :: rest => do
    let found ← found.raise s
    found.take rest
  | .valued s (some value) :: rest => do
    let found ← found.set s value
    found.take rest
  | .valued s none :: _ => .ok (found, some s)

/-- Whether an argument is a switch; a hyphen alone is a word. -/
def isSwitch (arg : String) : Bool :=
  match arg.toList with
  | '-' :: _ :: _ => true
  | _ => false

/-- What an argument that is a switch says. -/
def events (allowed : List Switch) (arg : String) : List Event :=
  match arg.toList with
  | '-' :: '-' :: name => [longEvent allowed name]
  | '-' :: names => shortEvents allowed names
  | _ => [.unknown]

/-- Where going through arguments ends: at their end, or at the name of a command. -/
structure Reached where
  found : Found
  command : Option (String × List String) := none

/-- Takes in words; there may be at most `limit` of them. -/
def Found.addWords (found : Found) (limit : Nat) (words : List String) : Except Stop Found :=
  let all := found.words ++ words
  if all.length ≤ limit then .ok { found with words := all } else .error .misuse

/-- Goes through arguments.  With no `limit` on words, the first word is the name of a command.
Two hyphens alone turn all that follows into words. -/
def gather (allowed : List Switch) (limit : Option Nat) :
    List String → Found → Except Stop Reached
  | [], found => .ok { found }
  | arg :: rest, found =>
    if arg = "--" then do
      let found ← found.addWords (limit.getD 0) rest
      .ok { found }
    else if isSwitch arg then do
      let (found, waiting) ← found.take (events allowed arg)
      match waiting with
      | none => gather allowed limit rest found
      | some s =>
        match rest with
        | [] => .error .misuse
        | value :: rest =>
          if isSwitch value then .error .misuse
          else do
            let found ← found.set s value
            gather allowed limit rest found
    else
      match limit with
      | none => .ok { found, command := some (arg, rest) }
      | some limit => do
        let found ← found.addWords limit [arg]
        gather allowed (some limit) rest found

/-- The switches after the name of a command, and the number of its words. -/
def commandShape? (name : String) : Option (List Switch × Nat) :=
  if name = "compile" then some ([.config, .verbose, .format, .help], 1)
  else if name = "explain" then some ([.config, .verbose, .help], 1)
  else if name = "keywords" then some ([.config, .verbose, .help], 0)
  else none

/-- The command with a name and with what the arguments after it say. -/
def command? (name : String) (found : Found) : Option Command :=
  match name, found.words with
  | "compile", [input] => some (.compile input (found.format.getD .text))
  | "explain", [input] => some (.explain input)
  | "keywords", [] => some .keywords
  | _, _ => none

/-- Whether the words after `help` name something to be helped with: the program, or a command. -/
def isTopic : List String → Bool
  | [] => true
  | [name] => name = "help" || (commandShape? name).isSome
  | _ => false

/-- What arguments ask for.  A configuration file named after the command counts before one named
ahead of it, and both before the one that the environment names; the latter must not be empty where
it is looked at. -/
def Usage.ofArguments (fallback : Option String) (args : List String) : Usage :=
  match gather Switch.general none args {} with
  | .error stop => stop.usage
  | .ok ⟨_, none⟩ => .misuse
  | .ok ⟨ahead, some (name, rest)⟩ =>
    if name = "help" then (if isTopic rest then .help else .misuse)
    else match commandShape? name with
      | none => .misuse
      | some (allowed, limit) =>
        match gather allowed (some limit) rest {} with
        | .error stop => stop.usage
        | .ok ⟨after, _⟩ =>
          match command? name after with
          | none => .misuse
          | some command =>
            if fallback = some "" ∧ (ahead.config.isNone ∨ after.config.isNone) then .misuse
            else .run {
              command
              config := after.config.or (ahead.config.or fallback)
              verbose := ahead.verbose || after.verbose }

end QueryTree.CommandLine
