import CallPatch.Demo.Scenario
/-!
# Command line of the demonstrations

The arguments name one scenario. Before or after it may stand options, each
at most once: `--threads` with a number behind it or after an equals sign, and
flags. A flag is set by its name alone, by nothing or a word for yes after an
equals sign, and cleared by any other word or by `no-` in front of its name.
The flag `--json` chooses the form of the output; where `--help` or
`--version`, also written `-h` and `-V`, is set, no scenario runs. Behind a
bare `--` only the scenario may stand.
-/

namespace CallPatch.Demo

/-- The options that are set or not. -/
inductive Flag where
  | json
  | help
  | version
  deriving DecidableEq, Repr

namespace Flag

/-- The name of a flag, without the dashes. -/
def name : Flag → String
  | .json => "json"
  | .help => "help"
  | .version => "version"

/-- The letter that stands for a flag behind a single dash. -/
def letter? : Flag → Option Char
  | .json => none
  | .help => some 'h'
  | .version => some 'V'

/-- Every flag. -/
def all : List Flag :=
  [.json, .help, .version]

/-- The flag of that name. -/
def ofName? (text : String) : Option Flag :=
  all.find? fun f => f.name = text

/-- The flag of that letter. -/
def ofLetter? (text : String) : Option Flag :=
  all.find? fun f => f.letter?.map String.singleton = some text

/-- Whether a word means yes, in any case; the empty one does. -/
def isYes (word : String) : Bool :=
  ["", "true", "yes", "on", "1"].contains (String.ofList (word.toList.map Char.toLower))

end Flag

/-- What is wrong with the arguments. -/
inductive UsageError where
  | unexpected (argument : String)
  | repeated (option : String)
  | badNumber (text : String)
  | missingNumber
  | missingScenario
  /-- The arguments ask for something else than a scenario. -/
  | aside (flag : Flag)
  deriving DecidableEq, Repr

namespace UsageError

/-- How the program is called. -/
def usage : String :=
  "usage: voidput-examples [--json] [--threads N] " ++
    "failing-host|concurrent-reporters|instrumented-store"

/-- The error in words. -/
def message : UsageError → String
  | .unexpected argument => s!"unexpected argument {argument}"
  | .repeated option => s!"--{option} is given twice"
  | .badNumber text => s!"{text} is no number of threads"
  | .missingNumber => "--threads needs a number"
  | .missingScenario =>
    "expected a scenario: failing-host, concurrent-reporters or instrumented-store"
  | .aside .version => "voidput-examples 0.1.0"
  | .aside _ => usage

end UsageError

namespace Scenario

/-- The word that names the scenario. -/
def word : Scenario → String
  | .concurrentReporters => "concurrent-reporters"
  | .failingHost => "failing-host"
  | .instrumentedStore => "instrumented-store"

/-- Every scenario. -/
def all : List Scenario :=
  [.concurrentReporters, .failingHost, .instrumentedStore]

/-- The scenario a word names. -/
def ofWord? (text : String) : Option Scenario :=
  all.find? fun s => s.word = text

/-- Every scenario is found by its word. -/
theorem ofWord?_word (s : Scenario) : ofWord? s.word = some s := by
  cases s <;> decide

end Scenario

/-- What has been read from the arguments so far. -/
structure Choices where
  flags : List (Flag × Bool)
  threads : Option Nat
  scenario : Option Scenario
  deriving DecidableEq, Repr

namespace Choices

/-- Nothing chosen yet. -/
def empty : Choices :=
  { flags := [], threads := none, scenario := none }

/-- Whether a flag is set. -/
def has (c : Choices) (flag : Flag) : Bool :=
  (c.flags.lookup flag).getD false

/-- Sets or clears a flag, unless it was given before. -/
def chooseFlag (c : Choices) (flag : Flag) (value : Bool) : Except UsageError Choices :=
  if (c.flags.lookup flag).isSome then .error (.repeated flag.name)
  else .ok { c with flags := (flag, value) :: c.flags }

/-- The number of threads in a text: a decimal numeral below 2 ^ 32. -/
def threads? (text : String) : Option Nat :=
  match Numeral.integer? false text.toList with
  | some i => if i.toNat < UInt32.size then some i.toNat else none
  | none => .none

/-- Takes a number of threads, unless one was given. -/
def chooseThreads (c : Choices) (text : String) : Except UsageError Choices :=
  match threads? text with
  | none => .error (.badNumber text)
  | some count =>
    if c.threads.isSome then .error (.repeated "threads")
    else .ok { c with threads := some count }

/-- Takes an argument for the scenario, unless one was named. -/
def chooseScenario (c : Choices) (argument : String) : Except UsageError Choices :=
  match Scenario.ofWord? argument with
  | none => .error (.unexpected argument)
  | some s =>
    if c.scenario.isSome then .error (.unexpected argument) else .ok { c with scenario := some s }

/-- The name of an option, and the text after an equals sign if there is one. -/
def parts (option : List Char) : String × Option String :=
  match option.dropWhile (· ≠ '=') with
  | [] => (String.ofList option, none)
  | _ :: text => (String.ofList (option.takeWhile (· ≠ '=')), some (String.ofList text))

/-- The name of a flag behind `no-`. -/
def negated? (name : String) : Option Flag :=
  match name.toList with
  | 'n' :: 'o' :: '-' :: rest => Flag.ofName? (String.ofList rest)
  | _ => none

/-- Takes an option that needs no further argument. -/
def chooseOption (c : Choices) (option : List Char) : Except UsageError Choices :=
  let (name, text) := parts option
  match Flag.ofName? name, negated? name, text with
  | some flag, _, text => c.chooseFlag flag ((text.map Flag.isYes).getD true)
  | none, some flag, _ => c.chooseFlag flag false
  | none, none, some text =>
    if name = "threads" then c.chooseThreads text else .error (.unexpected name)
  | none, none, none => .error (.unexpected name)

/-- Takes the letter of a flag. -/
def chooseLetter (c : Choices) (option : List Char) : Except UsageError Choices :=
  let (letter, text) := parts option
  match Flag.ofLetter? letter with
  | some flag => c.chooseFlag flag ((text.map Flag.isYes).getD true)
  | none => .error (.unexpected letter)

/-- Takes an argument that needs no further one. -/
def choose (c : Choices) (argument : String) : Except UsageError Choices :=
  match argument.toList with
  | '-' :: '-' :: option => c.chooseOption option
  | '-' :: option => c.chooseLetter option
  | _ => c.chooseScenario argument

/-- Reads the arguments from left to right. -/
def read (c : Choices) : List String → Except UsageError Choices
  | [] => .ok c
  | "--" :: rest => rest.foldlM chooseScenario c
  | ["--threads"] => .error .missingNumber
  | "--threads" :: text :: rest => do read (← c.chooseThreads text) rest
  | argument :: rest => do read (← c.choose argument) rest

end Choices

/-- One scenario to run, and how to show what comes of it. -/
structure Request where
  scenario : Scenario
  json : Bool
  threads : Nat
  deriving DecidableEq, Repr

namespace Request

/-- The number of threads where none is given. -/
def defaultThreads : Nat := 8

/-- The request the arguments make. At least one thread runs. -/
def ofArguments (arguments : List String) : Except UsageError Request := do
  let c ← Choices.empty.read arguments
  if c.has .help then .error (.aside .help)
  else if c.has .version then .error (.aside .version)
  else
    match c.scenario with
    | none => .error .missingScenario
    | some scenario =>
      return { scenario, json := c.has .json,
               threads := max 1 (c.threads.getD defaultThreads) }

/-- Runs the scenario asked for. -/
def run (r : Request) (config : AgentConfig) : Except Failure Outcome :=
  r.scenario.run r.threads config

end Request

end CallPatch.Demo
