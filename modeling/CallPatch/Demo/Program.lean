import CallPatch.Demo.Display
/-!
# A run of the program

What a log setting and the arguments make of the program: a report to show, or
a reason to stop with an exit status of its own. The log setting is looked at
first.
-/

namespace CallPatch.Demo

/-- Why the program stops with nothing to show. -/
inductive Stop where
  /-- The log setting would be cut inside a character. -/
  | setting
  | usage (cause : UsageError)
  | scenario (cause : Failure)
  deriving DecidableEq, Repr

namespace Stop

/-- The reason in words. -/
def message : Stop → String
  | .setting => "the log setting is cut inside a character"
  | .usage cause => cause.message
  | .scenario cause => cause.message

/-- The exit status. -/
def status : Stop → Nat
  | .setting => 101
  | .usage _ => 1
  | .scenario _ => 1

end Stop

/-- What a scenario comes to, with what decides how it is shown. -/
structure Report where
  request : Request
  filter : Log.Filter
  outcome : Outcome
  deriving DecidableEq, Repr

namespace Report

/-- The snapshot, in the form asked for. -/
def shown (r : Report) : String :=
  r.outcome.shown r.request.json

/-- The closing figure, unless it is hidden. -/
def closing? (r : Report) : Option Closing :=
  r.outcome.shownClosing? r.filter

/-- Runs the scenario that the arguments name. -/
def ofArguments (setting : Option String) (config : AgentConfig) (arguments : List String) :
    Except Stop Report := do
  let some filter := Log.Filter.ofSetting? setting | .error .setting
  let request ← (Request.ofArguments arguments).mapError .usage
  let outcome ← (request.run config).mapError .scenario
  return { request, filter, outcome }

/-- The files a run leaves in the dump directory. One that stops leaves it as it was: empty. -/
def dumps : Except Stop Report → Dump.Directory
  | .ok r => r.outcome.dumps
  | .error _ => .empty

end Report

end CallPatch.Demo
