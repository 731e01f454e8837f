import CallPatch.CallSite
/-!
# Agents — what goes wrong

The errors that whoever starts an agent or reports a call site gets to see.
-/

namespace CallPatch

/-- Why an agent is not started or takes no report. -/
inductive AgentError where
  /-- A call site was reported where no agent is installed. -/
  | notInstalled
  | alreadyInstalled
  /-- The store was loaded before the agent could extend it. -/
  | baseAlreadyLoaded (owner : String)
  | invalidCallSite (reason : String)
  /-- The coordinator could not be started. -/
  | spawn (reason : String)
  deriving DecidableEq, Repr

namespace AgentError

/-- The error in words. -/
def message : AgentError → String
  | .notInstalled => "no voidput agent installed"
  | .alreadyInstalled => "a voidput agent is already installed"
  | .baseAlreadyLoaded owner =>
    s!"base store implementation {owner} was loaded before the agent"
  | .invalidCallSite reason => s!"invalid call site: {reason}"
  | .spawn reason => s!"failed to spawn coordinator thread: {reason}"

/-- The error that a defect of a call site makes. -/
def ofDefect (d : SiteDefect) : AgentError :=
  .invalidCallSite d.message

end AgentError

end CallPatch
