import CallPatch.Deployment.Coordinator
/-!
# Slots — where an agent is installed

A slot holds at most one agent, for good. Installing into a full slot fails
whatever else is the matter; a failed installation leaves the slot as it was.
Reports can go through a slot, and fail as long as it is empty.
-/

namespace CallPatch

/-- The number of the agent in the slot, if there is one. -/
abbrev Slot := Option Nat

namespace Slot

/-- Starts an agent and puts it into the slot. -/
def install (slot : Slot) (d : Deployment) (config : AgentConfig) (seesSupertypes : Bool) :
    Slot × Deployment × Except AgentError Nat :=
  match slot with
  | some n => (some n, d, .error .alreadyInstalled)
  | none =>
    match d.start config seesSupertypes with
    | (d, .error e) => (none, d, .error e)
    | (d, .ok n) => (some n, d, .ok n)

/-- Reports a call site to the agent in the slot. -/
def report (slot : Slot) (d : Deployment) (site : CallSite) :
    Deployment × Except AgentError Bool :=
  match slot with
  | none => (d, .error .notInstalled)
  | some n => d.report n site

end Slot

end CallPatch
