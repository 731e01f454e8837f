import CallPatch.Deployment.Basic
/-!
# Coordination — from reports to patched owners

An agent's coordinator sleeps until a first report wakes it. It then takes on
everything staged and asks the host to retransform every loaded owner that
got a new entry; owners not loaded yet are patched when they are defined. A
request that fails, or on which the host breaks down, is counted, and the
others go on.
-/

namespace CallPatch.Deployment

/-- Changes an agent in its place. -/
def modifyAgent (d : Deployment) (n : Nat) (f : Agent → Agent) : Deployment :=
  { d with agents := d.agents.modify n f }

/-- Asks the host to retransform one owner. -/
def request (n : Nat) (d : Deployment) (owner : String) : Deployment :=
  if d.breakdowns.contains (n, owner) then d.modifyAgent n Agent.countRequestFailure
  else
    match d.retransform n owner with
    | (d, .ok ()) => d
    | (d, .error _) => d.modifyAgent n Agent.countRequestFailure

/-- The loaded owners that the difference has entries for. -/
def affected (d : Deployment) (difference : EntryIndex) : List String :=
  (difference.ownerNames?.getD []).filter d.host.loadedOwners.contains

/-- Asks the host to retransform every loaded owner of the difference. -/
def requestAll (d : Deployment) (n : Nat) (difference : EntryIndex) : Deployment :=
  (d.affected difference).foldl (request n) d

/-- The coordinator takes on everything staged, and returns what is new. -/
def takeOn (d : Deployment) (n : Nat) : Deployment × EntryIndex :=
  match d.agent? n with
  | none => (d, .staging)
  | some a =>
    let (a, difference) := a.handOver
    (d.setAgent n a, difference)

/-- One round of the coordinator, if anything is staged. -/
def coordinate (d : Deployment) (n : Nat) : Deployment :=
  match d.agent? n with
  | none => d
  | some a =>
    if a.staging.isEmpty then d
    else
      let (d, difference) := d.takeOn n
      d.requestAll n difference

/-- Reports a call site to an agent, the coordinator staying where it is. -/
def stage (d : Deployment) (n : Nat) (site : CallSite) : Deployment × Except AgentError Bool :=
  match d.agent? n with
  | none => (d, .error .notInstalled)
  | some a =>
    let (a, result) := a.report site
    (d.setAgent n a, result)

/-- Reports a call site to an agent, and lets its coordinator finish if that was a first report. -/
def report (d : Deployment) (n : Nat) (site : CallSite) : Deployment × Except AgentError Bool :=
  match d.stage n site with
  | (d, .ok true) => (d.coordinate n, .ok true)
  | (d, result) => (d, result)

end CallPatch.Deployment
