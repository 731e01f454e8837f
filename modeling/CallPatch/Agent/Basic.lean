import CallPatch.Agent.Error
import CallPatch.Config
import CallPatch.Index.Transfer
import CallPatch.Patch.Extension
import CallPatch.Host.Supertypes
/-!
# Agents — indexes and transformation

An agent holds a staging index for reports, an installed index for what its
coordinator has taken on, and counters. A host calls it back with the bytes
of every owner that is defined or retransformed: the agent extends the owner
if it is a base implementation and then patches the call sites installed for
it. If either fails the bytes stay as they were, and the failure is counted.
-/

namespace CallPatch

/-- The name under which the coordinator runs. -/
def coordinatorName : String := "voidput-coordinator"

/-- An agent apart from its host. -/
structure Agent where
  config : AgentConfig
  /-- Whether its host tells it which supertypes an owner has. -/
  seesSupertypes : Bool
  staging : EntryIndex
  installed : EntryIndex
  pipeline : PipelineCounters
  deriving DecidableEq, Repr

namespace Agent

/-- A new agent, unless one of the base implementations is loaded already: then the first of them
in the order of the configuration is named. -/
def start (loaded : List String) (config : AgentConfig) (seesSupertypes : Bool) :
    Except AgentError Agent :=
  match config.baseImplementations.find? loaded.contains with
  | some owner => .error (.baseAlreadyLoaded owner)
  | none =>
    .ok { config, seesSupertypes, staging := .staging, installed := .installed,
          pipeline := .zero }

/-- What the agent shows of itself. -/
def stats (a : Agent) : AgentStats :=
  { staging := a.staging.stats, installed := a.installed.stats, pipeline := a.pipeline }

/-! ## Reporting -/

/-- Stages a call site, and says whether this is the first report of it. A native caller is passed
over. -/
def report (a : Agent) (site : CallSite) : Agent × Except AgentError Bool :=
  match site.defect? with
  | some d => (a, .error (.ofDefect d))
  | none =>
    if site.caller.native then (a, .ok false)
    else
      let (staging, fresh) := a.staging.report site.key
      ({ a with staging }, .ok fresh)

/-- Takes on everything staged, and returns what was not installed before. -/
def handOver (a : Agent) : Agent × EntryIndex :=
  let moved := a.staging.transfer a.installed
  ({ a with staging := moved.source, installed := moved.target }, moved.difference)

/-! ## Transformation -/

/-- Which calls count as calls on a store, given what the host's owners declare. -/
def scope (a : Agent) (supertypes : Supertypes) : Scope where
  interfaces := a.config.storeInterfaces
  capable := (if a.seesSupertypes then supertypes else []).reaches Store.marker

/-- Counts a request that its host did not fulfil. -/
def countRequestFailure (a : Agent) : Agent :=
  { a with pipeline := { a.pipeline with requestFailures := a.pipeline.requestFailures + 1 } }

/-- Counts a transformation that failed. -/
def countTransformFailure (a : Agent) : Agent :=
  { a with pipeline := { a.pipeline with transformFailures := a.pipeline.transformFailures + 1 } }

/-- Counts a transformation that found no call site. -/
def countUntransformed (a : Agent) : Agent :=
  { a with pipeline := { a.pipeline with untransformed := a.pipeline.untransformed + 1 } }

/-- The bytes of the owner extended, if it is a base implementation that is not extended yet. -/
def extended? (a : Agent) (owner : String) (bytes : Bytes) : Except PatchError (Option Bytes) :=
  if a.config.isBaseImplementation owner then
    (extendStore bytes).map fun e => if e.transformed then some e.bytes else none
  else .ok none

/-- Patches the members installed for the owner. None when no bytes changed. -/
def patchInstalled (a : Agent) (supertypes : Supertypes) (owner : String) (bytes : Bytes) :
    Agent × Except PatchError (Option Bytes) :=
  match a.installed.membersOf? owner with
  | none => (a, .ok none)
  | some members =>
    match patchCallSites (a.scope supertypes) members bytes with
    | .error e => (a, .error e)
    | .ok patched =>
      if patched.transformed then
        ({ a with installed := a.installed.markPatched owner members },
          .ok (some patched.bytes))
      else (a.countUntransformed, .ok none)

/-- Extends and patches the owner. None when nothing changed. -/
def tryTransform (a : Agent) (supertypes : Supertypes) (owner : String) (bytes : Bytes) :
    Agent × Except PatchError (Option Bytes) :=
  match a.extended? owner bytes with
  | .error e => (a, .error e)
  | .ok extended =>
    match a.patchInstalled supertypes owner (extended.getD bytes) with
    | (a, .error e) => (a, .error e)
    | (a, .ok patched) => (a, .ok (patched.orElse fun _ => extended))

/-- The bytes to load for the owner in place of those given, or none to load those. A failure is
counted and changes nothing. -/
def transform (a : Agent) (supertypes : Supertypes) (owner : String) (bytes : Bytes) :
    Agent × Option Bytes :=
  match a.tryTransform supertypes owner bytes with
  | (a, .ok result) => (a, result)
  | (a, .error _) => (a.countTransformFailure, none)

end Agent

end CallPatch
