import CallPatch.Demo.Artifacts
import CallPatch.Deployment.Slot
import CallPatch.Text.Numeral
import Std.Data.HashMap
/-!
# Demonstration scenarios

Three runs of an agent on a host of its own: a host that refuses an owner for
a while, reporters that share a few call sites, and a store that reports its
callers to a process-wide agent. Reporters run one after another here. What a
scenario waits for either holds once the coordinator is done or never will.
-/

namespace CallPatch.Demo

open Numeral (numbered)

/-- The runs there are. -/
inductive Scenario where
  | concurrentReporters
  | failingHost
  | instrumentedStore
  deriving DecidableEq, Repr

/-- Why a scenario came to no end. -/
inductive Failure where
  | agent (cause : AgentError)
  | definition (owner : String) (cause : FrameError)
  | timedOut (awaited : String)
  deriving DecidableEq, Repr

namespace Failure

/-- The failure in words. -/
def message : Failure → String
  | .agent cause => cause.message
  | .definition owner cause => s!"define {owner}: " ++ cause.message
  | .timedOut awaited => s!"timed out waiting for {awaited}"

end Failure

/-- The figure a scenario closes with. -/
inductive Closing where
  /-- How often call sites were reported. -/
  | reports (count : Nat)
  /-- How many entries the store holds. -/
  | entries (count : Nat)
  deriving DecidableEq, Repr

/-- What a scenario leaves behind. -/
structure Outcome where
  stats : AgentStats
  closing : Option Closing
  dumps : Dump.Directory
  deriving DecidableEq, Repr

/-- A call of `put` in the member of the owner. -/
def putIn (owner member : String) : CallSite :=
  .ofCaller { owner, member, native := false }

/-- Starts an agent on an empty host that tells it about supertypes. -/
def started (config : AgentConfig) : Except Failure (Deployment × Nat) :=
  match Deployment.empty.start config true with
  | (d, .ok n) => .ok (d, n)
  | (_, .error e) => .error (.agent e)

/-- Defines an owner by its artifact. -/
def defined (d : Deployment) (a : Artifact) : Except Failure Deployment :=
  match d.defineArtifact a with
  | (d, .ok _) => .ok d
  | (_, .error e) => .error (.definition a.name e)

/-- Reports a call site to the agent of that number. -/
def reported (n : Nat) (d : Deployment) (site : CallSite) : Except Failure Deployment :=
  match d.report n site with
  | (d, .ok _) => .ok d
  | (_, .error e) => .error (.agent e)

/-- Goes on if what is awaited holds. -/
def await (awaited : String) (holds : Bool) : Except Failure Unit :=
  if holds then .ok () else .error (.timedOut awaited)

/-- The outcome as one agent of the deployment sees it. -/
def outcome (d : Deployment) (a : Agent) (closing : Option Closing) : Outcome :=
  { stats := a.stats, closing, dumps := d.dumps }

/-- The agent of that number. -/
def agentOf (d : Deployment) (n : Nat) : Except Failure Agent :=
  match d.agent? n with
  | some a => .ok a
  | none => .error (.agent .notInstalled)

/-! ## A host that refuses an owner -/

namespace FailingHost

/-- The owner that is patched at once. -/
def healthy : String := "demo/Healthy"

/-- The owner that is refused at first. -/
def broken : String := "demo/Broken"

/-- The members of either owner. -/
def members : List String := ["save", "flush"]

/-- The host refuses one of two owners until the other one is patched; the next report for it gets
it patched along with all that was installed before. -/
def run (config : AgentConfig) : Except Failure Outcome := do
  let (d, n) ← started config
  let d ← [healthy, broken].foldlM (fun d owner => defined d (caller owner members)) d
  let d := { d with host := d.host.refuse broken "verifier rejected patched code" }
  let d ← [putIn broken "save", putIn healthy "save"].foldlM (reported n) d
  await "healthy owner to be patched"
    (d.host.retransformCount healthy = 1 &&
      (← agentOf d n).pipeline.requestFailures = 1)
  let d := { d with host := d.host.accept broken }
  let d ← reported n d (putIn broken "flush")
  await "broken owner to be patched" (d.host.retransformCount broken = 1)
  return outcome d (← agentOf d n) none

end FailingHost

/-! ## Reporters that share call sites -/

namespace ConcurrentReporters

/-- The owners that call the store. -/
def owners : List String := (List.range 4).map (numbered "demo/Worker")

/-- The members of each of them. -/
def members : List String := (List.range 6).map (numbered "step")

/-- How often each reporter reports. -/
def rounds : Nat := 50

/-- The site that a reporter reports in a round. -/
def siteOf (reporter round : Nat) : CallSite :=
  putIn (numbered "demo/Worker" ((round + reporter) % owners.length))
    (numbered "step" (round % members.length))

/-- All reports, reporter by reporter. -/
def sites (reporters : Nat) : List CallSite :=
  (List.range reporters).flatMap fun reporter => (List.range rounds).map (siteOf reporter)

/-- Every site is installed once, and every owner is retransformed. -/
def run (reporters : Nat) (config : AgentConfig) : Except Failure Outcome := do
  let (d, n) ← started (config.withBaseImplementation hashStoreName)
  let d ← (hashStore :: owners.map (caller · members)).foldlM defined d
  let reports := sites reporters
  let d := reports.foldl (fun d site => (d.report n site).1) d
  let a ← agentOf d n
  await "every site to be installed"
    (a.installed.entryCount = (reports.map CallSite.key).eraseDups.length && a.staging.isEmpty)
  await "every owner to be retransformed"
    (owners.all fun owner => 0 < d.host.retransformCount owner)
  return outcome d a (some (.reports (reporters * rounds)))

end ConcurrentReporters

/-! ## A store that reports its callers -/

namespace InstrumentedStore

/-- The two places the store is called from. -/
def sites : List CallSite :=
  ["site0", "site1"].map (putIn "source")

/-- How many keys each worker fills. -/
def keysPerWorker : Nat := 100

/-- The keys of different workers are this far apart. -/
def stride : Nat := 1000

/-- What a worker stores under its `i`-th key, from one place after the other. -/
def puts (worker i : Nat) : List (CallSite × Nat × Nat) :=
  sites.zipIdx.map fun (site, turn) => (site, worker * stride + i, i + turn)

/-- Every put, worker by worker. -/
def work (workers : Nat) : List (CallSite × Nat × Nat) :=
  (List.range workers).flatMap fun worker => (List.range keysPerWorker).flatMap (puts worker)

/-- The store is called through the slot of the whole process, and in the end once on the fast
path, which reports nothing. -/
def run (workers : Nat) (config : AgentConfig) : Except Failure Outcome := do
  let (slot, d, result) := Slot.install none .empty config true
  let n ← result.mapError .agent
  let calls := work workers
  let d := calls.foldl (fun d call => (slot.report d call.1).1) d
  let a ← agentOf d n
  await "both call sites to be installed"
    (a.installed.entryCount = sites.length && a.staging.isEmpty)
  let stored : Std.HashMap Nat Nat := calls.foldl (fun m call => m.insert call.2.1 call.2.2) ∅
  let stored := stored.insert (UInt64.size - 1) 0
  return outcome d a (some (.entries stored.size))

end InstrumentedStore

/-- Runs a scenario with that many reporters or workers, where it has any. -/
def Scenario.run (s : Scenario) (threads : Nat) (config : AgentConfig) : Except Failure Outcome :=
  match s with
  | .concurrentReporters => ConcurrentReporters.run threads config
  | .failingHost => FailingHost.run config
  | .instrumentedStore => InstrumentedStore.run threads config

end CallPatch.Demo
