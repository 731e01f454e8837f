import CallPatch.Agent.Basic
import CallPatch.Dump.Disk
import CallPatch.Host.Basic
/-!
# Deployments — a host and its agents

One host, the agents attached to it in the order they were started, and the
disk where they keep copies. Defining an owner runs every agent over its bytes
in that order; retransforming it for one agent runs that agent alone, over
the bytes the owner was defined from.
-/

namespace CallPatch

/-- A host, its agents and the disk for their dumps. -/
structure Deployment where
  host : Host
  /-- The agents in the order started; an agent is known by its place. -/
  agents : List Agent
  /-- Requests of an agent for an owner on which the host breaks down. -/
  breakdowns : List (Nat × String)
  disk : Dump.Disk
  deriving DecidableEq, Repr

namespace Deployment

/-- An empty host without agents. -/
def empty : Deployment :=
  { host := .empty, agents := [], breakdowns := [], disk := .empty }

/-- The agent of that number. -/
def agent? (d : Deployment) (n : Nat) : Option Agent :=
  d.agents[n]?

/-- Puts an agent back in its place. -/
def setAgent (d : Deployment) (n : Nat) (a : Agent) : Deployment :=
  { d with agents := d.agents.set n a }

/-- Starts an agent on the host, and says which number it has. A failed start leaves no trace. -/
def start (d : Deployment) (config : AgentConfig) (seesSupertypes : Bool) :
    Deployment × Except AgentError Nat :=
  match Agent.start d.host.loadedOwners config seesSupertypes with
  | .error e => (d, .error e)
  | .ok a => ({ d with agents := d.agents ++ [a] }, .ok d.agents.length)

/-- Keeps a copy of what an agent transformed, if it is configured to. -/
def dump (d : Deployment) (config : AgentConfig) (owner : String) (bytes : Bytes) : Deployment :=
  match config.dumpDir with
  | some dir => { d with disk := d.disk.write dir owner bytes }
  | none => d

/-- The files below the dump directories of the agents. -/
def dumps (d : Deployment) : Dump.Directory :=
  let dirs := (d.agents.filterMap fun a => a.config.dumpDir).map d.disk.locate
  { files := dirs.eraseDups.flatMap fun dir => (d.disk.below dir).files }

/-- Runs one agent over the bytes of an owner. -/
def transformBy (d : Deployment) (n : Nat) (owner : String) (bytes : Bytes) :
    Deployment × Bytes :=
  match d.agent? n with
  | none => (d, bytes)
  | some a =>
    match a.transform d.host.supertypeTable owner bytes with
    | (a, none) => (d.setAgent n a, bytes)
    | (a, some changed) => ((d.setAgent n a).dump a.config owner changed, changed)

/-- Runs every agent over the bytes of an owner, each over what the one before it left. -/
def transformByAll (d : Deployment) (owner : String) (bytes : Bytes) : Deployment × Bytes :=
  (List.range d.agents.length).foldl (fun (d, bytes) n => d.transformBy n owner bytes) (d, bytes)

/-- Defines an owner, and returns the bytes that were loaded. -/
def define (d : Deployment) (owner : String) (bytes : Bytes) : Deployment × Bytes :=
  let (d, current) := d.transformByAll owner bytes
  ({ d with host := d.host.load owner bytes current }, current)

/-- Defines an owner by its artifact. -/
def defineArtifact (d : Deployment) (a : Artifact) : Deployment × Except FrameError Bytes :=
  match a.encode with
  | .error e => (d, .error e)
  | .ok bytes =>
    let (d, current) := d.define a.name bytes
    (d, .ok current)

/-- Retransforms an owner for one agent. -/
def retransform (d : Deployment) (n : Nat) (owner : String) :
    Deployment × Except HostError Unit :=
  match d.host.definitionOf owner with
  | .error e => (d, .error e)
  | .ok defined =>
    let (d, current) := d.transformBy n owner defined
    ({ d with host := d.host.replace owner current }, .ok ())

/-- From now on, requests of the agent for the owner break the host down. -/
def breakOn (d : Deployment) (n : Nat) (owner : String) : Deployment :=
  { d with breakdowns := d.breakdowns.insert (n, owner) }

/-- Requests of the agent for the owner no longer break the host down. -/
def mend (d : Deployment) (n : Nat) (owner : String) : Deployment :=
  { d with breakdowns := d.breakdowns.filter fun b => b ≠ (n, owner) }

end Deployment

end CallPatch
