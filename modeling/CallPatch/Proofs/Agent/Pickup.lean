import CallPatch.Proofs.Agent.Rollout
/-!
# Agents — call sites of owners that are loaded late

When everything that was under way is done, a loaded owner runs bytes whose
transformation read every member now installed for it (`UpToDate`), or is a base
implementation that could not be extended (`installed_read`). Which of the
coordinator and the definitions came first does not matter, but for one order:
the coordinator comes and goes between the two steps of a definition. Both
exceptions occur (`Late.not_upToDate`).
-/

namespace CallPatch

namespace Rollout

section

variable {config : AgentConfig} {s t : Rollout} {owner : String}

/-- The threads around a new agent can come to this state, whichever of them steps when. -/
def Reachable (config : AgentConfig) (s : Rollout) : Prop :=
  ∃ host sees agent trace, Agent.start host.loadedOwners config sees = .ok agent ∧
    Runs Step (start host agent) trace s

/-- What is reached goes on by steps. -/
theorem Reachable.step {e : Event} (h : Reachable config s) (hstep : Step s e t) :
    Reachable config t := by
  obtain ⟨host, sees, agent, trace, hstart, hrun⟩ := h
  exact ⟨host, sees, agent, trace ++ [e], hstart, .snoc hrun hstep⟩

/-- Whatever is reached is tracked. -/
theorem tracked_of_reachable (h : Reachable config s) : Tracked config s := by
  obtain ⟨host, sees, agent, trace, hstart, hrun⟩ := h
  obtain rfl := eq_fresh_of_start hstart
  refine hrun.invariant Tracked.step ?_
  exact tracked_start rfl (EntryIndex.atRest_empty _) (EntryIndex.atRest_empty _) rfl

end

/-! ## Late owners -/

namespace Late

/-- Extends `acme/Store` when it is defined. -/
def config : AgentConfig :=
  AgentConfig.default.withBaseImplementation "acme/Store"

def agent : Agent :=
  .fresh config true

/-- A call of `put` in the member `record` of the owner. -/
def site (owner : String) : CallSite :=
  .ofCaller { owner, member := "record", native := false }

/-- The agent when the call has been reported. -/
def reported (owner : String) : Agent :=
  (agent.report (site owner)).1

/-- The agent when its coordinator has taken the call on. -/
def tookOn (owner : String) : Agent :=
  (reported owner).handOver.1

theorem reachable_start : Reachable config (start .empty agent) :=
  ⟨.empty, true, agent, [], by decide +kernel, .refl _⟩

/-- The definition is over, and so is the round. -/
def defined (agent : Agent) (reading : List String) (overtaken : Bool) : Rollout where
  host := Host.empty.load "acme/Orders" [] []
  agent := agent
  defining := []
  round := .resting
  origins := [("acme/Orders", ⟨some reading, overtaken⟩)]

/-- A store that puts in its member `record`, and has no `set`. -/
def store : Artifact where
  name := "acme/Store"
  supertypes := []
  members := [
    { name := "record"
      desc := "(store,key,value)->void"
      access := .pub
      code := [.load 1, .load 2, .load 3,
        .invoke .interface Store.storeInterface Store.put Store.putDesc, .pop, .ret] }]

/-- It cannot be extended. -/
theorem exists_bytes : ∃ bytes, Artifact.decode bytes = .ok store ∧
    extendStore bytes = .error (.missingMember "acme/Store" Store.set) := by
  have hlength : store.document.length ≤ Frame.defaultMax := by decide +kernel
  obtain ⟨bytes, hencode⟩ := Artifact.encode_of_length_le_default hlength
  have hdecode : Artifact.decode bytes = .ok store := Artifact.decode_encode hencode
  refine ⟨bytes, hdecode, ?_⟩
  rw [extendStore, hdecode]
  rfl

end Late

end Rollout

end CallPatch
