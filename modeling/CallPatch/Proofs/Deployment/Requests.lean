import CallPatch.Deployment.Coordinator
import CallPatch.Proofs.Agent.Treatment
/-!
# Deployments — what a transformation and a request change

A transformation puts the agent that ran back in its place, keeps a copy of new bytes, and
changes nothing else (`transformBy_eq`). A request to retransform an owner is turned down
with one failure counted, or the owner gets to run what the agent makes of its definition
(`request_cases`, `host_request`).
-/

namespace CallPatch.Deployment

variable {d : Deployment} {n : Nat} {a : Agent} {owner : String}

/-! ## Agents in their places -/

/-- The agent that was put in last is the one that is there. -/
theorem setAgent_setAgent (d : Deployment) (n : Nat) (a a' : Agent) :
    (d.setAgent n a).setAgent n a' = d.setAgent n a' := by
  unfold setAgent
  rw [List.set_set]

/-- To change an agent is to put the changed one in its place. -/
theorem modifyAgent_eq (d : Deployment) (n : Nat) (f : Agent → Agent) (a : Agent) :
    d.modifyAgent n f = d.setAgent n (f ((d.agent? n).getD a)) := by
  have hagents := @List.modify_eq_set Agent ⟨a⟩ f n d.agents
  rw [modifyAgent, hagents]
  rfl

/-- An agent that is put back where it is changes nothing. -/
theorem setAgent_getD (d : Deployment) (n : Nat) (a : Agent) :
    d.setAgent n ((d.agent? n).getD a) = d := by
  have hsame := (d.modifyAgent_eq n id a).symm
  rwa [modifyAgent, List.modify_id] at hsame

/-- The agent that is put in a place is found there, if there is such a place. -/
theorem getD_agent?_setAgent (d : Deployment) (n : Nat) (a : Agent) :
    ((d.setAgent n a).agent? n).getD a = a := by
  unfold agent? setAgent
  dsimp only
  rw [List.getElem?_set, if_pos rfl]
  split <;> rfl

theorem agent?_modifyAgent (h : d.agent? n = some a) (f : Agent → Agent) :
    (d.modifyAgent n f).agent? n = some (f a) := by
  unfold agent? at h
  unfold modifyAgent agent?
  dsimp only
  rw [List.getElem?_modify, h]
  simp

/-! ## Transformations -/

/-- An agent that is not there transforms nothing. -/
theorem transformBy_of_none (h : d.agent? n = none) (owner : String) (bytes : Bytes) :
    d.transformBy n owner bytes = (d, bytes) := by
  rw [transformBy, h]

/-- The agent that transforms is put back, and no other is touched. -/
theorem transformBy_eq (h : d.agent? n = some a) (owner : String) (bytes : Bytes) :
    ∃ disk, d.transformBy n owner bytes =
      ({ d.setAgent n (a.transform d.host.supertypeTable owner bytes).1 with disk := disk },
        (a.transform d.host.supertypeTable owner bytes).2.getD bytes) := by
  unfold transformBy
  rw [h]
  dsimp only
  rcases a.transform d.host.supertypeTable owner bytes with ⟨a', - | changed⟩
  · exact ⟨d.disk, rfl⟩
  · dsimp only
    unfold dump
    split
    · exact ⟨_, rfl⟩
    · exact ⟨d.disk, rfl⟩

/-- A transformation does not touch what the host holds. -/
theorem host_transformBy (d : Deployment) (n : Nat) (owner : String) (bytes : Bytes) :
    (d.transformBy n owner bytes).1.host = d.host := by
  rcases h : d.agent? n with - | a
  · rw [transformBy_of_none h]
  · obtain ⟨disk, htransform⟩ := transformBy_eq h owner bytes
    rw [htransform]
    rfl

theorem breakdowns_transformBy (d : Deployment) (n : Nat) (owner : String) (bytes : Bytes) :
    (d.transformBy n owner bytes).1.breakdowns = d.breakdowns := by
  rcases h : d.agent? n with - | a
  · rw [transformBy_of_none h]
  · obtain ⟨disk, htransform⟩ := transformBy_eq h owner bytes
    rw [htransform]
    rfl

/-- A transformation changes its own agent, and hands its bytes on if it has any. -/
theorem agents_transformBy (h : d.agent? n = some a) (owner : String) (bytes : Bytes) :
    (d.transformBy n owner bytes).1.agents =
        d.agents.set n (a.transform d.host.supertypeTable owner bytes).1 ∧
      (d.transformBy n owner bytes).2 =
        (a.transform d.host.supertypeTable owner bytes).2.getD bytes := by
  obtain ⟨disk, htransform⟩ := transformBy_eq h owner bytes
  rw [htransform]
  exact ⟨rfl, rfl⟩

theorem agent?_transformBy (h : d.agent? n = some a) (owner : String) (bytes : Bytes) (m : Nat) :
    (d.transformBy n owner bytes).1.agent? m =
      if m = n then some (a.transform d.host.supertypeTable owner bytes).1 else d.agent? m := by
  obtain ⟨hlt, -⟩ := List.getElem?_eq_some_iff.1 h
  rw [agent?, (agents_transformBy h owner bytes).1]
  by_cases hm : m = n
  · rw [hm, if_pos rfl, List.getElem?_set_self hlt]
  · rw [if_neg hm, List.getElem?_set_ne (Ne.symm hm), agent?]

/-! ## Requests -/

/-- The request is turned down: the host breaks down on it, or does not know the owner or refuses
it. Then there is one failure more, and nothing else. -/
theorem request_of_failed
    (h : (n, owner) ∈ d.breakdowns ∨ ∃ cause, d.host.definitionOf owner = .error cause) :
    request n d owner = d.modifyAgent n Agent.countRequestFailure := by
  unfold request
  by_cases hbroken : d.breakdowns.contains (n, owner) = true
  · rw [if_pos hbroken]
  · obtain ⟨cause, hcause⟩ := h.resolve_left fun hmem => hbroken (List.contains_iff_mem.2 hmem)
    rw [if_neg hbroken, retransform, hcause]

/-- Any other request is fulfilled. -/
theorem request_of_ok {defined : Bytes} (hbroken : (n, owner) ∉ d.breakdowns)
    (h : d.host.definitionOf owner = .ok defined) :
    request n d owner =
      { (d.transformBy n owner defined).1 with
        host := d.host.replace owner (d.transformBy n owner defined).2 } := by
  have hnot : ¬ d.breakdowns.contains (n, owner) = true := fun hmem =>
    hbroken (List.contains_iff_mem.1 hmem)
  rw [request, if_neg hnot, retransform, h]
  dsimp only
  rw [host_transformBy]

/-- **A request in two cases**: it is counted as a failure, or the owner's bytes are replaced by
what the agent makes of them. -/
theorem request_cases (n : Nat) (d : Deployment) (owner : String) :
    request n d owner = d.modifyAgent n Agent.countRequestFailure ∨
      (n, owner) ∉ d.breakdowns ∧ ∃ defined, d.host.definitionOf owner = .ok defined ∧
        request n d owner =
          { (d.transformBy n owner defined).1 with
            host := d.host.replace owner (d.transformBy n owner defined).2 } := by
  by_cases hbroken : (n, owner) ∈ d.breakdowns
  · exact .inl (request_of_failed (.inl hbroken))
  · rcases hdefined : d.host.definitionOf owner with cause | defined
    · exact .inl (request_of_failed (.inr ⟨cause, hdefined⟩))
    · exact .inr ⟨hbroken, defined, rfl, request_of_ok hbroken hdefined⟩

/-- A request changes nothing of the agent but what it notes. -/
theorem annotates_request (h : d.agent? n = some a) (owner : String) :
    ∃ a', (request n d owner).agent? n = some a' ∧ a.Annotates a' := by
  rcases request_cases n d owner with hsame | ⟨-, defined, -, hreplaced⟩
  · rw [hsame]
    exact ⟨_, agent?_modifyAgent h _, _, _, rfl⟩
  · rw [hreplaced]
    refine ⟨_, (agent?_transformBy h owner defined n).trans (if_pos rfl), ?_⟩
    exact a.annotates_transform ..

/-- A request that is fulfilled replaces what the owner runs by what the agent makes of its
definition. -/
theorem host_request (h : d.agent? n = some a) {defined : Bytes}
    (hbroken : (n, owner) ∉ d.breakdowns) (hdefined : d.host.definitionOf owner = .ok defined) :
    (request n d owner).host = d.host.replace owner
      (a.outcome d.host.supertypeTable owner (a.listed owner) defined) := by
  rw [request_of_ok hbroken hdefined, ← a.getD_transform, (agents_transformBy h owner defined).2]

end CallPatch.Deployment
