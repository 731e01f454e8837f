import CallPatch.Proofs.Agent.Confluence
import CallPatch.Proofs.Patch.Capability
import CallPatch.Proofs.Patch.EntryPoints
/-!
# Deployments — stores keep the capability

A base implementation that is loaded with the capability is extended again from
the bytes it was defined from, each time it is retransformed. So it has the
capability after every retransformation but one: when the call sites in the
extended store cannot be patched, the bytes it was defined from are put back,
without the extension (`keeps_capability`). The next retransformation that goes
through gives it the capability again.

A deployment takes one step after another (`Step`). Which answer the owner's last
retransformation had is read off the trace (`answered`).
-/

namespace CallPatch

namespace AgentConfig

variable {config : AgentConfig} {scope : Scope} {owner : String} {names : List String}
variable {bytes extended treated : Bytes}

/-- Bytes that have the capability are left alone by the extension. -/
theorem extendBase_of_isCapable (h : IsCapable bytes) :
    config.extendBase owner bytes = .ok bytes := by
  unfold extendBase
  split
  · rw [extendStore_of_isCapable h]
    rfl
  · rfl

/-- Past the extension nothing gives or takes the capability. -/
theorem isCapable_treat (hextended : config.extendBase owner bytes = .ok extended)
    (htreated : config.treat scope owner names bytes = .ok treated) :
    IsCapable treated ↔ IsCapable extended := by
  obtain ⟨extended', hextended', hcases⟩ := treat_eq_ok_iff.1 htreated
  obtain rfl : extended = extended' := Except.ok.inj (hextended.symm.trans hextended')
  rcases hcases with ⟨-, rfl⟩ | ⟨-, p, hp, rfl⟩
  · exact Iff.rfl
  · exact isCapable_patchCallSites hp

end AgentConfig

/-- What has the capability when it has been transformed has it when it has been extended. -/
theorem Agent.exists_extended {a : Agent} {supertypes : Supertypes} {owner : String}
    {names : List String} {bytes : Bytes}
    (h : IsCapable (a.outcome supertypes owner names bytes)) :
    ∃ extended, a.config.extendBase owner bytes = .ok extended ∧ IsCapable extended := by
  unfold Agent.outcome at h
  rcases htreated : a.config.treat (a.scope supertypes) owner names bytes with e | treated
  · rw [htreated] at h
    exact ⟨bytes, AgentConfig.extendBase_of_isCapable h, h⟩
  · rw [htreated] at h
    obtain ⟨extended, hextended, -⟩ := AgentConfig.treat_eq_ok_iff.1 htreated
    exact ⟨extended, hextended, (AgentConfig.isCapable_treat hextended htreated).1 h⟩

namespace Deployment

open Rollout (report_eq get?_replace_self get?_replace_of_ne exists_of_definitionOf)

/-! ## Steps -/

/-- How a request to retransform an owner was answered. -/
inductive Answer where
  /-- The owner is not loaded or refused, or the host breaks down. -/
  | turnedDown
  | done
  /-- The transformation failed, and the bytes were put back that the owner was defined from. -/
  | failed
  deriving DecidableEq, Repr

/-- What a bystander notes of a step. -/
inductive Event where
  | defined (owner : String)
  | staged (site : CallSite)
  | tookOn
  | requested (owner : String) (answer : Answer)
  deriving DecidableEq, Repr

/-- The answer to the next request for the owner. -/
def answer (d : Deployment) (n : Nat) (owner : String) : Answer :=
  if d.breakdowns.contains (n, owner) then .turnedDown
  else
    match d.host.definitionOf owner, d.agent? n with
    | .ok bytes, some a =>
      match (a.tryTransform d.host.supertypeTable owner bytes).2 with
      | .ok _ => .done
      | .error _ => .failed
    | _, _ => .turnedDown

/-- One step of a deployment with one agent. A round of the coordinator takes on what is staged, and
goes on with its requests. -/
inductive Step : Deployment → Event → Deployment → Prop where
  | define (d : Deployment) (owner : String) (bytes : Bytes) :
      Step d (.defined owner) (d.define owner bytes).1
  | stage (d : Deployment) (site : CallSite) : Step d (.staged site) (d.stage 0 site).1
  | takeOn (d : Deployment) : Step d .tookOn (d.takeOn 0).1
  | request (d : Deployment) (owner : String) :
      Step d (.requested owner (d.answer 0 owner)) (request 0 d owner)

/-- The last answer after the event, if it was that before. Who is turned down has no answer. -/
def Event.answered (owner : String) (last : Option Answer) : Event → Option Answer
  | .requested o answer => if o = owner ∧ answer ≠ .turnedDown then some answer else last
  | _ => last

/-- The answer to the last request for the owner that was not turned down. -/
def answered (owner : String) (trace : List Event) : Option Answer :=
  trace.foldl (Event.answered owner) none

variable {d t : Deployment} {a : Agent} {e : Event} {trace : List Event} {owner : String}
variable {bytes extended : Bytes} {config : AgentConfig} {last : Option Answer}

/-- Requests one after another are a run. -/
theorem runs_requests (d : Deployment) (due : List String) :
    ∃ trace, Runs Step d trace (due.foldl (request 0) d) := by
  induction due generalizing d with
  | nil => exact ⟨[], .refl d⟩
  | cons owner due ih =>
    obtain ⟨trace, hrun⟩ := ih (request 0 d owner)
    exact ⟨_, .cons (.request d owner) hrun⟩

/-- **A round of the coordinator is a run**, whoever is due. -/
theorem runs_coordinate (d : Deployment) : ∃ trace, Runs Step d trace (d.coordinate 0) := by
  unfold coordinate
  split
  · exact ⟨[], .refl d⟩
  · split
    · exact ⟨[], .refl d⟩
    · obtain ⟨trace, hrun⟩ := runs_requests (d.takeOn 0).1 ((d.takeOn 0).1.affected (d.takeOn 0).2)
      exact ⟨_, .cons (.takeOn d) hrun⟩

/-- And so is a report, with the round that it causes. -/
theorem runs_report (d : Deployment) (site : CallSite) :
    ∃ trace, Runs Step d trace (d.report 0 site).1 := by
  have hstaged : Step d (.staged site) (d.stage 0 site).1 := .stage d site
  unfold report
  split
  · next d' heq =>
    rw [heq] at hstaged
    obtain ⟨trace, hrun⟩ := runs_coordinate d'
    exact ⟨_, .cons hstaged hrun⟩
  · next d' result hother heq =>
    rw [heq] at hstaged
    exact ⟨_, .single hstaged⟩

/-! ## What a step keeps -/

/-- The owner was defined from the bytes, which have the capability when they are extended. It has
the capability, unless its last retransformation failed: then it runs the bytes. -/
structure Holds (owner : String) (bytes extended : Bytes) (last : Option Answer) (d : Deployment)
    (a : Agent) : Prop where
  alone : d.Alone a
  extension : a.config.extendBase owner bytes = .ok extended
  loaded : ∃ l, Table.get? owner d.host.loaded = some l ∧ l.defined = bytes ∧
    (last ≠ some .failed → IsCapable l.current) ∧ (last = some .failed → l.current = bytes)

theorem Alone.stage (h : d.Alone a) (site : CallSite) :
    (d.stage 0 site).1 = d.setAgent 0 (a.report site).1 := by
  unfold Deployment.stage
  rw [h.agent?]

theorem Alone.takeOn (h : d.Alone a) : (d.takeOn 0).1 = d.setAgent 0 a.handOver.1 := by
  unfold Deployment.takeOn
  rw [h.agent?]

/-- Who is turned down is counted, and nothing else happens. -/
theorem Alone.request_of_error (h : d.Alone a) {cause : HostError}
    (hnone : d.host.definitionOf owner = .error cause) :
    d.answer 0 owner = .turnedDown ∧
      (Deployment.request 0 d owner).Alone a.countRequestFailure ∧
        (Deployment.request 0 d owner).host = d.host := by
  have hrequest := request_of_failed (n := 0) (.inr ⟨cause, hnone⟩)
  refine ⟨?_, ?_, ?_⟩
  · rw [answer, h.breakdowns, hnone]
    rfl
  · rw [hrequest, modifyAgent, h.agents]
    exact ⟨rfl, h.breakdowns⟩
  · rw [hrequest]
    rfl

/-- Any other request is answered by how the treatment goes. -/
theorem Alone.answer_of_ok (h : d.Alone a) (hdefined : d.host.definitionOf owner = .ok bytes) :
    d.answer 0 owner =
      match a.config.treat (a.scope d.host.supertypeTable) owner (a.listed owner) bytes with
      | .ok _ => .done
      | .error _ => .failed := by
  rw [answer, h.breakdowns, hdefined, h.agent?, ← a.tryTransform_snd]
  show (match (a.tryTransform d.host.supertypeTable owner bytes).2 with
    | .ok _ => Answer.done
    | .error _ => Answer.failed) = _
  rcases a.tryTransform d.host.supertypeTable owner bytes with ⟨a', e | changed⟩ <;> rfl

theorem Alone.answer_of_treat (h : d.Alone a) (hdefined : d.host.definitionOf owner = .ok bytes)
    {treated : Bytes}
    (htreated : a.config.treat (a.scope d.host.supertypeTable) owner (a.listed owner) bytes =
      .ok treated) : d.answer 0 owner = .done := by
  rw [h.answer_of_ok hdefined, htreated]

/-- Whatever leaves the owner alone keeps it. -/
theorem Holds.congr {a' : Agent} (h : Holds owner bytes extended last d a) (halone : t.Alone a')
    (hconfig : a'.config = a.config)
    (hsame : Table.get? owner t.host.loaded = Table.get? owner d.host.loaded) :
    Holds owner bytes extended last t a' := by
  obtain ⟨l, hl, hrest⟩ := h.loaded
  exact ⟨halone, hconfig ▸ h.extension, l, hsame.trans hl, hrest⟩

/-- A retransformation starts from the bytes the owner was defined from. -/
theorem Holds.retransformed (hcapable : IsCapable extended)
    (h : Holds owner bytes extended last d a)
    (hdefined : d.host.definitionOf owner = .ok bytes) :
    ∃ a', Holds owner bytes extended (some (d.answer 0 owner)) (request 0 d owner) a' := by
  obtain ⟨l, hl, rfl, -⟩ := h.loaded
  obtain ⟨a', hnoted, halone, hhost⟩ := h.alone.request hdefined
  have hextension : a'.config.extendBase owner l.defined = .ok extended := by
    rw [hnoted.config_eq]
    exact h.extension
  have hcurrent : Table.get? owner (request 0 d owner).host.loaded = some { l with
      current := a.outcome d.host.supertypeTable owner (a.listed owner) l.defined
      retransforms := l.retransforms + 1 } := by
    rw [hhost]
    exact get?_replace_self hl
  refine ⟨a', halone, hextension, _, hcurrent, rfl, ?_⟩
  rw [h.alone.answer_of_ok hdefined]
  unfold Agent.outcome
  rcases htreated : a.config.treat (a.scope d.host.supertypeTable) owner (a.listed owner)
    l.defined with e | treated
  · -- the bytes are put back
    exact ⟨fun hnot => absurd rfl hnot, fun _ => rfl⟩
  · -- the extension is made anew from the same bytes, and patching does not take it away
    refine ⟨fun _ => ?_, nofun⟩
    exact (AgentConfig.isCapable_treat h.extension htreated).2 hcapable

/-- **One step keeps it**, with the answer that the step gives. -/
theorem Holds.step (hcapable : IsCapable extended) (h : Holds owner bytes extended last d a)
    (hstep : Step d e t) (hkept : e ≠ .defined owner) :
    ∃ a', Holds owner bytes extended (e.answered owner last) t a' := by
  cases hstep with
  | define other bytes' =>
    have hne : owner ≠ other := fun heq => hkept (heq ▸ rfl)
    obtain ⟨halone, hhost⟩ := h.alone.define other bytes'
    refine ⟨_, h.congr halone (a.annotates_transform ..).config_eq ?_⟩
    rw [hhost]
    exact Table.get?_put_of_ne hne ..
  | stage site =>
    rw [h.alone.stage]
    refine ⟨_, h.congr (h.alone.setAgent _) ?_ rfl⟩
    rw [report_eq]
  | takeOn =>
    rw [h.alone.takeOn]
    exact ⟨_, h.congr (h.alone.setAgent _) rfl rfl⟩
  | request other =>
    rcases hdefined : d.host.definitionOf other with cause | bytes'
    · obtain ⟨hanswer, halone, hhost⟩ := h.alone.request_of_error hdefined
      rw [hanswer]
      have hsame : Event.answered owner last (.requested other .turnedDown) = last :=
        if_neg fun hand => hand.2 rfl
      rw [hsame]
      exact ⟨_, h.congr halone rfl (by rw [hhost])⟩
    · by_cases hother : other = owner
      · -- the bytes that the host keeps are those of the definition
        subst hother
        obtain ⟨l, hl, hbytes, -⟩ := h.loaded
        obtain ⟨l', hl', rfl⟩ := exists_of_definitionOf hdefined
        obtain rfl : l = l' := Option.some.inj (hl.symm.trans hl')
        rw [hbytes] at hdefined
        have hanswer : d.answer 0 other ≠ .turnedDown := by
          rw [h.alone.answer_of_ok hdefined]
          split <;> nofun
        have hlast : Event.answered other last (.requested other (d.answer 0 other)) =
            some (d.answer 0 other) := if_pos ⟨rfl, hanswer⟩
        rw [hlast]
        exact h.retransformed hcapable hdefined
      · obtain ⟨a', hnoted, halone, hhost⟩ := h.alone.request hdefined
        have hsame : Event.answered owner last (.requested other (d.answer 0 other)) = last :=
          if_neg fun hand => hother hand.1
        rw [hsame]
        refine ⟨a', h.congr halone hnoted.config_eq ?_⟩
        rw [hhost, get?_replace_of_ne (Ne.symm hother)]

/-- And so does a run. -/
theorem Holds.run (hcapable : IsCapable extended) (h : Holds owner bytes extended none d a)
    (hrun : Runs Step d trace t) (hkept : .defined owner ∉ trace) :
    ∃ a', Holds owner bytes extended (answered owner trace) t a' := by
  induction hrun with
  | refl => exact ⟨a, h⟩
  | @snoc d' t trace e hrun hstep ih =>
    obtain ⟨a', h'⟩ := ih fun hmem => hkept (List.mem_append_left _ hmem)
    have hlast : answered owner (trace ++ [e]) = e.answered owner (answered owner trace) := by
      rw [answered, List.foldl_append]
      rfl
    rw [hlast]
    refine h'.step hcapable hstep fun heq => hkept ?_
    exact List.mem_append_right _ (heq ▸ List.mem_cons_self)

end Deployment

/-- The owner runs a store with the capability. -/
def Host.RunsCapable (h : Host) (owner : String) : Prop :=
  ∃ a, h.currentArtifact owner = .ok a ∧ a.Capable

theorem Host.runsCapable_iff {h : Host} {owner : String} {l : LoadedArtifact}
    (hl : Table.get? owner h.loaded = some l) : h.RunsCapable owner ↔ IsCapable l.current := by
  have hcurrent : h.currentBytes? owner = some l.current := by
    rw [currentBytes?, hl]
    rfl
  unfold RunsCapable IsCapable
  refine exists_congr fun a => and_congr_left fun _ => ?_
  rw [currentArtifact, hcurrent]
  show (Artifact.decode l.current).mapError (fun e => HostError.malformed owner e.message) =
    .ok a ↔ _
  rcases Artifact.decode l.current with e | a'
  · simp [Except.mapError]
  · simp [Except.mapError]

namespace Deployment

variable {d t : Deployment} {a : Agent} {trace : List Event} {owner : String} {bytes : Bytes}

/-- **A store keeps its capability but for retransformations that fail.** When it has been loaded
with the capability, it has it after every run in which it is not defined again, if the last
retransformation that went ahead did not fail. If that failed, the store runs the bytes it was
defined from. -/
theorem keeps_capability (halone : d.Alone a)
    (hloaded : (d.define owner bytes).1.host.RunsCapable owner)
    (hrun : Runs Step (d.define owner bytes).1 trace t) (hkept : .defined owner ∉ trace) :
    (answered owner trace ≠ some .failed → t.host.RunsCapable owner) ∧
      (answered owner trace = some .failed → t.host.currentBytes? owner = some bytes) := by
  obtain ⟨halone', hhost⟩ := halone.define owner bytes
  have hentry : Table.get? owner (d.define owner bytes).1.host.loaded =
      some ⟨bytes, a.outcome d.host.supertypeTable owner (a.listed owner) bytes, 0⟩ := by
    rw [hhost]
    exact Table.get?_put_self ..
  have hcurrent := (Host.runsCapable_iff hentry).1 hloaded
  obtain ⟨extended, hextended, hcapable⟩ := Agent.exists_extended hcurrent
  have hconfig := (a.annotates_transform d.host.supertypeTable owner bytes).config_eq
  have hholds : Holds owner bytes extended none (d.define owner bytes).1
      (a.transform d.host.supertypeTable owner bytes).1 :=
    ⟨halone', hconfig ▸ hextended, _, hentry, rfl, fun _ => hcurrent, nofun⟩
  obtain ⟨a', -, -, l, hl, -, hdone, hfailed⟩ := hholds.run hcapable hrun hkept
  refine ⟨fun hanswer => (Host.runsCapable_iff hl).2 (hdone hanswer), fun hanswer => ?_⟩
  rw [Host.currentBytes?, hl, ← hfailed hanswer]
  rfl

end Deployment

/-! ## A store whose labels run out -/

namespace Exhausted

open Rollout (get?_replace_self)

/-- Extends `acme/Store` when it is defined. -/
def config : AgentConfig :=
  AgentConfig.default.withBaseImplementation "acme/Store"

def agent : Agent :=
  .fresh config true

/-- A store with a member `bulk` in which the last label is taken. -/
def store : Artifact where
  name := "acme/Store"
  supertypes := [Store.storeInterface]
  members := [
    { name := Store.put, desc := Store.putDesc, access := .pub, code := [.load 2, .retValue] },
    { name := Store.set, desc := Store.setDesc, access := .pub, code := [.ret] },
    { name := "bulk"
      desc := "(store,key,value)->void"
      access := .pub
      code := [.label 4294967295, .load 1, .load 2, .load 3,
        .invoke .interface Store.storeInterface Store.put Store.putDesc, .pop, .ret] }]

/-- The store with the capability. -/
def extended : Artifact :=
  match store.extend with
  | .ok extended => extended
  | .error _ => store

/-- The report of the call in `bulk`. -/
def site : CallSite :=
  .ofCaller { owner := "acme/Store", member := "bulk", native := false }

/-- The deployment when the store has been defined. -/
def defined (bytes : Bytes) : Deployment :=
  ((Deployment.empty.start config true).1.define "acme/Store" bytes).1

theorem exists_extended : ∃ bytes bytes', Artifact.decode bytes = .ok store ∧
    Artifact.decode bytes' = .ok extended ∧ extendStore bytes = .ok ⟨bytes', true⟩ :=
  exists_extendStore (by decide) (by decide +kernel) (by decide +kernel) (by decide +kernel)

theorem exists_bytes : ∃ bytes bytes', Artifact.decode bytes = .ok store ∧
    Artifact.decode bytes' = .ok extended ∧
      config.extendBase "acme/Store" bytes = .ok bytes' := by
  obtain ⟨bytes, bytes', hdecode, hdecode', hextend⟩ := exists_extended
  refine ⟨bytes, bytes', hdecode, hdecode', ?_⟩
  rw [AgentConfig.extendBase, if_pos (by decide), hextend]
  rfl

variable {bytes bytes' : Bytes}

/-- No ids are left for a replacement in `bulk`. -/
theorem patch_bulk (hdecode : Artifact.decode bytes' = .ok extended) (scope : Scope)
    (hinterfaces : scope.interfaces = config.storeInterfaces) :
    patchCallSites scope ["bulk"] bytes' = .error (.labelsExhausted "acme/Store" "bulk") := by
  obtain ⟨interfaces, capable⟩ := scope
  obtain rfl : interfaces = config.storeInterfaces := hinterfaces
  have hpatch : extended.patch ⟨config.storeInterfaces, capable⟩ ["bulk"] =
      .error (.labelsExhausted "acme/Store" "bulk") := rfl
  simp only [patchCallSites, hdecode, PatchError.ofFrame, Except.mapError, bind, Except.bind,
    hpatch]

theorem treat_bulk (hdecode : Artifact.decode bytes' = .ok extended)
    (hextended : config.extendBase "acme/Store" bytes = .ok bytes') (scope : Scope)
    (hinterfaces : scope.interfaces = config.storeInterfaces) :
    config.treat scope "acme/Store" ["bulk"] bytes =
      .error (.labelsExhausted "acme/Store" "bulk") := by
  rw [AgentConfig.treat_of_ok hextended, if_neg (List.cons_ne_nil _ _),
    patch_bulk hdecode scope hinterfaces]
  rfl

theorem capable_extended : extended.Capable :=
  ⟨by decide, by decide⟩

/-- The definition extends the store, and leaves the agent as it was. -/
theorem defined_eq (hextended : config.extendBase "acme/Store" bytes = .ok bytes') :
    (defined bytes).Alone agent ∧
      (defined bytes).host = Host.empty.load "acme/Store" bytes bytes' := by
  have hstarted : (Deployment.empty.start config true).1.Alone agent :=
    Deployment.alone_start config true
  have hempty : (Deployment.empty.start config true).1.host = .empty := Deployment.host_start ..
  obtain ⟨halone, hhost⟩ := hstarted.define "acme/Store" bytes
  have houtcome : agent.outcome [] "acme/Store" [] bytes = bytes' := by
    rw [Agent.outcome, AgentConfig.treat_nil, show agent.config = config from rfl, hextended]
  have hsame : (agent.transform [] "acme/Store" bytes).1 = agent := by
    have hfirst : (agent.extended? "acme/Store" bytes).map (fun e => e.getD bytes) = .ok bytes' :=
      (agent.extended?_eq "acme/Store" bytes).trans hextended
    unfold Agent.transform Agent.tryTransform
    generalize agent.extended? "acme/Store" bytes = first at hfirst ⊢
    rcases first with e | first
    · cases hfirst
    · rfl
  rw [hempty] at halone hhost
  refine ⟨?_, ?_⟩
  · rw [← hsame]
    exact halone
  · rw [← houtcome]
    exact hhost

/-- The agent when it has taken the call on. -/
def tookOn : Agent :=
  (agent.report site).1.handOver.1

/-- A report of the call has the store retransformed, and nothing else. -/
theorem report_defined (hextended : config.extendBase "acme/Store" bytes = .ok bytes') :
    ((defined bytes).report 0 site).1 =
        Deployment.request 0 ((defined bytes).setAgent 0 tookOn) "acme/Store" ∧
      ((defined bytes).setAgent 0 tookOn).Alone tookOn ∧
        ((defined bytes).setAgent 0 tookOn).host.definitionOf "acme/Store" = .ok bytes := by
  obtain ⟨halone, hhost⟩ := defined_eq hextended
  have hfresh : (agent.report site).2 = .ok true := by decide +kernel
  have hstaged : (agent.report site).1.staging.isEmpty = false := by decide +kernel
  have hdue : ((defined bytes).setAgent 0 tookOn).affected (agent.report site).1.handOver.2 =
      ["acme/Store"] := by
    show ((agent.report site).1.handOver.2.ownerNames?.getD []).filter
      (defined bytes).host.loadedOwners.contains = ["acme/Store"]
    rw [hhost]
    show ((agent.report site).1.handOver.2.ownerNames?.getD []).filter
      (Text.sort ["acme/Store"]).contains = ["acme/Store"]
    decide +kernel
  refine ⟨?_, halone.setAgent tookOn, ?_⟩
  · rw [halone.report_of_fresh hfresh hstaged, ← tookOn, hdue]
    rfl
  · show (defined bytes).host.definitionOf "acme/Store" = .ok bytes
    rw [hhost]
    rfl

/-- So the store runs what the agent makes of it when it has taken the call on. -/
theorem get?_reported (hextended : config.extendBase "acme/Store" bytes = .ok bytes') :
    Table.get? "acme/Store" ((defined bytes).report 0 site).1.host.loaded =
      some ⟨bytes, tookOn.outcome (defined bytes).host.supertypeTable "acme/Store" ["bulk"] bytes,
        1⟩ := by
  obtain ⟨hreport, halone, hdefined⟩ := report_defined hextended
  have hlisted : tookOn.listed "acme/Store" = ["bulk"] := by decide +kernel
  have hloaded : Table.get? "acme/Store" (defined bytes).host.loaded = some ⟨bytes, bytes', 0⟩ := by
    rw [(defined_eq hextended).2]
    rfl
  obtain ⟨a', -, -, hrequested⟩ := halone.request hdefined
  rw [hreport, hrequested, hlisted]
  exact get?_replace_self hloaded

/-- Where the call cannot be patched that is the store as it was defined. -/
theorem outcome_bulk (hdecode : Artifact.decode bytes' = .ok extended)
    (hextended : config.extendBase "acme/Store" bytes = .ok bytes') (supertypes : Supertypes) :
    tookOn.outcome supertypes "acme/Store" ["bulk"] bytes = bytes := by
  exact Agent.outcome_of_error (treat_bulk hdecode hextended (tookOn.scope supertypes) rfl)

/-- The store is loaded with the capability. -/
theorem runsCapable_defined {a : Artifact} (hdecode : Artifact.decode bytes' = .ok a)
    (hcapable : a.Capable) (hextended : config.extendBase "acme/Store" bytes = .ok bytes') :
    (defined bytes).host.RunsCapable "acme/Store" := by
  obtain ⟨-, hhost⟩ := defined_eq hextended
  have hloaded : Table.get? "acme/Store" (defined bytes).host.loaded = some ⟨bytes, bytes', 0⟩ := by
    rw [hhost]
    rfl
  rw [Host.runsCapable_iff hloaded, isCapable_iff hdecode]
  exact hcapable

/-- **A store can lose its capability.** The call in `bulk` cannot be patched when it is reported,
and the store is put back as it was before it was extended. -/
theorem capability_lost : ∃ bytes, Artifact.decode bytes = .ok store ∧
    (defined bytes).host.RunsCapable "acme/Store" ∧
      ¬((defined bytes).report 0 site).1.host.RunsCapable "acme/Store" := by
  obtain ⟨bytes, bytes', hdecode, hdecode', hextended⟩ := exists_bytes
  refine ⟨bytes, hdecode, runsCapable_defined hdecode' capable_extended hextended,
    fun hcapable => ?_⟩
  rw [Host.runsCapable_iff (get?_reported hextended), outcome_bulk hdecode' hextended,
    isCapable_iff hdecode] at hcapable
  exact absurd hcapable.marked (by decide)

/-- The store when no label in `bulk` is taken. -/
def roomy : Artifact :=
  { store with
    members := store.members.map fun m =>
      { m with code := m.code.filter fun insn => insn.label? = none } }

/-- That store with the capability, and with the call in `bulk` patched. -/
def patched : Artifact :=
  match roomy.extended.patch (agent.scope []) ["bulk"] with
  | .ok (patched, _) => patched
  | .error _ => roomy

theorem exists_extended_roomy : ∃ bytes bytes', Artifact.decode bytes = .ok roomy ∧
    Artifact.decode bytes' = .ok roomy.extended ∧ extendStore bytes = .ok ⟨bytes', true⟩ :=
  exists_extendStore (by decide) rfl (by decide +kernel) (by decide +kernel)

/-- Its call can be patched. -/
theorem patch_roomy (hdecode : Artifact.decode bytes' = .ok roomy.extended) (scope : Scope)
    (hinterfaces : scope.interfaces = config.storeInterfaces) :
    ∃ bytes'', patchCallSites scope ["bulk"] bytes' = .ok ⟨bytes'', 1⟩ ∧
      Artifact.decode bytes'' = .ok patched := by
  obtain ⟨interfaces, capable⟩ := scope
  obtain rfl : interfaces = config.storeInterfaces := hinterfaces
  have hpatch : roomy.extended.patch ⟨config.storeInterfaces, capable⟩ ["bulk"] =
      .ok (patched, 1) := rfl
  obtain ⟨bytes'', hencode⟩ := Artifact.encode_of_length_le_default (a := patched)
    (by decide +kernel)
  refine ⟨bytes'', ?_, Artifact.decode_encode hencode⟩
  exact patchCallSites_eq_ok_iff.2 ⟨_, hdecode, _, _, hpatch,
    .inr ⟨Nat.one_ne_zero, bytes'', hencode, rfl⟩⟩

/-- So the store is treated with success, its call included. -/
theorem treat_roomy (hdecode : Artifact.decode bytes' = .ok roomy.extended)
    (hextended : config.extendBase "acme/Store" bytes = .ok bytes') (scope : Scope)
    (hinterfaces : scope.interfaces = config.storeInterfaces) :
    ∃ bytes'', config.treat scope "acme/Store" ["bulk"] bytes = .ok bytes'' ∧
      Artifact.decode bytes'' = .ok patched := by
  obtain ⟨bytes'', hpatched, hdecode''⟩ := patch_roomy hdecode scope hinterfaces
  refine ⟨bytes'', ?_, hdecode''⟩
  rw [AgentConfig.treat_of_ok hextended, if_neg (List.cons_ne_nil _ _), hpatched]
  rfl

/-- The report is a run of three steps. -/
theorem runs_report (hextended : config.extendBase "acme/Store" bytes = .ok bytes') :
    Runs Deployment.Step (defined bytes)
      [.staged site, .tookOn,
        .requested "acme/Store" (((defined bytes).setAgent 0 tookOn).answer 0 "acme/Store")]
      ((defined bytes).report 0 site).1 := by
  obtain ⟨halone, -⟩ := defined_eq hextended
  obtain ⟨hreport, -, -⟩ := report_defined hextended
  have hstage : Deployment.Step (defined bytes) (.staged site)
      ((defined bytes).setAgent 0 (agent.report site).1) :=
    halone.stage site ▸ .stage (defined bytes) site
  have htake : Deployment.Step ((defined bytes).setAgent 0 (agent.report site).1) .tookOn
      ((defined bytes).setAgent 0 tookOn) := by
    have htaken := (halone.setAgent (agent.report site).1).takeOn
    rw [Deployment.setAgent_setAgent, ← tookOn] at htaken
    exact htaken ▸ .takeOn _
  rw [hreport]
  exact .snoc (.snoc (.single hstage) htake) (.request ..)

/-- Retransformed when the call is reported, that store keeps the capability, and has the call
patched. -/
theorem keeps_capability_patched : ∃ bytes, Artifact.decode bytes = .ok roomy ∧
    (defined bytes).host.RunsCapable "acme/Store" ∧
      ((defined bytes).report 0 site).1.host.RunsCapable "acme/Store" ∧
        ((defined bytes).report 0 site).1.host.currentArtifact "acme/Store" = .ok patched := by
  obtain ⟨bytes, bytes', hdecode, hdecode', hextend⟩ := exists_extended_roomy
  have hextended : config.extendBase "acme/Store" bytes = .ok bytes' := by
    rw [AgentConfig.extendBase, if_pos (by decide), hextend]
    rfl
  have hcapable := runsCapable_defined hdecode' ⟨by decide, by decide⟩ hextended
  obtain ⟨-, htook, hdefined⟩ := report_defined hextended
  have hlisted : tookOn.listed "acme/Store" = ["bulk"] := by decide +kernel
  obtain ⟨bytes'', htreated, hdecode''⟩ :=
    treat_roomy hdecode' hextended (tookOn.scope (defined bytes).host.supertypeTable) rfl
  have hrun := runs_report hextended
  rw [htook.answer_of_treat hdefined (hlisted ▸ htreated)] at hrun
  have hstarted : (Deployment.empty.start config true).1.Alone agent :=
    Deployment.alone_start config true
  refine ⟨bytes, hdecode, hcapable,
    (Deployment.keeps_capability hstarted hcapable hrun (by decide)).1 (by decide), ?_⟩
  have houtcome : tookOn.outcome (defined bytes).host.supertypeTable "acme/Store" ["bulk"] bytes =
      bytes'' := Agent.outcome_of_ok htreated
  rw [Host.currentArtifact, Host.currentBytes?, get?_reported hextended, houtcome]
  show (Artifact.decode bytes'').mapError _ = .ok patched
  rw [hdecode'']
  rfl

end Exhausted

end CallPatch
