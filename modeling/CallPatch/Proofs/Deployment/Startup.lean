import CallPatch.Proofs.Deployment.Redefinition
import CallPatch.Proofs.Patch.Capability
/-!
# Deployments — an agent that is started while owners are defined

To start, an agent looks whether one of its base implementations is loaded
already, and is then registered. A definition goes by the agents that are
registered when it begins, runs them, and loads the owner. Definitions come
between the steps of the start, and the steps of the start between those of a
definition, as they like.

Once the agent is started, every base implementation of it that is loaded was
loaded after it had looked. It was among the agents that ran, and the store
declares the marker unless the agent counted a failure, or the definition
*overlapped* the start: it began before the agent was registered
(`extended_unless_overlapping`). Nothing rules that out, and then the store is
left as it was and no failure is counted (`Overlapping.not_extended`).
-/

namespace CallPatch

/-! ## What one agent does with a base implementation -/

namespace Agent

variable {a : Agent} {owner : String}

/-- No transformation takes away what is declared. -/
theorem declaredBy_subset_outcome (a : Agent) (supertypes : Supertypes) (owner : String)
    (names : List String) (bytes : Bytes) :
    Host.declaredBy bytes ⊆ Host.declaredBy (a.outcome supertypes owner names bytes) := by
  unfold outcome
  rcases htreated : a.config.treat (a.scope supertypes) owner names bytes with e | treated
  · exact List.Subset.refl _
  · obtain ⟨extended, hextended, -⟩ := AgentConfig.treat_eq_ok_iff.1 htreated
    show _ ⊆ Host.declaredBy treated
    rw [AgentConfig.declaredBy_of_treat hextended htreated]
    exact AgentConfig.declaredBy_subset hextended

theorem transformFailures_noting (a : Agent) (owner : String) (p : Patched) :
    (a.noting owner p).pipeline.transformFailures = a.pipeline.transformFailures := by
  unfold noting
  split
  · rfl
  · split <;> rfl

/-- A failure is counted when the treatment has no outcome, and only then. -/
theorem transformFailures_transform (a : Agent) (supertypes : Supertypes) (owner : String)
    (bytes : Bytes) :
    (a.transform supertypes owner bytes).1.pipeline.transformFailures =
      match a.config.treat (a.scope supertypes) owner (a.listed owner) bytes with
      | .ok _ => a.pipeline.transformFailures
      | .error _ => a.pipeline.transformFailures + 1 := by
  have htried := a.tryTransform_snd supertypes owner bytes
  have htries := a.tries_tryTransform supertypes owner bytes
  unfold transform
  rw [← htried]
  generalize a.tryTransform supertypes owner bytes = tried at htries
  cases htries with
  | notExtended h => rfl
  | notPatched hx h => rfl
  | done hx hp => exact transformFailures_noting ..

/-- A base implementation declares the marker when the agent is through with it, or the agent has
counted a failure. -/
theorem marked_or_failed (supertypes : Supertypes) (bytes : Bytes)
    (hbase : a.config.isBaseImplementation owner = true) :
    Store.marker ∈ Host.declaredBy ((a.transform supertypes owner bytes).2.getD bytes) ∨
      a.pipeline.transformFailures <
        (a.transform supertypes owner bytes).1.pipeline.transformFailures := by
  rw [getD_transform, transformFailures_transform, outcome]
  rcases htreated :
    a.config.treat (a.scope supertypes) owner (a.listed owner) bytes with e | treated
  · exact .inr (Nat.lt_succ_self _)
  · obtain ⟨extended, hextended, -⟩ := AgentConfig.treat_eq_ok_iff.1 htreated
    refine .inl ?_
    show Store.marker ∈ Host.declaredBy treated
    rw [AgentConfig.declaredBy_of_treat hextended htreated]
    rw [AgentConfig.extendBase, if_pos hbase] at hextended
    rcases hstore : extendStore bytes with e | e
    · rw [hstore] at hextended
      cases hextended
    · rw [hstore] at hextended
      obtain rfl : e.bytes = extended := Except.ok.inj hextended
      exact marker_mem_of_extendStore hstore

end Agent

/-! ## What several agents do in turn -/

namespace Deployment

variable {d d' : Deployment} {config : AgentConfig} {n : Nat} {ns : List Nat}
variable {owner : String} {bytes bytes' : Bytes}

/-- How many transformations of the agent with that number have failed. -/
def failures (d : Deployment) (n : Nat) : Nat :=
  ((d.agent? n).map fun a => a.pipeline.transformFailures).getD 0

/-- There is an agent with that number, and it is configured so. -/
def HasAgent (d : Deployment) (n : Nat) (config : AgentConfig) : Prop :=
  ∃ a, d.agent? n = some a ∧ a.config = config

/-- Runs the agents with these numbers over the bytes of an owner, each over what the one before it
left. -/
def transformFor (d : Deployment) (ns : List Nat) (owner : String) (bytes : Bytes) :
    Deployment × Bytes :=
  ns.foldl (fun (d, bytes) n => d.transformBy n owner bytes) (d, bytes)

/-- Those of them that count a failure. -/
def failing (d : Deployment) (ns : List Nat) (owner : String) (bytes : Bytes) : List Nat :=
  ns.filter fun n => d.failures n < (d.transformFor ns owner bytes).1.failures n

/-- What agents leave as it is when they transform bytes, and what only grows. -/
structure Progress (d : Deployment) (bytes : Bytes) (d' : Deployment) (bytes' : Bytes) : Prop where
  host : d'.host = d.host
  length : d'.agents.length = d.agents.length
  agents : ∀ n config, d.HasAgent n config → d'.HasAgent n config
  failures : ∀ n, d.failures n ≤ d'.failures n
  declared : Host.declaredBy bytes ⊆ Host.declaredBy bytes'

theorem Progress.refl (d : Deployment) (bytes : Bytes) : d.Progress bytes d bytes where
  host := rfl
  length := rfl
  agents _ _ h := h
  failures _ := Nat.le_refl _
  declared := List.Subset.refl _

theorem Progress.trans {d'' : Deployment} {bytes'' : Bytes} (h : d.Progress bytes d' bytes')
    (h' : d'.Progress bytes' d'' bytes'') : d.Progress bytes d'' bytes'' where
  host := h'.host.trans h.host
  length := h'.length.trans h.length
  agents n config hn := h'.agents n config (h.agents n config hn)
  failures n := Nat.le_trans (h.failures n) (h'.failures n)
  declared := List.Subset.trans h.declared h'.declared

theorem HasAgent.transformBy {m : Nat} (h : d.HasAgent m config) (n : Nat) (owner : String)
    (bytes : Bytes) : (d.transformBy n owner bytes).1.HasAgent m config := by
  rcases hn : d.agent? n with - | a
  · rwa [transformBy_of_none hn]
  · obtain ⟨b, hb, rfl⟩ := h
    by_cases hm : m = n
    · obtain rfl : a = b := Option.some.inj ((hm ▸ hn).symm.trans hb)
      obtain ⟨timeline, pipeline, hnoted⟩ := a.annotates_transform d.host.supertypeTable owner bytes
      exact ⟨_, (agent?_transformBy hn owner bytes m).trans (if_pos hm), by rw [hnoted]⟩
    · exact ⟨b, (agent?_transformBy hn owner bytes m).trans ((if_neg hm).trans hb), rfl⟩

theorem failures_le_transformBy (d : Deployment) (n : Nat) (owner : String) (bytes : Bytes)
    (m : Nat) : d.failures m ≤ (d.transformBy n owner bytes).1.failures m := by
  rcases hn : d.agent? n with - | a
  · exact Nat.le_of_eq (by rw [transformBy_of_none hn])
  · by_cases hm : m = n
    · rw [failures, failures, agent?_transformBy hn, if_pos hm, hm, hn, Option.map_some,
        Option.map_some, Option.getD_some, Option.getD_some, Agent.transformFailures_transform]
      split
      · exact Nat.le_refl _
      · exact Nat.le_succ _
    · exact Nat.le_of_eq (by rw [failures, failures, agent?_transformBy hn, if_neg hm])

theorem progress_transformBy (d : Deployment) (n : Nat) (owner : String) (bytes : Bytes) :
    d.Progress bytes (d.transformBy n owner bytes).1 (d.transformBy n owner bytes).2 := by
  have hhost := host_transformBy d n owner bytes
  have hagents (m : Nat) (config : AgentConfig) (h : d.HasAgent m config) :
      (d.transformBy n owner bytes).1.HasAgent m config := h.transformBy n owner bytes
  have hfailures := d.failures_le_transformBy n owner bytes
  rcases hn : d.agent? n with - | a
  · rw [transformBy_of_none hn]
    exact .refl d bytes
  · obtain ⟨hset, hcurrent⟩ := agents_transformBy hn owner bytes
    refine ⟨hhost, by rw [hset, List.length_set], hagents, hfailures, ?_⟩
    rw [hcurrent, Agent.getD_transform]
    exact a.declaredBy_subset_outcome ..

theorem transformFor_cons (d : Deployment) (n : Nat) (ns : List Nat) (owner : String)
    (bytes : Bytes) :
    d.transformFor (n :: ns) owner bytes =
      (d.transformBy n owner bytes).1.transformFor ns owner (d.transformBy n owner bytes).2 :=
  rfl

theorem progress_transformFor (d : Deployment) (ns : List Nat) (owner : String) (bytes : Bytes) :
    d.Progress bytes (d.transformFor ns owner bytes).1 (d.transformFor ns owner bytes).2 := by
  induction ns generalizing d bytes with
  | nil => exact .refl d bytes
  | cons n ns ih => exact (d.progress_transformBy n owner bytes).trans (ih ..)

/-- What one of the agents is configured to extend declares the marker when all are through with it,
or that agent has counted a failure. -/
theorem marked_or_failing (hn : n ∈ ns) (hagent : d.HasAgent n config)
    (hbase : config.isBaseImplementation owner = true) :
    Store.marker ∈ Host.declaredBy (d.transformFor ns owner bytes).2 ∨
      n ∈ d.failing ns owner bytes := by
  suffices h : Store.marker ∈ Host.declaredBy (d.transformFor ns owner bytes).2 ∨
      d.failures n < (d.transformFor ns owner bytes).1.failures n by
    exact h.imp_right fun hlt => List.mem_filter.2 ⟨hn, decide_eq_true hlt⟩
  induction ns generalizing d bytes with
  | nil => cases hn
  | cons m ns ih =>
    have hfirst := d.progress_transformBy m owner bytes
    have hrest := (d.transformBy m owner bytes).1.progress_transformFor ns owner
      (d.transformBy m owner bytes).2
    rw [transformFor_cons]
    rcases List.mem_cons.1 hn with rfl | hn
    · -- it is the turn of the agent itself, and those after it take nothing back
      obtain ⟨a, ha, rfl⟩ := hagent
      rcases a.marked_or_failed d.host.supertypeTable bytes hbase with hmarked | hfailed
      · rw [← (agents_transformBy ha owner bytes).2] at hmarked
        exact .inl (hrest.declared hmarked)
      · refine .inr (Nat.lt_of_lt_of_le ?_ (hrest.failures n))
        rwa [failures, failures, agent?_transformBy ha, if_pos rfl, ha]
    · rcases ih hn (hfirst.agents n config hagent) with hmarked | hfailed
      · exact .inl hmarked
      · exact .inr (Nat.lt_of_le_of_lt (hfirst.failures n) hfailed)

end Deployment

/-! ## A start among definitions -/

/-- How far the start of an agent has come. -/
inductive Starting where
  | pending
  /-- No base implementation was loaded when the agent looked. -/
  | checked (a : Agent)
  | refused (e : AgentError)
  /-- The agent is registered under its number. -/
  | registered (n : Nat)
  deriving DecidableEq, Repr

namespace Starting

/-- The agent has looked at what is loaded. -/
def looked : Starting → Bool
  | .pending => false
  | _ => true

/-- The agent has looked and found nothing. -/
def passed : Starting → Bool
  | .checked _ | .registered _ => true
  | _ => false

def isRegistered : Starting → Bool
  | .registered _ => true
  | _ => false

/-- The number that the agent has, or has when it is registered next. -/
def number (agents : Nat) : Starting → Nat
  | .registered n => n
  | _ => agents

end Starting

/-- A definition under way while an agent is started. -/
inductive Startup.Definition where
  /-- It goes by the agents that are registered. It is early when the one that is started is not. -/
  | begun (owner : String) (bytes : Bytes) (agents : List Nat) (early : Bool)
  /-- Those that failed have counted it. -/
  | transformed (owner : String) (bytes : Bytes) (agents : List Nat) (early : Bool)
      (failed : List Nat) (current : Bytes)
  deriving DecidableEq, Repr

/-- How the owner that is loaded was defined. -/
structure Startup.Account where
  /-- The agents that ran, in turn. -/
  agents : List Nat
  /-- Those of them that counted a failure. -/
  failed : List Nat
  /-- Whether the definition began before the agent was registered and ended when it had looked. -/
  overlapping : Bool
  deriving DecidableEq, Repr

/-- A deployment with an agent that is started and the definitions under way. -/
structure Startup where
  deployment : Deployment
  starting : Starting
  defining : List Startup.Definition
  accounts : Table String Startup.Account
  deriving DecidableEq, Repr

namespace Startup

/-- One step of the start or of a definition. -/
inductive Step (config : AgentConfig) (sees : Bool) : Startup → Startup → Prop where
  | begin (s : Startup) (owner : String) (bytes : Bytes) :
      Step config sees s
        { s with defining := s.defining ++
            [.begun owner bytes (List.range s.deployment.agents.length)
              (!s.starting.isRegistered)] }
  | transform {d : Deployment} {starting : Starting} {accounts : Table String Account}
      {owner : String} {bytes : Bytes} {ns : List Nat} {early : Bool}
      (before after : List Definition) :
      Step config sees
        ⟨d, starting, before ++ .begun owner bytes ns early :: after, accounts⟩
        ⟨(d.transformFor ns owner bytes).1, starting,
          before ++ .transformed owner bytes ns early (d.failing ns owner bytes)
            (d.transformFor ns owner bytes).2 :: after, accounts⟩
  | load {d : Deployment} {starting : Starting} {accounts : Table String Account}
      {owner : String} {bytes current : Bytes} {ns failed : List Nat} {early : Bool}
      (before after : List Definition) :
      Step config sees
        ⟨d, starting, before ++ .transformed owner bytes ns early failed current :: after, accounts⟩
        ⟨{ d with host := d.host.load owner bytes current }, starting, before ++ after,
          Table.put owner ⟨ns, failed, early && starting.looked⟩ accounts⟩
  | check {d : Deployment} {defining : List Definition} {accounts : Table String Account}
      {a : Agent} (passed : Agent.start d.host.loadedOwners config sees = .ok a) :
      Step config sees ⟨d, .pending, defining, accounts⟩ ⟨d, .checked a, defining, accounts⟩
  | refuse {d : Deployment} {defining : List Definition} {accounts : Table String Account}
      {e : AgentError} (found : Agent.start d.host.loadedOwners config sees = .error e) :
      Step config sees ⟨d, .pending, defining, accounts⟩ ⟨d, .refused e, defining, accounts⟩
  /-- The coordinator of the agent cannot be started. -/
  | fail {d : Deployment} {defining : List Definition} {accounts : Table String Account}
      {a : Agent} (reason : String) :
      Step config sees ⟨d, .checked a, defining, accounts⟩
        ⟨d, .refused (.spawn reason), defining, accounts⟩
  | register {d : Deployment} {defining : List Definition} {accounts : Table String Account}
      {a : Agent} :
      Step config sees ⟨d, .checked a, defining, accounts⟩
        ⟨{ d with agents := d.agents ++ [a] }, .registered d.agents.length, defining, accounts⟩

/-- The agent is to be started, and nothing is being defined. -/
def unstarted (d : Deployment) : Startup where
  deployment := d
  starting := .pending
  defining := []
  accounts := []

/-- The start and the definitions can come to this state, whichever of them steps when. -/
def Reachable (config : AgentConfig) (sees : Bool) (d : Deployment) (s : Startup) : Prop :=
  Relation.ReflTransGen (Step config sees) (unstarted d) s

/-! ## What a step keeps -/

section

variable {config : AgentConfig} {sees : Bool} {d d' : Deployment} {s t : Startup}
variable {owner : String} {n : Nat}

/-- What is known of a definition under way, by the number of the agent that is started: the agent
runs if the definition is not early, and then it treats the owner as configured. -/
def Definition.Sound (config : AgentConfig) (d : Deployment) (n : Nat) : Definition → Prop
  | .begun _ _ ns early => (n ∈ ns ↔ early = false) ∧ (n ∈ ns → d.HasAgent n config)
  | .transformed owner _ ns early failed current =>
    (n ∈ ns ↔ early = false) ∧
      (n ∈ ns → config.isBaseImplementation owner = true →
        Store.marker ∈ Host.declaredBy current ∨ n ∈ failed)

/-- What is known of a base implementation that is loaded. -/
def Account.Sound (n : Nat) (current : Bytes) (m : Account) : Prop :=
  (n ∈ m.agents ↔ m.overlapping = false) ∧
    (n ∈ m.agents → Store.marker ∈ Host.declaredBy current ∨ n ∈ m.failed)

/-- When the agent has looked and found nothing, there is an account of every base implementation
that is loaded. -/
structure Sound (config : AgentConfig) (s : Startup) : Prop where
  checked : ∀ a, s.starting = .checked a → a.config = config
  registered : ∀ n, s.starting = .registered n → s.deployment.HasAgent n config
  defining : ∀ p ∈ s.defining, Definition.Sound config s.deployment
    (s.starting.number s.deployment.agents.length) p
  loaded : s.starting.passed = true → ∀ owner l, config.isBaseImplementation owner = true →
    Table.get? owner s.deployment.host.loaded = some l →
      ∃ m, Table.get? owner s.accounts = some m ∧
        m.Sound (s.starting.number s.deployment.agents.length) l.current

theorem Definition.Sound.mono {p : Definition} (h : p.Sound config d n)
    (hagent : d.HasAgent n config → d'.HasAgent n config) : p.Sound config d' n := by
  cases p with
  | begun owner bytes ns early => exact ⟨h.1, fun hn => hagent (h.2 hn)⟩
  | transformed owner bytes ns early failed current => exact h

theorem hasAgent_append (h : d.HasAgent n config) (a : Agent) :
    Deployment.HasAgent { d with agents := d.agents ++ [a] } n config := by
  obtain ⟨b, hb, hconfig⟩ := h
  obtain ⟨hlt, -⟩ := List.getElem?_eq_some_iff.1 hb
  exact ⟨b, (List.getElem?_append_left hlt).trans hb, hconfig⟩

/-- An agent that starts has the configuration, and none of its base implementations is loaded. -/
theorem of_start_eq_ok {host : Host} {a : Agent}
    (h : Agent.start host.loadedOwners config sees = .ok a) :
    a.config = config ∧ ∀ owner, config.isBaseImplementation owner = true →
      Table.get? owner host.loaded = none := by
  have hfresh := Rollout.eq_fresh_of_start h
  unfold Agent.start at h
  split at h
  · cases h
  · next hnone =>
    refine ⟨congrArg Agent.config hfresh, fun owner hbase => ?_⟩
    have hnot := List.find?_eq_none.1 hnone owner (List.contains_iff_mem.1 hbase)
    rwa [Rollout.contains_loadedOwners, Option.not_isSome_iff_eq_none] at hnot

/-- A definition that begins goes by the agent that is started just when its start is over. -/
theorem Sound.begin (h : Sound config s) (owner : String) (bytes : Bytes) :
    Sound config { s with defining := s.defining ++
      [.begun owner bytes (List.range s.deployment.agents.length) (!s.starting.isRegistered)] } := by
  refine ⟨h.checked, h.registered, List.forall_mem_append.2 ⟨h.defining, ?_⟩, h.loaded⟩
  rw [List.forall_mem_singleton]
  rcases hstarting : s.starting with - | a | e | n
  case registered =>
    obtain ⟨a, ha, hconfig⟩ := h.registered n hstarting
    have hlt := (List.getElem?_eq_some_iff.1 ha).1
    exact ⟨iff_of_true (List.mem_range.2 hlt) rfl, fun _ => ⟨a, ha, hconfig⟩⟩
  all_goals
    exact ⟨iff_of_false List.not_mem_range_self Bool.noConfusion,
      fun hn => absurd hn List.not_mem_range_self⟩

variable {starting : Starting} {accounts : Table String Account} {bytes current : Bytes}
variable {ns failed : List Nat} {early : Bool} {before after : List Definition}

/-- Agents that run leave what is loaded as it is. -/
theorem Sound.transform
    (h : Sound config ⟨d, starting, before ++ .begun owner bytes ns early :: after, accounts⟩) :
    Sound config ⟨(d.transformFor ns owner bytes).1, starting,
      before ++ .transformed owner bytes ns early (d.failing ns owner bytes)
        (d.transformFor ns owner bytes).2 :: after, accounts⟩ := by
  have hprogress := d.progress_transformFor ns owner bytes
  obtain ⟨hchecked, hregistered, hdefining, hloaded⟩ := h
  obtain ⟨hbefore, ⟨hearly, hruns⟩, hafter⟩ := Traffic.forall_mem_append_cons.1 hdefining
  dsimp only at hbefore hearly hruns hafter hloaded
  refine ⟨hchecked, fun n hn => hprogress.agents n config (hregistered n hn), ?_, ?_⟩
  · dsimp only
    rw [hprogress.length]
    exact Traffic.forall_mem_append_cons.2
      ⟨fun p hp => (hbefore p hp).mono (hprogress.agents _ _),
        ⟨hearly, fun hn hbase => Deployment.marked_or_failing hn (hruns hn) hbase⟩,
        fun p hp => (hafter p hp).mono (hprogress.agents _ _)⟩
  · dsimp only
    rw [hprogress.length, hprogress.host]
    exact hloaded

theorem Sound.load
    (h : Sound config
      ⟨d, starting, before ++ .transformed owner bytes ns early failed current :: after, accounts⟩) :
    Sound config ⟨{ d with host := d.host.load owner bytes current }, starting, before ++ after,
      Table.put owner ⟨ns, failed, early && starting.looked⟩ accounts⟩ := by
  obtain ⟨hbefore, ⟨hearly, htreated⟩, hafter⟩ := Traffic.forall_mem_append_cons.1 h.defining
  refine ⟨h.checked, h.registered, List.forall_mem_append.2 ⟨hbefore, hafter⟩,
    fun hpassed o l hbase hl => ?_⟩
  by_cases ho : o = owner
  · subst ho
    obtain rfl := Option.some.inj ((Table.get?_put_self ..).symm.trans hl)
    -- the agent has looked, so the definition overlaps its start if it is early
    have hlooked : starting.looked = true := by
      cases starting <;> first | rfl | cases hpassed
    refine ⟨_, Table.get?_put_self .., ?_, fun hn => htreated hn hbase⟩
    rw [hlooked, Bool.and_true]
    exact hearly
  · obtain ⟨m, hm, hrest⟩ :=
      h.loaded hpassed o l hbase ((Table.get?_put_of_ne ho ..).symm.trans hl)
    exact ⟨m, (Table.get?_put_of_ne ho ..).trans hm, hrest⟩

/-- One step keeps it. -/
theorem Sound.step (h : Sound config s) (hstep : Step config sees s t) : Sound config t := by
  cases hstep with
  | begin => exact h.begin _ _
  | transform => exact h.transform
  | load => exact h.load
  | check passed =>
    obtain ⟨hconfig, hnone⟩ := of_start_eq_ok passed
    refine ⟨fun a ha => ?_, nofun, h.defining, fun _ o l hbase hl => ?_⟩
    · obtain rfl := Starting.checked.inj ha
      exact hconfig
    · rw [hnone o hbase] at hl
      cases hl
  | refuse found => exact ⟨nofun, nofun, h.defining, nofun⟩
  | fail reason => exact ⟨nofun, nofun, h.defining, nofun⟩
  | @register d defining accounts a =>
    refine ⟨nofun, fun n hn => ?_, fun p hp => ?_, h.loaded⟩
    · obtain rfl := Starting.registered.inj hn
      exact ⟨a, List.getElem?_concat_length, h.checked a rfl⟩
    · exact (h.defining p hp).mono fun hagent => hasAgent_append hagent a

theorem sound_of_reachable (h : Reachable config sees d s) : Sound config s := by
  induction h with
  | refl => exact ⟨nofun, nofun, nofun, nofun⟩
  | tail _ hstep ih => exact ih.step hstep

/-- **A started agent has extended every base implementation, unless its definition overlapped the
start**: it began before the agent was registered. Otherwise the agent was among those that ran, and
what is loaded declares the marker or the agent has counted a failure. -/
theorem extended_unless_overlapping {l : LoadedArtifact} (h : Reachable config sees d s)
    (hstarted : s.starting = .registered n) (hbase : config.isBaseImplementation owner = true)
    (hloaded : Table.get? owner s.deployment.host.loaded = some l) :
    ∃ m, Table.get? owner s.accounts = some m ∧ (n ∈ m.agents ↔ m.overlapping = false) ∧
      (n ∈ m.agents → Store.marker ∈ Host.declaredBy l.current ∨ n ∈ m.failed) := by
  obtain ⟨m, hm, hsound⟩ :=
    (sound_of_reachable h).loaded (by rw [hstarted]; rfl) owner l hbase hloaded
  rw [hstarted] at hsound
  exact ⟨m, hm, hsound⟩

/-! ## Calls that nothing comes between -/

/-- A definition of the deployment takes the steps of one. It overlaps no start that is still to come
or over. -/
theorem reaches_define (config : AgentConfig) (sees : Bool) (s : Startup) (owner : String)
    (bytes : Bytes) :
    ∃ t, Relation.ReflTransGen (Step config sees) s t ∧
      t.deployment = (s.deployment.define owner bytes).1 ∧ t.starting = s.starting ∧
        t.defining = s.defining ∧
          Table.get? owner t.accounts = some
            { agents := List.range s.deployment.agents.length
              failed := s.deployment.failing (List.range s.deployment.agents.length) owner bytes
              overlapping := !s.starting.isRegistered && s.starting.looked } := by
  have hbegun : Relation.ReflTransGen (Step config sees) s _ := .single (.begin s owner bytes)
  have hloaded := (hbegun.tail (.transform s.defining [])).tail (.load s.defining [])
  exact ⟨_, hloaded, rfl, rfl, List.append_nil _, Table.get?_put_self ..⟩

/-- And so does a start of an agent. -/
theorem reaches_start (config : AgentConfig) (sees : Bool) (hpending : s.starting = .pending) :
    ∃ t, Relation.ReflTransGen (Step config sees) s t ∧
      t.deployment = (s.deployment.start config sees).1 ∧ t.defining = s.defining ∧
        t.accounts = s.accounts ∧
          match (s.deployment.start config sees).2 with
          | .ok n => t.starting = .registered n
          | .error e => t.starting = .refused e := by
  obtain ⟨d, starting, defining, accounts⟩ := s
  obtain rfl : starting = .pending := hpending
  unfold Deployment.start
  dsimp only
  rcases hstart : Agent.start d.host.loadedOwners config sees with e | a
  · exact ⟨_, .single (.refuse hstart), rfl, rfl, rfl, rfl⟩
  · have hchecked : Relation.ReflTransGen (Step config sees) ⟨d, .pending, defining, accounts⟩ _ :=
      .single (.check hstart)
    exact ⟨_, hchecked.tail .register, rfl, rfl, rfl, rfl⟩

end

/-! ## A definition that overlaps the start -/

namespace Overlapping

/-- Extends `acme/Store` when it is defined. -/
def config : AgentConfig :=
  AgentConfig.default.withBaseImplementation "acme/Store"

def agent : Agent :=
  .fresh config true

def store : Artifact where
  name := "acme/Store"
  supertypes := [Store.storeInterface]
  members := [
    { name := Store.put, desc := Store.putDesc, access := .pub, code := [.load 2, .retValue] },
    { name := Store.set, desc := Store.setDesc, access := .pub, code := [.ret] }]

/-- The store with the capability. -/
def extended : Artifact :=
  match store.extend with
  | .ok extended => extended
  | .error _ => store

/-- The store can be extended. -/
theorem exists_bytes : ∃ bytes bytes', Artifact.decode bytes = .ok store ∧
    Store.marker ∉ Host.declaredBy bytes ∧ extendStore bytes = .ok ⟨bytes', true⟩ := by
  obtain ⟨bytes, bytes', hdecode, -, hextend⟩ := exists_extendStore (a := store) (b := extended)
    (by decide) (by decide +kernel) (by decide +kernel) (by decide +kernel)
  have hunmarked : Store.marker ∉ Host.declaredBy bytes := by
    simp only [Host.declaredBy, hdecode]
    decide
  exact ⟨bytes, bytes', hdecode, hunmarked, hextend⟩

/-- The agent is started on a host. -/
def attached (host : Host) : Deployment :=
  { Deployment.empty with host, agents := [agent] }

/-- The agent is started, and a definition of the store is over. -/
def started (bytes current : Bytes) (account : Account) : Startup where
  deployment := attached (Host.empty.load "acme/Store" bytes current)
  starting := .registered 0
  defining := []
  accounts := [("acme/Store", account)]

variable {bytes bytes' : Bytes}

/-- On an empty host the agent may start. -/
theorem start_empty : Agent.start Deployment.empty.host.loadedOwners config true = .ok agent := by
  decide +kernel

/-- The agent looks and is registered between the steps of a definition. -/
theorem reachable_overlapped (bytes : Bytes) :
    Reachable config true .empty (started bytes bytes ⟨[], [], true⟩) := by
  have hbegun : Reachable config true .empty _ := .single (.begin _ "acme/Store" bytes)
  have hstarted := (hbegun.tail (.check start_empty)).tail .register
  exact (hstarted.tail (.transform [] [])).tail (.load [] [])

/-- **A base implementation can be loaded as it is while the agent is started.** The agent is not
among those that ran, has counted no failure, and could have extended it. -/
theorem not_extended : ∃ bytes bytes', extendStore bytes = .ok ⟨bytes', true⟩ ∧
    ∃ s l m, Reachable config true .empty s ∧ s.starting = .registered 0 ∧
      config.isBaseImplementation "acme/Store" = true ∧
        Table.get? "acme/Store" s.deployment.host.loaded = some l ∧
          Table.get? "acme/Store" s.accounts = some m ∧ 0 ∉ m.agents ∧
            Store.marker ∉ Host.declaredBy l.current ∧ s.deployment.failures 0 = 0 := by
  obtain ⟨bytes, bytes', -, hunmarked, hextend⟩ := exists_bytes
  exact ⟨bytes, bytes', hextend, _, _, _, reachable_overlapped bytes, rfl, by decide, rfl, rfl,
    List.not_mem_nil, hunmarked, rfl⟩

/-- A started agent extends the store and counts no failure. -/
theorem transformFor_attached (hextend : extendStore bytes = .ok ⟨bytes', true⟩) :
    (attached .empty).transformFor [0] "acme/Store" bytes = (attached .empty, bytes') := by
  have hextended : agent.extended? "acme/Store" bytes = .ok (some bytes') := by
    rw [Agent.extended?, if_pos (by decide), hextend]
    rfl
  have htransform : agent.transform [] "acme/Store" bytes = (agent, some bytes') := by
    rw [Agent.transform, Agent.tryTransform, hextended]
    rfl
  show (attached .empty).transformBy 0 "acme/Store" bytes = _
  rw [Deployment.transformBy, show (attached .empty).agent? 0 = some agent from rfl]
  dsimp only
  rw [show (attached .empty).host.supertypeTable = [] from rfl, htransform]
  rfl

/-- Defined when the agent is started, the store is extended. -/
theorem extended_unless_overlapping_serial : ∃ bytes, Artifact.decode bytes = .ok store ∧
    ∃ s l, Reachable config true .empty s ∧ s.starting = .registered 0 ∧
      Table.get? "acme/Store" s.deployment.host.loaded = some l ∧
        Store.marker ∉ Host.declaredBy bytes ∧ Store.marker ∈ Host.declaredBy l.current := by
  obtain ⟨bytes, bytes', hdecode, hunmarked, hextend⟩ := exists_bytes
  have hattached : Deployment.empty.start config true = (attached .empty, .ok 0) := by
    rw [Deployment.start, start_empty]
    rfl
  have htransformed := transformFor_attached hextend
  have hnone : (attached .empty).failing (List.range 1) "acme/Store" bytes = [] := by
    show (attached .empty).failing [0] "acme/Store" bytes = []
    rw [Deployment.failing, htransformed]
    rfl
  have hdefined : ((attached .empty).define "acme/Store" bytes).1 =
      attached (Host.empty.load "acme/Store" bytes bytes') := by
    have hall : (attached .empty).transformByAll "acme/Store" bytes = (attached .empty, bytes') :=
      htransformed
    rw [Deployment.define, hall]
    rfl
  obtain ⟨s, hstart, hdeployment, -, -, hstarted⟩ :=
    reaches_start config true (rfl : (unstarted .empty).starting = .pending)
  rw [show (unstarted .empty).deployment = .empty from rfl, hattached] at hdeployment hstarted
  obtain ⟨t, hdefine, hdeployment', hstarting, -, haccount⟩ :=
    reaches_define config true s "acme/Store" bytes
  rw [hdeployment] at hdeployment' haccount
  have hfound : Table.get? "acme/Store" t.deployment.host.loaded = some ⟨bytes, bytes', 0⟩ := by
    rw [hdeployment', hdefined]
    rfl
  have hreachable : Reachable config true .empty t := hstart.trans hdefine
  obtain ⟨m, hm, -, htreated⟩ :=
    extended_unless_overlapping hreachable (hstarting.trans hstarted) (by decide) hfound
  obtain rfl := Option.some.inj (haccount.symm.trans hm)
  have hmarked := htreated (List.mem_range.2 Nat.one_pos)
  exact ⟨bytes, hdecode, t, _, hreachable, hstarting.trans hstarted, hfound, hunmarked,
    hmarked.resolve_right (hnone ▸ List.not_mem_nil)⟩

end Overlapping

end Startup

end CallPatch
