import CallPatch.Deployment.Coordinator
import CallPatch.Proofs.Agent.Treatment
import CallPatch.Proofs.Index.Content
import CallPatch.Proofs.Index.Threads
/-!
# Agents — rollout to a host

A host with one agent as the threads around it step. To define an owner is two
steps: its bytes are transformed, and what came out is loaded. A round of the
coordinator takes on everything staged, looks which owners of the difference are
loaded, and has these retransformed one after another. Between any two steps
others may come: definitions, reports, the coordinator. The members of an owner
may be listed in any order, and so may the owners of a round.

With every loaded owner goes how its bytes came about, its *origin*. What a step
keeps is `Tracked`: an origin is either up to date with what is installed for the
owner, or the coordinator still owes the owner a retransformation, or the bytes
were loaded too late for the coordinator to see them.
-/

namespace CallPatch

/-- The entry that a report of the call site stages. A site with a defect and a native caller are
turned down. -/
def CallSite.entries (site : CallSite) : List EntryKey :=
  if site.defect?.isNone && !site.caller.native then [site.key] else []

/-- The agent when it has been started. -/
def Agent.fresh (config : AgentConfig) (seesSupertypes : Bool) : Agent where
  config := config
  seesSupertypes := seesSupertypes
  staging := .staging
  installed := .installed
  pipeline := .zero

/-- How the bytes that an owner runs came about. -/
structure Origin where
  /-- The members that their transformation read, unless it failed before it looked. -/
  reading : Option (List String)
  /-- Whether the coordinator had been to the host with newer members when they were loaded. -/
  overtaken : Bool
  deriving DecidableEq, Repr

/-- How far the coordinator has come with an owner since the transformation for a definition. -/
inductive Standing where
  /-- It has taken on no new member of the owner. -/
  | abreast
  /-- It has taken on new members of the owner, and not been to the host with them yet. -/
  | behind
  /-- It has been to the host with them. -/
  | overtaken
  deriving DecidableEq, Repr

/-- An owner that is being defined: its bytes are transformed, and not loaded yet. -/
structure Definition where
  owner : String
  defined : Bytes
  current : Bytes
  reading : Option (List String)
  standing : Standing
  deriving DecidableEq, Repr

namespace Definition

/-- The origin of its bytes once they are loaded. -/
def origin (d : Definition) : Origin where
  reading := d.reading
  overtaken := d.standing = .overtaken

/-- The coordinator takes on new members of these owners. -/
def outrun (owners : List String) (d : Definition) : Definition :=
  if d.owner ∈ owners ∧ d.standing = .abreast then { d with standing := .behind } else d

/-- The coordinator has been to the host with the new members of these owners. -/
def passed (owners : String → Bool) (d : Definition) : Definition :=
  if owners d.owner ∧ d.standing = .behind then { d with standing := .overtaken } else d

end Definition

/-- Where the coordinator is in its round. -/
inductive Round where
  | resting
  /-- It has taken on what was staged, and not looked at the host yet. -/
  | looking (difference : EntryIndex)
  /-- It has these owners retransformed. -/
  | requesting (due : List String)
  deriving DecidableEq, Repr

namespace Round

/-- The coordinator comes to the owner in this round, if the owner is loaded when it looks. -/
def Owes : Round → String → Prop
  | .resting, _ => False
  | .looking difference, owner => owner ∈ difference.ownerNames?.getD []
  | .requesting due, owner => owner ∈ due

end Round

/-- A host and its agent, with what is under way. -/
structure Rollout where
  host : Host
  agent : Agent
  defining : List Definition
  round : Round
  /-- How the bytes of each loaded owner came about. -/
  origins : Table String Origin
  deriving DecidableEq, Repr

namespace Rollout

/-- What a bystander notes of a step. -/
inductive Event where
  | began (owner : String)
  | loaded (owner : String)
  | reported (site : CallSite)
  | tookOn
  | looked
  | retransformed (owner : String)
  | finished
  deriving DecidableEq, Repr

/-- The entries that a step reports. -/
def Event.reports : Event → List EntryKey
  | .reported site => site.entries
  | _ => []

/-- The loaded owners that the difference has entries for. -/
def affected (host : Host) (difference : EntryIndex) : List String :=
  (difference.ownerNames?.getD []).filter host.loadedOwners.contains

/-- One step of a definition, a report or the coordinator. A request that the host refuses is no
step. -/
inductive Step : Rollout → Event → Rollout → Prop where
  | begin (s : Rollout) {a' : Agent} {names : List String} (owner : String) (bytes : Bytes)
      (listed : names.Perm (s.agent.listed owner)) (noted : s.agent.Annotates a') :
      Step s (.began owner)
        { s with
          agent := a'
          defining := s.defining ++
            [{ owner
               defined := bytes
               current := s.agent.outcome s.host.supertypeTable owner names bytes
               reading := s.agent.reading owner names bytes
               standing := .abreast }] }
  | load {host : Host} {agent : Agent} {round : Round} {origins : Table String Origin}
      (before after : List Definition) (d : Definition) :
      Step ⟨host, agent, before ++ d :: after, round, origins⟩ (.loaded d.owner)
        ⟨host.load d.owner d.defined d.current, agent, before ++ after, round,
          Table.put d.owner d.origin origins⟩
  | report (s : Rollout) (site : CallSite) :
      Step s (.reported site) { s with agent := (s.agent.report site).1 }
  | takeOn (host : Host) (agent : Agent) (defining : List Definition)
      (origins : Table String Origin) :
      Step ⟨host, agent, defining, .resting, origins⟩ .tookOn
        ⟨host, agent.handOver.1,
          defining.map (Definition.outrun (agent.handOver.2.ownerNames?.getD [])),
          .looking agent.handOver.2, origins⟩
  | look {host : Host} {agent : Agent} {defining : List Definition} {difference : EntryIndex}
      {origins : Table String Origin} {due : List String}
      (listed : due.Perm (affected host difference)) :
      Step ⟨host, agent, defining, .looking difference, origins⟩ .looked
        ⟨host, agent,
          defining.map (Definition.passed fun owner => (Table.get? owner host.loaded).isNone),
          .requesting due, origins⟩
  | request {host : Host} {agent a' : Agent} {defining : List Definition} {owner : String}
      {due names : List String} {bytes : Bytes} {origins : Table String Origin}
      (defined : host.definitionOf owner = .ok bytes) (listed : names.Perm (agent.listed owner))
      (noted : agent.Annotates a') :
      Step ⟨host, agent, defining, .requesting (owner :: due), origins⟩ (.retransformed owner)
        ⟨host.replace owner (agent.outcome host.supertypeTable owner names bytes), a',
          defining.map (Definition.passed fun o => o = owner), .requesting due,
          Table.put owner ⟨agent.reading owner names bytes, false⟩ origins⟩
  | finish (host : Host) (agent : Agent) (defining : List Definition)
      (origins : Table String Origin) :
      Step ⟨host, agent, defining, .requesting [], origins⟩ .finished
        ⟨host, agent, defining, .resting, origins⟩

/-- Nothing is under way. What is loaded was not transformed with any member. -/
def start (host : Host) (agent : Agent) : Rollout where
  host := host
  agent := agent
  defining := []
  round := .resting
  origins := host.loaded.map fun (owner, _) => (owner, ⟨some [], false⟩)

/-- No definition and no round is under way, and nothing is staged. -/
structure Finished (s : Rollout) : Prop where
  defining : s.defining = []
  round : s.round = .resting
  staging : s.agent.staging.isEmpty = true

/-! ## What an agent does in a step -/

variable {a a' : Agent} {owner : String} {names : List String} {bytes : Bytes}

theorem eq_fresh_of_start {loaded : List String} {config : AgentConfig} {sees : Bool}
    (h : Agent.start loaded config sees = .ok a) : a = .fresh config sees := by
  unfold Agent.start at h
  split at h
  · cases h
  · exact (Except.ok.inj h).symm

theorem listed_of_annotates (h : a.Annotates a') (owner : String) :
    a'.listed owner = a.listed owner := by
  obtain ⟨timeline, pipeline, rfl⟩ := h
  rfl

/-- A report changes what is staged, and nothing else. -/
theorem report_eq (a : Agent) (site : CallSite) :
    (a.report site).1 = { a with staging := (a.report site).1.staging } := by
  unfold Agent.report
  split
  · rfl
  · split <;> rfl

/-- A call site is turned down, or reported to the staging index. -/
theorem staging_report (a : Agent) (site : CallSite) :
    site.entries = [] ∧ (a.report site).1.staging = a.staging ∨
      site.entries = [site.key] ∧
        (a.report site).1.staging = (a.staging.report site.key).1 ∧
          (a.report site).2 = .ok (a.staging.report site.key).2 := by
  unfold Agent.report CallSite.entries
  rcases hdefect : site.defect? with - | defect
  · rcases hnative : site.caller.native with - | -
    · exact .inr ⟨rfl, rfl, rfl⟩
    · exact .inl ⟨rfl, rfl⟩
  · exact .inl ⟨rfl, rfl⟩

theorem atRest_staging_report (h : a.staging.AtRest) (site : CallSite) :
    (a.report site).1.staging.AtRest := by
  rcases staging_report a site with ⟨-, hsame⟩ | ⟨-, hstaged, -⟩
  · rwa [hsame]
  · rw [hstaged]
    exact h.report site.key

/-- The coordinator's transfer. -/
theorem moved_handOver (hs : a.staging.AtRest) (hi : a.installed.AtRest) :
    EntryIndex.Moved a.staging a.installed
      ⟨a.handOver.1.staging, a.handOver.1.installed, a.handOver.2⟩ :=
  hs.transfer hi

/-! ## What a step keeps -/

variable {config : AgentConfig} {s t : Rollout} {e : Event}

/-- The transformation failed before it looked at the members, and changed nothing. -/
def Failed (config : AgentConfig) (owner : String) (defined current : Bytes) : Prop :=
  (∃ e, config.extendBase owner defined = .error e) ∧ current = defined

theorem failed_of_reading (a : Agent) (supertypes : Supertypes)
    (h : a.reading owner names bytes = none) :
    Failed a.config owner bytes (a.outcome supertypes owner names bytes) := by
  unfold Agent.reading at h
  split at h
  · cases h
  · next e he =>
    refine ⟨⟨e, he⟩, ?_⟩
    rw [Agent.outcome, AgentConfig.treat_of_error he]

theorem eq_of_reading {names' : List String} (h : a.reading owner names bytes = some names') :
    names' = names := by
  unfold Agent.reading at h
  split at h
  · exact (Option.some.inj h).symm
  · cases h

/-- How a definition under way stands to what is installed. -/
structure Definition.Tracked (s : Rollout) (d : Definition) : Prop where
  abreast : ∀ names, d.reading = some names → d.standing = .abreast →
    s.agent.listed d.owner ⊆ names
  behind : d.standing = .behind → s.round.Owes d.owner
  failed : d.reading = none → Failed s.agent.config d.owner d.defined d.current

/-- What every loaded owner runs is up to date or will be, unless it was loaded too late. -/
structure Tracked (config : AgentConfig) (s : Rollout) : Prop where
  configured : s.agent.config = config
  staging : s.agent.staging.AtRest
  installed : s.agent.installed.AtRest
  owners : s.origins.map Prod.fst = s.host.loaded.map Prod.fst
  loaded : ∀ owner origin names, Table.get? owner s.origins = some origin →
    origin.reading = some names → origin.overtaken = false →
      s.round.Owes owner ∨ s.agent.listed owner ⊆ names
  failed : ∀ owner origin, Table.get? owner s.origins = some origin → origin.reading = none →
    ∃ l, Table.get? owner s.host.loaded = some l ∧ Failed config owner l.defined l.current
  defining : ∀ d ∈ s.defining, Definition.Tracked s d

variable {host : Host} {agent : Agent} {defining before after : List Definition} {round : Round}
variable {origins : Table String Origin} {d : Definition} {difference : EntryIndex}
variable {due : List String}

theorem contains_loadedOwners :
    host.loadedOwners.contains owner = true ↔ (Table.get? owner host.loaded).isSome = true := by
  rw [List.contains_iff_mem, Table.isSome_get?_iff]
  exact List.mem_mergeSort

theorem exists_of_definitionOf (h : host.definitionOf owner = .ok bytes) :
    ∃ l, Table.get? owner host.loaded = some l ∧ l.defined = bytes := by
  unfold Host.definitionOf at h
  split at h
  · cases h
  · split at h
    · cases h
    · next l hl => exact ⟨l, hl, Except.ok.inj h⟩

theorem get?_replace_self {l : LoadedArtifact} {current : Bytes}
    (h : Table.get? owner host.loaded = some l) :
    Table.get? owner (host.replace owner current).loaded =
      some { l with current, retransforms := l.retransforms + 1 } := by
  simp only [Host.replace, h, Table.get?_put_self]

theorem get?_replace_of_ne {owner' : String} (h : owner' ≠ owner) (host : Host) (current : Bytes) :
    Table.get? owner' (host.replace owner current).loaded = Table.get? owner' host.loaded := by
  unfold Host.replace
  split
  · rfl
  · exact Table.get?_put_of_ne h ..

/-- A retransformation loads and unloads nothing. -/
theorem owners_replace (host : Host) (owner : String) (current : Bytes) :
    (host.replace owner current).loaded.map Prod.fst = host.loaded.map Prod.fst := by
  unfold Host.replace
  split
  · rfl
  · next l hl =>
    have hmem : owner ∈ host.loaded.map Prod.fst := by rw [← Table.isSome_get?_iff, hl]; rfl
    rw [Table.map_fst_put, if_pos hmem]

/-- A definition begins abreast: what it reads is what is installed now. -/
theorem Tracked.begin (h : Tracked config s) (bytes : Bytes)
    (listed : names.Perm (s.agent.listed owner)) (noted : s.agent.Annotates a') :
    Tracked config { s with
      agent := a'
      defining := s.defining ++
        [{ owner
           defined := bytes
           current := s.agent.outcome s.host.supertypeTable owner names bytes
           reading := s.agent.reading owner names bytes
           standing := .abreast }] } := by
  obtain ⟨timeline, pipeline, rfl⟩ := noted
  refine ⟨h.configured, h.staging, h.installed.annotate timeline, h.owners, h.loaded, h.failed,
    fun d hd => ?_⟩
  rcases List.mem_append.1 hd with hd | hd
  · obtain ⟨habreast, hbehind, hfailed⟩ := h.defining d hd
    exact ⟨habreast, hbehind, hfailed⟩
  · obtain rfl := List.mem_singleton.1 hd
    refine ⟨fun names' hreading _ => ?_, nofun, failed_of_reading _ _⟩
    rw [eq_of_reading hreading]
    exact listed.symm.subset

/-- Bytes that are loaded are up to date, owed a retransformation, or too late. -/
theorem Tracked.load (h : Tracked config ⟨host, agent, before ++ d :: after, round, origins⟩) :
    Tracked config ⟨host.load d.owner d.defined d.current, agent, before ++ after, round,
      Table.put d.owner d.origin origins⟩ := by
  obtain ⟨habreast, hbehind, hfailed⟩ := h.defining d (by simp)
  refine ⟨h.configured, h.staging, h.installed, ?_,
    fun owner origin names horigin hreading hover => ?_,
    fun owner origin horigin hreading => ?_, fun d' hd' => ?_⟩
  · have howners : origins.map Prod.fst = host.loaded.map Prod.fst := h.owners
    simp only [Host.load, Table.map_fst_put, howners]
  · by_cases howner : owner = d.owner
    · subst howner
      rw [Table.get?_put_self] at horigin
      obtain rfl := Option.some.inj horigin
      rcases hstanding : d.standing
      · exact .inr (habreast names hreading hstanding)
      · exact .inl (hbehind hstanding)
      · simp [Definition.origin, hstanding] at hover
    · rw [Table.get?_put_of_ne howner] at horigin
      exact h.loaded owner origin names horigin hreading hover
  · by_cases howner : owner = d.owner
    · subst howner
      rw [Table.get?_put_self] at horigin
      obtain rfl := Option.some.inj horigin
      exact ⟨_, Table.get?_put_self .., h.configured ▸ hfailed hreading⟩
    · rw [Table.get?_put_of_ne howner] at horigin
      obtain ⟨l, hl, hlfailed⟩ := h.failed owner origin horigin hreading
      exact ⟨l, (Table.get?_put_of_ne howner ..).trans hl, hlfailed⟩
  · have hmem : d' ∈ before ++ d :: after := by
      rcases List.mem_append.1 hd' with hd' | hd'
      · exact List.mem_append_left _ hd'
      · exact List.mem_append_right _ (List.mem_cons_of_mem _ hd')
    obtain ⟨habreast', hbehind', hfailed'⟩ := h.defining d' hmem
    exact ⟨habreast', hbehind', hfailed'⟩

theorem Tracked.report (h : Tracked config s) (site : CallSite) :
    Tracked config { s with agent := (s.agent.report site).1 } := by
  have hstaging := atRest_staging_report h.staging site
  rw [report_eq]
  refine ⟨h.configured, hstaging, h.installed, h.owners, h.loaded, h.failed, fun d hd => ?_⟩
  obtain ⟨habreast, hbehind, hfailed⟩ := h.defining d hd
  exact ⟨habreast, hbehind, hfailed⟩

/-- Whoever gets a new member is owed a retransformation from here on. -/
theorem Tracked.takeOn (h : Tracked config ⟨host, agent, defining, .resting, origins⟩) :
    Tracked config ⟨host, agent.handOver.1,
      defining.map (Definition.outrun (agent.handOver.2.ownerNames?.getD [])),
      .looking agent.handOver.2, origins⟩ := by
  have hmoved := moved_handOver h.staging h.installed
  -- an owner that is not one of the difference keeps its members
  have hsame {owner : String} {names : List String}
      (howner : owner ∉ agent.handOver.2.ownerNames?.getD [])
      (hnames : agent.listed owner ⊆ names) : agent.handOver.1.listed owner ⊆ names := fun m hm =>
    hnames ((hmoved.members_unchanged h.installed howner).1 hm)
  refine ⟨h.configured, hmoved.source_atRest, hmoved.target_atRest, h.owners,
    fun owner origin names horigin hreading hover => ?_, h.failed, fun d' hd' => ?_⟩
  · by_cases howner : owner ∈ agent.handOver.2.ownerNames?.getD []
    · exact .inl howner
    · have hread := h.loaded owner origin names horigin hreading hover
      exact .inr (hsame howner (hread.resolve_left id))
  · obtain ⟨d, hd, rfl⟩ := List.mem_map.1 hd'
    obtain ⟨habreast, hbehind, hfailed⟩ := h.defining d hd
    unfold Definition.outrun
    split
    · next hout => exact ⟨nofun, fun _ => hout.1, hfailed⟩
    · next hkept =>
      refine ⟨fun names hreading hstanding => ?_, fun hstanding => (hbehind hstanding).elim,
        hfailed⟩
      exact hsame (fun howner => hkept ⟨howner, hstanding⟩) (habreast names hreading hstanding)

/-- Whoever is owed a retransformation and is loaded is one of the owners to request. -/
theorem Tracked.look (h : Tracked config ⟨host, agent, defining, .looking difference, origins⟩)
    (listed : due.Perm (affected host difference)) :
    Tracked config ⟨host, agent,
      defining.map (Definition.passed fun owner => (Table.get? owner host.loaded).isNone),
      .requesting due, origins⟩ := by
  have hdue {owner : String} (howner : owner ∈ difference.ownerNames?.getD [])
      (hloaded : (Table.get? owner host.loaded).isSome = true) : owner ∈ due :=
    listed.mem_iff.2 (List.mem_filter.2 ⟨howner, contains_loadedOwners.2 hloaded⟩)
  refine ⟨h.configured, h.staging, h.installed, h.owners,
    fun owner origin names horigin hreading hover => ?_, h.failed, fun d' hd' => ?_⟩
  · refine (h.loaded owner origin names horigin hreading hover).imp_left fun howes => hdue howes ?_
    have howners : origins.map Prod.fst = host.loaded.map Prod.fst := h.owners
    rw [Table.isSome_get?_iff, ← howners, ← Table.isSome_get?_iff, horigin]
    rfl
  · obtain ⟨d, hd, rfl⟩ := List.mem_map.1 hd'
    obtain ⟨habreast, hbehind, hfailed⟩ := h.defining d hd
    unfold Definition.passed
    split
    · -- whoever is not loaded has been passed by: neither abreast nor behind
      refine ⟨fun _ _ hstanding => ?_, fun hstanding => ?_, hfailed⟩
      · cases hstanding
      · cases hstanding
    · next hkept =>
      refine ⟨habreast, fun hstanding => hdue (hbehind hstanding) ?_, hfailed⟩
      rcases hnone : Table.get? d.owner host.loaded with - | l
      · exact absurd ⟨Option.isNone_iff_eq_none.2 hnone, hstanding⟩ hkept
      · rfl

/-- An owner that is retransformed is up to date. -/
theorem Tracked.request
    (h : Tracked config ⟨host, agent, defining, .requesting (owner :: due), origins⟩)
    (defined : host.definitionOf owner = .ok bytes) (listed : names.Perm (agent.listed owner))
    (noted : agent.Annotates a') :
    Tracked config ⟨host.replace owner (agent.outcome host.supertypeTable owner names bytes), a',
      defining.map (Definition.passed fun o => o = owner), .requesting due,
      Table.put owner ⟨agent.reading owner names bytes, false⟩ origins⟩ := by
  obtain ⟨timeline, pipeline, rfl⟩ := noted
  obtain ⟨l, hl, rfl⟩ := exists_of_definitionOf defined
  refine ⟨h.configured, h.staging, h.installed.annotate timeline, ?_,
    fun owner' origin names' horigin hreading hover => ?_,
    fun owner' origin horigin hreading => ?_, fun d' hd' => ?_⟩
  · have howners : origins.map Prod.fst = host.loaded.map Prod.fst := h.owners
    have hmem : owner ∈ host.loaded.map Prod.fst := by rw [← Table.isSome_get?_iff, hl]; rfl
    simp only [owners_replace, Table.map_fst_put, howners, if_pos hmem]
  · by_cases howner : owner' = owner
    · subst howner
      rw [Table.get?_put_self] at horigin
      obtain rfl := Option.some.inj horigin
      rw [eq_of_reading hreading]
      exact .inr listed.symm.subset
    · rw [Table.get?_put_of_ne howner] at horigin
      refine (h.loaded owner' origin names' horigin hreading hover).imp_left fun howes => ?_
      exact (List.mem_cons.1 howes).resolve_left howner
  · by_cases howner : owner' = owner
    · subst howner
      rw [Table.get?_put_self] at horigin
      obtain rfl := Option.some.inj horigin
      have hfailed := failed_of_reading agent host.supertypeTable hreading
      rw [show agent.config = config from h.configured] at hfailed
      exact ⟨_, get?_replace_self hl, hfailed⟩
    · rw [Table.get?_put_of_ne howner] at horigin
      obtain ⟨l', hl', hfailed⟩ := h.failed owner' origin horigin hreading
      exact ⟨l', (get?_replace_of_ne howner ..).trans hl', hfailed⟩
  · obtain ⟨d, hd, rfl⟩ := List.mem_map.1 hd'
    obtain ⟨habreast, hbehind, hfailed⟩ := h.defining d hd
    unfold Definition.passed
    split
    · exact ⟨nofun, nofun, hfailed⟩
    · next hkept =>
      refine ⟨habreast, fun hstanding => ?_, hfailed⟩
      refine (List.mem_cons.1 (hbehind hstanding)).resolve_left fun howner => hkept ?_
      exact ⟨by simpa using howner, hstanding⟩

/-- When a round is over nobody is owed anything. -/
theorem Tracked.finish (h : Tracked config ⟨host, agent, defining, .requesting [], origins⟩) :
    Tracked config ⟨host, agent, defining, .resting, origins⟩ := by
  refine ⟨h.configured, h.staging, h.installed, h.owners,
    fun owner origin names horigin hreading hover => ?_, h.failed, fun d hd => ?_⟩
  · refine (h.loaded owner origin names horigin hreading hover).imp_left fun howes => ?_
    exact absurd howes List.not_mem_nil
  · obtain ⟨habreast, hbehind, hfailed⟩ := h.defining d hd
    exact ⟨habreast, fun hstanding => absurd (hbehind hstanding) List.not_mem_nil, hfailed⟩

/-- One step keeps track. -/
theorem Tracked.step (hstep : Step s e t) (h : Tracked config s) : Tracked config t := by
  cases hstep with
  | begin s owner bytes listed noted => exact h.begin bytes listed noted
  | load before after d => exact h.load
  | report s site => exact h.report site
  | takeOn host agent defining origins => exact h.takeOn
  | look listed => exact h.look listed
  | request defined listed noted => exact h.request defined listed noted
  | finish host agent defining origins => exact h.finish

/-- The origin of a loaded owner before anything was done. -/
theorem get?_origins_start (host : Host) (agent : Agent) (owner : String) :
    Table.get? owner (start host agent).origins =
      (Table.get? owner host.loaded).map fun _ => ⟨some [], false⟩ :=
  Table.get?_map (fun _ : LoadedArtifact => (⟨some [], false⟩ : Origin)) owner host.loaded

/-- An agent with nothing installed is up to date with every owner. -/
theorem tracked_start (hconfig : agent.config = config) (hstaging : agent.staging.AtRest)
    (hinstalled : agent.installed.AtRest) (hnone : agent.installed.pending = []) :
    Tracked config (start host agent) where
  configured := hconfig
  staging := hstaging
  installed := hinstalled
  owners := by simp [start]
  loaded owner origin names horigin hreading _ := by
    refine .inr fun member hmember => ?_
    have hpending := hinstalled.mem_membersOf.1 hmember
    rw [hnone] at hpending
    cases hpending
  failed owner origin horigin hreading := by
    rw [get?_origins_start] at horigin
    obtain ⟨-, -, rfl⟩ := Option.map_eq_some_iff.1 horigin
    cases hreading
  defining := nofun

end Rollout

end CallPatch
