import CallPatch.Proofs.Deployment.Serial
/-!
# Agents — the order of reports

Owners are defined once each, and then call sites are reported. In which order
and how often, how the coordinator cuts them into rounds, in which order it comes
to the owners of a round and a transformation to the members of an owner: when
all is done every owner runs the same code (`confluent`). It is always one
treatment of the bytes the owner was defined from, so no call site is patched
twice.

Two things are kept step by step: what is reported is either staged or installed
(`Accounted`), and what an owner runs is a treatment with some of the reported
members, the ones its origin names (`Treated`). Treatments do not disturb each
other, because none of them changes what an owner declares.
-/

namespace CallPatch

open Rollout

/-- What is defined on a host, and what is reported to the agent then. -/
structure Plan where
  config : AgentConfig
  seesSupertypes : Bool
  /-- The owners in the order they are defined, each with its bytes. -/
  definitions : List (String × Bytes)
  reported : List EntryKey
  deriving DecidableEq, Repr

namespace Plan

/-- The deployment in which the owners have been defined and nothing is reported yet. -/
def deployment (p : Plan) : Deployment :=
  p.definitions.foldl (fun d (owner, bytes) => (d.define owner bytes).1)
    (Deployment.empty.start p.config p.seesSupertypes).1

/-- The members reported for the owner. -/
def members (p : Plan) (owner : String) : List String :=
  (p.reported.filter fun key => key.owner = owner).map EntryKey.member

/-- What counts as a store, given what the owners declare when they are defined. -/
def scope (p : Plan) : Scope where
  interfaces := p.config.storeInterfaces
  capable :=
    (if p.seesSupertypes then p.deployment.host.supertypeTable else []).reaches Store.marker

/-- The bytes of the owner treated with these members. -/
def treat (p : Plan) (owner : String) (names : List String) (bytes : Bytes) :
    Except PatchError Bytes :=
  p.config.treat p.scope owner names bytes

/-- Every owner is defined once, joined keys tell the reported entries apart, and the treatment of
every owner with all of its reported members succeeds. -/
structure Orderly (p : Plan) : Prop where
  once : (p.definitions.map Prod.fst).Nodup
  joined : ∀ k ∈ p.reported, ∀ k' ∈ p.reported, k.joined = k'.joined → k = k'
  succeeds : ∀ owner bytes, (owner, bytes) ∈ p.definitions →
    ∃ treated, p.treat owner (p.members owner) bytes = .ok treated

variable {p : Plan} {a : Agent} {s t : Rollout} {e : Rollout.Event} {owner member : String}
variable {bytes : Bytes}

theorem mem_members : member ∈ p.members owner ↔ ⟨owner, member⟩ ∈ p.reported := by
  simp only [members, List.mem_map, List.mem_filter, decide_eq_true_eq]
  constructor
  · rintro ⟨⟨owner, member⟩, ⟨hmem, rfl⟩, rfl⟩
    exact hmem
  · intro hmem
    exact ⟨_, ⟨hmem, rfl⟩, rfl⟩

/-! ## What is reported -/

/-- What was reported so far is staged or installed, and nothing else is. -/
structure Accounted (p : Plan) (done : List EntryKey) (a : Agent) : Prop where
  staging : a.staging.AtRest
  installed : a.installed.AtRest
  waiting : ∀ k, k ∈ a.staging.pending ∨ k ∈ a.installed.pending → k ∈ p.reported
  kept : ∀ k ∈ done, k ∈ a.staging.pending ∨ k ∈ a.installed.pending

variable {done : List EntryKey}

theorem Accounted.annotates {a' : Agent} (h : p.Accounted done a) (hnoted : a.Annotates a') :
    p.Accounted done a' := by
  obtain ⟨timeline, pipeline, rfl⟩ := hnoted
  exact ⟨h.staging, h.installed.annotate timeline, h.waiting, h.kept⟩

/-- What is reported is staged, unless it was staged before. -/
theorem Accounted.report (hp : p.Orderly) (h : p.Accounted done a) (site : CallSite)
    (hreported : site.entries ⊆ p.reported) :
    p.Accounted (done ++ site.entries) (a.report site).1 := by
  have hatRest := atRest_staging_report h.staging site
  rw [report_eq]
  rcases staging_report a site with ⟨hnone, hsame⟩ | ⟨hone, hstaged, -⟩
  · rw [hnone, List.append_nil, hsame]
    exact h
  · rw [hone] at hreported ⊢
    have hkey : site.key ∈ p.reported := hreported List.mem_cons_self
    have hpending (k : EntryKey) : k ∈ (a.report site).1.staging.pending ↔
        k ∈ a.staging.pending ∨ site.key.joined ∉ a.staging.existence ∧ k = site.key := by
      rw [hstaged, EntryIndex.mem_pending_report]
    refine ⟨hatRest, h.installed, fun k hk => ?_, fun k hk => ?_⟩
    · rw [hpending] at hk
      rcases hk with (hk | ⟨-, rfl⟩) | hk
      · exact h.waiting k (.inl hk)
      · exact hkey
      · exact h.waiting k (.inr hk)
    · rw [hpending]
      rcases List.mem_append.1 hk with hk | hk
      · exact (h.kept k hk).imp_left .inl
      · obtain rfl := List.mem_singleton.1 hk
        by_cases hexists : site.key.joined ∈ a.staging.existence
        · -- the joined key belongs to an entry that is staged, which can only be this one
          obtain ⟨k', hk', hjoined⟩ := h.staging.exists_pending hexists
          obtain rfl : k' = site.key := hp.joined _ (h.waiting k' (.inl hk')) _ hkey hjoined
          exact .inl (.inl hk')
        · exact .inl (.inr ⟨hexists, rfl⟩)

/-- What is taken on is installed, unless it was installed before. -/
theorem Accounted.handOver (hp : p.Orderly) (h : p.Accounted done a)
    (hdone : done ⊆ p.reported) : p.Accounted done a.handOver.1 := by
  have hmoved := moved_handOver h.staging h.installed
  have hinstalled (k : EntryKey) : k ∈ a.handOver.1.installed.pending ↔
      k ∈ a.installed.pending ∨ k ∈ a.handOver.2.pending := hmoved.mem_pending k
  have hnone : a.handOver.1.staging.pending = [] := hmoved.source_pending
  have hwaiting (k : EntryKey) (hk : k ∈ a.handOver.1.installed.pending) : k ∈ p.reported := by
    rcases (hinstalled k).1 hk with hk | hk
    · exact h.waiting k (.inr hk)
    · exact h.waiting k (.inl (hmoved.taken k hk))
  refine ⟨hmoved.source_atRest, hmoved.target_atRest, fun k hk => ?_, fun k hk => .inr ?_⟩
  · rw [hnone] at hk
    exact hwaiting k (hk.resolve_left List.not_mem_nil)
  · rcases h.kept k hk with hstaged | hkept
    · have hjoined : k.joined ∈ a.handOver.1.installed.existence := hmoved.arrived k hstaged
      obtain ⟨k', hk', heq⟩ := hmoved.target_atRest.exists_pending hjoined
      obtain rfl : k' = k := hp.joined _ (hwaiting k' hk') _ (hdone hk) heq
      exact hk'
    · exact (hinstalled k).2 (.inl hkept)

/-! ## What is run -/

theorem treat_of_subset (hp : p.Orderly) (hmem : (owner, bytes) ∈ p.definitions)
    {names : List String} (h : names ⊆ p.members owner) :
    ∃ treated, p.treat owner names bytes = .ok treated := by
  obtain ⟨treated, htreated⟩ := hp.succeeds owner bytes hmem
  exact AgentConfig.treat_of_subset h htreated

/-- Whichever members are patched, the same types are declared. -/
theorem declaredBy_treat {names names' : List String} {treated treated' : Bytes}
    (h : p.treat owner names bytes = .ok treated) (h' : p.treat owner names' bytes = .ok treated') :
    Host.declaredBy treated = Host.declaredBy treated' := by
  obtain ⟨extended, hextended, -⟩ := AgentConfig.treat_eq_ok_iff.1 h
  rw [AgentConfig.declaredBy_of_treat hextended h, AgentConfig.declaredBy_of_treat hextended h']

/-- Bytes that declare the same are no matter to the others. -/
theorem supertypeTable_replace {host : Host} {l : LoadedArtifact} {current : Bytes}
    (hl : Table.get? owner host.loaded = some l)
    (hdeclared : Host.declaredBy current = Host.declaredBy l.current) :
    (host.replace owner current).supertypeTable = host.supertypeTable := by
  have hsame : Table.get? owner host.supertypeTable = some (Host.declaredBy current) := by
    rw [hdeclared, Host.supertypeTable,
      Table.get?_map (fun l : LoadedArtifact => Host.declaredBy l.current), hl]
    rfl
  rw [Host.replace, hl]
  exact (Table.map_put (fun l : LoadedArtifact => Host.declaredBy l.current) ..).trans
    (Table.put_eq_self hsame)

/-- Every owner runs one treatment of its bytes, with the members that its origin names. -/
structure Treated (p : Plan) (s : Rollout) : Prop where
  owners : s.host.loaded.map Prod.fst = p.definitions.map Prod.fst
  supertypes : s.host.supertypeTable = p.deployment.host.supertypeTable
  runs : ∀ owner bytes, (owner, bytes) ∈ p.definitions → ∃ l names,
    Table.get? owner s.host.loaded = some l ∧ l.defined = bytes ∧
      Table.get? owner s.origins = some ⟨some names, false⟩ ∧ names ⊆ p.members owner ∧
        p.treat owner names bytes = .ok l.current

/-- An orderly plan that is being carried out. -/
structure Underway (p : Plan) (done : List EntryKey) (s : Rollout) : Prop where
  tracked : Tracked p.config s
  accounted : p.Accounted done s.agent
  treated : p.Treated s
  sees : s.agent.seesSupertypes = p.seesSupertypes
  defining : s.defining = []

variable {host : Host} {agent : Agent} {origins : Table String Origin} {names : List String}

theorem Treated.congr {t : Rollout} (h : p.Treated s) (hhost : t.host = s.host)
    (horigins : t.origins = s.origins) : p.Treated t := by
  obtain ⟨howners, hsupertypes, hruns⟩ := h
  rw [← hhost] at howners hsupertypes hruns
  rw [← horigins] at hruns
  exact ⟨howners, hsupertypes, hruns⟩

/-- A retransformation replaces a treatment by another one. -/
theorem Treated.request (hp : p.Orderly) (h : p.Treated s) (hconfig : s.agent.config = p.config)
    (hsees : s.agent.seesSupertypes = p.seesSupertypes)
    (hdefined : s.host.definitionOf owner = .ok bytes) (hnames : names ⊆ p.members owner)
    {t : Rollout}
    (hhost : t.host =
      s.host.replace owner (s.agent.outcome s.host.supertypeTable owner names bytes))
    (horigins : t.origins =
      Table.put owner ⟨s.agent.reading owner names bytes, false⟩ s.origins) : p.Treated t := by
  obtain ⟨l, hl, rfl⟩ := exists_of_definitionOf hdefined
  -- the owner is one of those that were defined, and its bytes are the ones it was defined from
  have hmem : (owner, l.defined) ∈ p.definitions := by
    have howner : owner ∈ p.definitions.map Prod.fst := by
      rw [← h.owners, ← Table.isSome_get?_iff, hl]
      rfl
    obtain ⟨⟨owner, bytes⟩, hmem, rfl⟩ := List.mem_map.1 howner
    obtain ⟨l', -, hl', rfl, -⟩ := h.runs owner bytes hmem
    obtain rfl : l' = l := Option.some.inj (hl'.symm.trans hl)
    exact hmem
  obtain ⟨l', before, hl', -, -, -, hbefore⟩ := h.runs owner l.defined hmem
  obtain rfl : l' = l := Option.some.inj (hl'.symm.trans hl)
  obtain ⟨treated, htreated⟩ := treat_of_subset hp hmem hnames
  have hscope : s.agent.scope s.host.supertypeTable = p.scope := by
    rw [Agent.scope, hconfig, hsees, h.supertypes]
    rfl
  have houtcome : s.agent.outcome s.host.supertypeTable owner names l'.defined = treated := by
    rw [Agent.outcome, hconfig, hscope, show p.config.treat p.scope owner names l'.defined = _ from
      htreated]
  have hreading : s.agent.reading owner names l'.defined = some names := by
    obtain ⟨extended, hextended, -⟩ := AgentConfig.treat_eq_ok_iff.1 htreated
    rw [Agent.reading, hconfig, hextended]
  rw [houtcome] at hhost
  rw [hreading] at horigins
  refine ⟨?_, ?_, fun owner' bytes hmem' => ?_⟩
  · rw [hhost, owners_replace, h.owners]
  · rw [hhost, supertypeTable_replace hl (declaredBy_treat htreated hbefore), h.supertypes]
  · by_cases howner : owner' = owner
    · subst howner
      obtain rfl : l'.defined = bytes := Option.some.inj
        ((Table.get?_of_mem hp.once hmem).symm.trans (Table.get?_of_mem hp.once hmem'))
      refine ⟨{ l' with current := treated, retransforms := l'.retransforms + 1 }, names, ?_, rfl,
        ?_, hnames, htreated⟩
      · rw [hhost, get?_replace_self hl]
      · rw [horigins, Table.get?_put_self]
    · obtain ⟨l, names', hl, hdefined, horigin, hrest⟩ := h.runs owner' bytes hmem'
      refine ⟨l, names', ?_, hdefined, ?_, hrest⟩
      · rw [hhost, get?_replace_of_ne howner, hl]
      · rw [horigins, Table.get?_put_of_ne howner, horigin]

/-- One step carries the plan on. -/
theorem Underway.step (hp : p.Orderly) (h : p.Underway done s) (hstep : Step s e t)
    (hbegan : ∀ owner, e ≠ .began owner) (hdone : done ⊆ p.reported)
    (hreports : e.reports ⊆ p.reported) : p.Underway (done ++ e.reports) t := by
  have htracked := h.tracked.step hstep
  have hconfig := h.tracked.configured
  obtain ⟨-, haccounted, htreated, hsees, hdefining⟩ := h
  cases hstep with
  | begin s owner bytes listed noted => exact absurd rfl (hbegan owner)
  | load before after d => simp at hdefining
  | report s site =>
    refine ⟨htracked, haccounted.report hp site hreports, htreated.congr rfl rfl, ?_, hdefining⟩
    rw [report_eq]
    exact hsees
  | takeOn host agent defining origins =>
    obtain rfl : defining = [] := hdefining
    rw [show done ++ Rollout.Event.reports .tookOn = done from List.append_nil _]
    exact ⟨htracked, haccounted.handOver hp hdone, htreated.congr rfl rfl, hsees, rfl⟩
  | look listed =>
    obtain rfl : _ = [] := hdefining
    rw [show done ++ Rollout.Event.reports .looked = done from List.append_nil _]
    exact ⟨htracked, haccounted, htreated.congr rfl rfl, hsees, rfl⟩
  | @request host agent a' defining owner due names bytes origins hdefined listed noted =>
    obtain rfl : defining = [] := hdefining
    rw [show done ++ Rollout.Event.reports (.retransformed owner) = done from List.append_nil _]
    have hnames : names ⊆ p.members owner := fun member hmember => by
      have hlisted := haccounted.installed.mem_membersOf.1 (listed.mem_iff.1 hmember)
      exact mem_members.2 (haccounted.waiting _ (.inr hlisted))
    refine ⟨htracked, haccounted.annotates noted, ?_, ?_, rfl⟩
    · exact htreated.request hp hconfig hsees hdefined hnames rfl rfl
    · obtain ⟨timeline, pipeline, rfl⟩ := noted
      exact hsees
  | finish host agent defining origins =>
    obtain rfl : defining = [] := hdefining
    rw [show done ++ Rollout.Event.reports .finished = done from List.append_nil _]
    exact ⟨htracked, haccounted, htreated.congr rfl rfl, hsees, rfl⟩

/-- The owners are loaded as they are extended, and the agent is as it was started. -/
theorem deployment_spec (hp : p.Orderly) :
    ∃ a, p.deployment.Alone a ∧ (Agent.fresh p.config p.seesSupertypes).Annotates a ∧
      p.deployment.host = { Host.empty with
        loaded := p.definitions.map fun (owner, bytes) =>
          (owner, ⟨bytes, Deployment.based p.config owner bytes, 0⟩) } := by
  have hempty : (Deployment.empty.start p.config p.seesSupertypes).1.host = .empty :=
    Deployment.host_start ..
  have hstarted := Deployment.alone_start p.config p.seesSupertypes
  obtain ⟨d, a, hd, halone, hfresh, hhost⟩ := hstarted.defineAll (.refl _) (by
    rw [hempty]
    exact hp.once)
  obtain rfl : p.deployment = d := hd
  rw [hempty] at hhost
  exact ⟨a, halone, hfresh, hhost⟩

/-- The plan is underway when the owners have been defined. -/
theorem underway_start (hp : p.Orderly) (ha : p.deployment.agents = [a]) :
    p.Underway [] (start p.deployment.host a) := by
  obtain ⟨a', halone, ⟨timeline, pipeline, rfl⟩, hhost⟩ := deployment_spec hp
  obtain rfl : a = _ := by simpa [ha] using halone.agents
  have howners : p.deployment.host.loaded.map Prod.fst = p.definitions.map Prod.fst := by
    rw [hhost, List.map_map]
    rfl
  have hatRest := (EntryIndex.atRest_empty .patches).annotate timeline
  refine ⟨tracked_start rfl (EntryIndex.atRest_empty _) hatRest rfl,
    ⟨EntryIndex.atRest_empty _, hatRest, ?_, nofun⟩,
    ⟨howners, rfl, fun owner bytes hmem => ?_⟩, rfl, rfl⟩
  · rintro k (hk | hk) <;> cases hk
  · obtain ⟨treated, htreated⟩ := treat_of_subset hp hmem (List.nil_subset _)
    have hbased : Deployment.based p.config owner bytes = treated := by
      rw [treat, AgentConfig.treat_nil] at htreated
      rw [Deployment.based, htreated]
    have hfound : Table.get? owner p.deployment.host.loaded = some ⟨bytes, treated, 0⟩ := by
      refine Table.get?_of_mem (howners ▸ hp.once) ?_
      rw [hhost, ← hbased]
      exact List.mem_map.2 ⟨_, hmem, rfl⟩
    refine ⟨_, [], hfound, rfl, ?_, List.nil_subset _, htreated⟩
    rw [get?_origins_start, hfound]
    rfl

theorem settled_start (hp : p.Orderly) (ha : p.deployment.agents = [a]) :
    p.deployment.Settled (start p.deployment.host a) := by
  obtain ⟨a', halone, ⟨timeline, pipeline, rfl⟩, hhost⟩ := deployment_spec hp
  obtain rfl : a = _ := by simpa [ha] using halone.agents
  exact ⟨halone, rfl, ⟨rfl, rfl, rfl⟩, EntryIndex.atRest_empty _,
    (EntryIndex.atRest_empty .patches).annotate timeline, by rw [hhost]; rfl⟩

/-- The run of a plan, up to some point. -/
theorem underway_of_runs (hp : p.Orderly) (ha : p.deployment.agents = [a])
    {trace : List Rollout.Event} (hrun : Runs Step (start p.deployment.host a) trace s)
    (hbegan : ∀ owner, .began owner ∉ trace)
    (hreports : trace.flatMap Rollout.Event.reports ⊆ p.reported) :
    p.Underway (trace.flatMap Rollout.Event.reports) s := by
  induction hrun with
  | refl => exact underway_start hp ha
  | @snoc t u trace e hrun hstep ih =>
    rw [List.flatMap_append, List.append_subset] at hreports
    have hbefore := ih (fun owner hmem => hbegan owner (List.mem_append_left _ hmem)) hreports.1
    have hlast : [e].flatMap Rollout.Event.reports = e.reports := List.append_nil _
    rw [List.flatMap_append, hlast]
    rw [hlast] at hreports
    refine hbefore.step hp hstep (fun owner heq => ?_) hreports.1 hreports.2
    exact hbegan owner (List.mem_append_right _ (heq ▸ List.mem_cons_self))

/-- A run in which owners are neither defined nor other entries reported than the plan has. -/
structure Schedule (p : Plan) (a : Agent) (trace : List Rollout.Event) (s : Rollout) : Prop where
  run : Runs Step (start p.deployment.host a) trace s
  began : ∀ owner, .began owner ∉ trace
  reports : trace.flatMap Rollout.Event.reports ⊆ p.reported

/-- Every reported entry was reported, and nothing is under way or staged any more. -/
structure Complete (p : Plan) (trace : List Rollout.Event) (s : Rollout) : Prop where
  finished : s.Finished
  reports : p.reported ⊆ trace.flatMap Rollout.Event.reports

/-- When all is done, an owner's origin names every reported member. -/
theorem Underway.members_subset {trace : List Rollout.Event}
    (h : p.Underway (trace.flatMap Rollout.Event.reports) s) (hcomplete : p.Complete trace s)
    {names : List String} (horigin : Table.get? owner s.origins = some ⟨some names, false⟩) :
    p.members owner ⊆ names := by
  intro member hmember
  have hreported := hcomplete.reports (mem_members.1 hmember)
  -- nothing is staged any more, so the member is installed, and the owner is owed nothing
  have hinstalled := (h.accounted.kept _ hreported).resolve_left (by
    rw [h.accounted.staging.pending_of_isEmpty hcomplete.finished.staging]
    exact List.not_mem_nil)
  have hread := h.tracked.loaded owner _ names horigin rfl rfl
  rw [hcomplete.finished.round] at hread
  exact hread.resolve_left id (h.accounted.installed.mem_membersOf.2 hinstalled)

end Plan

/-- **The final code does not depend on the order of reports.** Every owner ends with its bytes
treated with all its reported members, whatever the schedule. On the way there it always runs one
treatment of the bytes it was defined from. Calls to a deployment one after another come to the same
as any other schedule. -/
theorem confluent {p : Plan} (hp : p.Orderly) :
    ∃ a, p.deployment.agents = [a] ∧ ∀ owner bytes, (owner, bytes) ∈ p.definitions →
      ∃ final, p.treat owner (p.members owner) bytes = .ok final ∧
        (∀ trace s, p.Schedule a trace s →
          (∃ names current, names ⊆ p.members owner ∧ p.treat owner names bytes = .ok current ∧
            s.host.currentBytes? owner = some current) ∧
          (p.Complete trace s → s.host.currentBytes? owner = some final)) ∧
        ∀ sites : List CallSite, (∀ k, k ∈ sites.flatMap CallSite.entries ↔ k ∈ p.reported) →
          (sites.foldl (fun d site => (d.report 0 site).1) p.deployment).host.currentBytes? owner =
            some final := by
  obtain ⟨a, halone, -, -⟩ := Plan.deployment_spec hp
  refine ⟨a, halone.agents, fun owner bytes hmem => ?_⟩
  obtain ⟨final, hfinal⟩ := hp.succeeds owner bytes hmem
  have hschedule (trace : List Rollout.Event) (s : Rollout) (h : p.Schedule a trace s) :
      (∃ names current, names ⊆ p.members owner ∧ p.treat owner names bytes = .ok current ∧
          s.host.currentBytes? owner = some current) ∧
        (p.Complete trace s → s.host.currentBytes? owner = some final) := by
    have hunderway := Plan.underway_of_runs hp halone.agents h.run h.began h.reports
    obtain ⟨l, names, hl, rfl, horigin, hnames, htreated⟩ :=
      hunderway.treated.runs owner bytes hmem
    have hcurrent : s.host.currentBytes? owner = some l.current := by
      rw [Host.currentBytes?, hl]
      rfl
    refine ⟨⟨names, l.current, hnames, htreated, hcurrent⟩, fun hcomplete => ?_⟩
    have hall := hunderway.members_subset hcomplete horigin
    have hsame : p.treat owner names = p.treat owner (p.members owner) :=
      AgentConfig.treat_congr fun member => ⟨fun h => hnames h, fun h => hall h⟩
    rw [hsame, hfinal] at htreated
    rw [hcurrent, Except.ok.inj htreated]
  refine ⟨final, hfinal, hschedule, fun sites hsites => ?_⟩
  obtain ⟨trace, s, hrun, hsettled, hreports, hbegan⟩ :=
    (Plan.settled_start hp halone.agents).runs_reports sites
  rw [← hsettled.host]
  refine (hschedule trace s ⟨hrun, hbegan, ?_⟩).2 ⟨hsettled.finished, ?_⟩
  · rw [hreports]
    exact fun k hk => (hsites k).1 hk
  · rw [hreports]
    exact fun k hk => (hsites k).2 hk

/-! ## A store that puts into another one -/

namespace Mirrored

/-- Extends `acme/Store` when it is defined. -/
def config : AgentConfig :=
  AgentConfig.default.withBaseImplementation "acme/Store"

/-- A store whose member `copy` puts into the store it is given. -/
def store : Artifact where
  name := "acme/Store"
  supertypes := [Store.storeInterface]
  members := [
    { name := Store.put, desc := Store.putDesc, access := .pub, code := [.load 2, .retValue] },
    { name := Store.set, desc := Store.setDesc, access := .pub, code := [.ret] },
    { name := "copy"
      desc := "(store,key,value)->void"
      access := .pub
      code := [.load 1, .load 2, .load 3,
        .invoke .interface Store.storeInterface Store.put Store.putDesc, .pop, .ret] }]

/-- The store with the capability. -/
def extended : Artifact :=
  match store.extend with
  | .ok extended => extended
  | .error _ => store

/-- Calls on a store go through its interface. -/
def scope : Scope where
  interfaces := config.storeInterfaces
  capable _ := false

/-- The store with the capability, and the call in `copy` patched. -/
def patched : Artifact :=
  match extended.patch scope ["copy"] with
  | .ok (patched, _) => patched
  | .error _ => extended

/-- The store is defined, and the call in `copy` reported. -/
def plan (bytes : Bytes) : Plan where
  config := config
  seesSupertypes := true
  definitions := [("acme/Store", bytes)]
  reported := [{ owner := "acme/Store", member := "copy" }]

/-- A call of `put` in `copy`. -/
def site : CallSite :=
  .ofCaller { owner := "acme/Store", member := "copy", native := false }

/-- Treating the store succeeds, with one call patched. -/
theorem exists_treated : ∃ bytes final, Artifact.decode bytes = .ok store ∧
    Artifact.decode final = .ok patched ∧
      ∀ scope : Scope, scope.interfaces = config.storeInterfaces →
        config.treat scope "acme/Store" ["copy"] bytes = .ok final := by
  have hlength : store.document.length ≤ Frame.defaultMax := by decide +kernel
  have hlength' : extended.document.length ≤ Frame.defaultMax := by decide +kernel
  have hlength'' : patched.document.length ≤ Frame.defaultMax := by decide +kernel
  obtain ⟨bytes, hencode⟩ := Artifact.encode_of_length_le_default hlength
  obtain ⟨bytes', hencode'⟩ := Artifact.encode_of_length_le_default hlength'
  obtain ⟨final, hencode''⟩ := Artifact.encode_of_length_le_default hlength''
  have hdecode : Artifact.decode bytes = .ok store := Artifact.decode_encode hencode
  have hdecode' : Artifact.decode bytes' = .ok extended := Artifact.decode_encode hencode'
  have hextend : extendStore bytes = .ok ⟨bytes', true⟩ := extendStore_eq_ok_iff.2
    ⟨store, hdecode, .inr ⟨by decide, extended, by decide +kernel, bytes', hencode', rfl⟩⟩
  have hbase : config.extendBase "acme/Store" bytes = .ok bytes' := by
    rw [AgentConfig.extendBase, if_pos (by decide), hextend]
    rfl
  refine ⟨bytes, final, hdecode, Artifact.decode_encode hencode'', ?_⟩
  rintro ⟨interfaces, capable⟩ rfl
  have hpatch : extended.patch ⟨config.storeInterfaces, capable⟩ ["copy"] = .ok (patched, 1) := rfl
  refine AgentConfig.treat_eq_ok_iff.2 ⟨bytes', hbase, .inr ⟨by decide, ⟨final, 1⟩, ?_, rfl⟩⟩
  exact patchCallSites_eq_ok_iff.2 ⟨extended, hdecode', patched, 1, hpatch,
    .inr ⟨by decide, final, hencode'', rfl⟩⟩

/-- Reported twice, the store ends extended once and patched once. -/
theorem confluent_store : ∃ bytes final, (plan bytes).Orderly ∧
    Artifact.decode bytes = .ok store ∧ Artifact.decode final = .ok patched ∧
      ([site, site].foldl (fun d site => (d.report 0 site).1)
        (plan bytes).deployment).host.currentBytes? "acme/Store" = some final := by
  obtain ⟨bytes, final, hdecode, hpatched, htreat⟩ := exists_treated
  have hmembers : (plan bytes).members "acme/Store" = ["copy"] := rfl
  have htreated : (plan bytes).treat "acme/Store" ((plan bytes).members "acme/Store") bytes =
      .ok final := by
    rw [hmembers]
    exact htreat _ rfl
  have horderly : (plan bytes).Orderly := by
    refine ⟨by simp [plan], fun k hk k' hk' _ => ?_, fun owner b hmem => ?_⟩
    · rw [List.mem_singleton.1 hk, List.mem_singleton.1 hk']
    · obtain ⟨rfl, rfl⟩ := Prod.mk.inj (List.mem_singleton.1 hmem)
      exact ⟨final, htreated⟩
  obtain ⟨a, -, hconfluent⟩ := confluent horderly
  obtain ⟨final', hfinal', -, hsites⟩ := hconfluent _ _ (List.mem_singleton.2 rfl)
  obtain rfl : final = final' := Except.ok.inj (htreated.symm.trans hfinal')
  refine ⟨bytes, final, horderly, hdecode, hpatched, hsites [site, site] fun k => ?_⟩
  show k ∈ [site.key, site.key] ↔ k ∈ [site.key]
  simp

end Mirrored

end CallPatch
