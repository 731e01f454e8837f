import CallPatch.Proofs.Agent.Rollout
import CallPatch.Proofs.Deployment.Requests
/-!
# Deployments — one call after another

A deployment runs one call at a time: a definition is over, and so is the round
that a report causes, before the next call. That is one of the ways in which
rollouts go (`runs_define`, `runs_report`).
-/

namespace CallPatch

namespace Deployment

open Rollout

variable {d : Deployment} {a : Agent}

/-- The deployment has that agent and no other, and its host never breaks down. -/
structure Alone (d : Deployment) (a : Agent) : Prop where
  agents : d.agents = [a]
  breakdowns : d.breakdowns = []

theorem Alone.setAgent (h : d.Alone a) (a' : Agent) : (d.setAgent 0 a').Alone a' where
  agents := by simp [Deployment.setAgent, h.agents]
  breakdowns := h.breakdowns

theorem Alone.agent? (h : d.Alone a) : d.agent? 0 = some a := by
  rw [Deployment.agent?, h.agents]
  rfl

/-- Transforming for the one agent changes the agent and the disk. -/
theorem Alone.transformBy (h : d.Alone a) (owner : String) (bytes : Bytes) :
    (d.transformBy 0 owner bytes).1.Alone (a.transform d.host.supertypeTable owner bytes).1 ∧
      (d.transformBy 0 owner bytes).1.host = d.host ∧
      (d.transformBy 0 owner bytes).2 =
        a.outcome d.host.supertypeTable owner (a.listed owner) bytes := by
  obtain ⟨disk, htransform⟩ := transformBy_eq h.agent? owner bytes
  have halone := h.setAgent (a.transform d.host.supertypeTable owner bytes).1
  rw [htransform, ← a.getD_transform]
  exact ⟨⟨halone.agents, halone.breakdowns⟩, rfl, rfl⟩

/-- A definition loads what the one agent makes of the bytes. -/
theorem Alone.define (h : d.Alone a) (owner : String) (bytes : Bytes) :
    (d.define owner bytes).1.Alone (a.transform d.host.supertypeTable owner bytes).1 ∧
      (d.define owner bytes).1.host = d.host.load owner bytes
        (a.outcome d.host.supertypeTable owner (a.listed owner) bytes) := by
  have hall : d.transformByAll owner bytes = d.transformBy 0 owner bytes := by
    rw [transformByAll, h.agents]
    rfl
  obtain ⟨halone, hhost, hcurrent⟩ := h.transformBy owner bytes
  unfold Deployment.define
  rw [hall]
  exact ⟨⟨halone.agents, halone.breakdowns⟩, by dsimp only; rw [hhost, hcurrent]⟩

/-! ## Definitions before any report -/

theorem host_start (d : Deployment) (config : AgentConfig) (sees : Bool) :
    (d.start config sees).1.host = d.host := by
  unfold Deployment.start
  split <;> rfl

/-- On an empty host an agent is started. -/
theorem alone_start (config : AgentConfig) (sees : Bool) :
    (empty.start config sees).1.Alone (.fresh config sees) := by
  have hstart : Agent.start empty.host.loadedOwners config sees = .ok (.fresh config sees) := by
    have hnone : config.baseImplementations.find? empty.host.loadedOwners.contains = none := by
      refine List.find?_eq_none.2 fun owner _ => ?_
      simp [empty, Host.empty, Host.loadedOwners, Text.sort]
    rw [Agent.start, hnone]
    rfl
  rw [Deployment.start, hstart]
  exact ⟨rfl, rfl⟩

/-- What an agent without members makes of the bytes. -/
def based (config : AgentConfig) (owner : String) (bytes : Bytes) : Bytes :=
  match config.extendBase owner bytes with
  | .ok extended => extended
  | .error _ => bytes

/-- Owners that are defined before any report are loaded as they are extended. -/
theorem Alone.defineAll {config : AgentConfig} {sees : Bool} {definitions : List (String × Bytes)}
    (h : d.Alone a) (hfresh : (Agent.fresh config sees).Annotates a)
    (hnodup : (d.host.loaded.map Prod.fst ++ definitions.map Prod.fst).Nodup) :
    ∃ d' a', definitions.foldl (fun d (owner, bytes) => (d.define owner bytes).1) d = d' ∧
      d'.Alone a' ∧ (Agent.fresh config sees).Annotates a' ∧
        d'.host = { d.host with
          loaded := d.host.loaded ++ definitions.map fun (owner, bytes) =>
            (owner, ⟨bytes, based config owner bytes, 0⟩) } := by
  induction definitions generalizing d a with
  | nil => exact ⟨d, a, rfl, h, hfresh, by simp⟩
  | cons entry definitions ih =>
    obtain ⟨owner, bytes⟩ := entry
    obtain ⟨halone, hhost⟩ := h.define owner bytes
    have hlisted : a.listed owner = [] := listed_of_annotates hfresh owner
    have houtcome : a.outcome d.host.supertypeTable owner (a.listed owner) bytes =
        based config owner bytes := by
      obtain ⟨timeline, pipeline, rfl⟩ := hfresh
      rw [hlisted, Agent.outcome, AgentConfig.treat_nil]
      rfl
    have hnew : owner ∉ d.host.loaded.map Prod.fst := fun hmem =>
      (List.nodup_append.1 hnodup).2.2 _ hmem _ List.mem_cons_self rfl
    have hloaded : (d.define owner bytes).1.host = { d.host with
        loaded := d.host.loaded ++ [(owner, ⟨bytes, based config owner bytes, 0⟩)] } := by
      rw [hhost, houtcome, Host.load, Table.put_of_notMem hnew]
    have hrest := ih halone (hfresh.trans (a.annotates_transform ..)) (by
      rw [hloaded, List.map_append, List.append_assoc]
      exact hnodup)
    obtain ⟨d', a', hd', halone', hfresh', hhost'⟩ := hrest
    refine ⟨d', a', hd', halone', hfresh', ?_⟩
    rw [hhost', hloaded]
    simp only [List.append_assoc, List.map_cons, List.cons_append, List.nil_append]

/-! ## Reports -/

/-- Between two calls: the rollout has the host and the one agent of the deployment, and nothing is
under way or staged. -/
structure Settled (d : Deployment) (s : Rollout) : Prop where
  alone : d.Alone s.agent
  host : s.host = d.host
  finished : s.Finished
  staging : s.agent.staging.AtRest
  installed : s.agent.installed.AtRest
  accepting : d.host.refusals = []

variable {s : Rollout} {due : List String} {owner : String}

theorem exists_definitionOf {host : Host} (hrefusals : host.refusals = [])
    (hloaded : (Table.get? owner host.loaded).isSome = true) :
    ∃ bytes, host.definitionOf owner = .ok bytes := by
  obtain ⟨l, hl⟩ := Option.isSome_iff_exists.1 hloaded
  exact ⟨l.defined, by rw [Host.definitionOf, hrefusals, hl]; rfl⟩

theorem refusals_replace (host : Host) (owner : String) (current : Bytes) :
    (host.replace owner current).refusals = host.refusals := by
  unfold Host.replace
  split <;> rfl

/-- **A definition of a deployment is a run.** -/
theorem Settled.runs_define (h : d.Settled s) (owner : String) (bytes : Bytes) :
    ∃ t, Runs Step s [.began owner, .loaded owner] t ∧ (d.define owner bytes).1.Settled t ∧
      ∃ l, Table.get? owner t.host.loaded = some l ∧ l.defined = bytes := by
  obtain ⟨halone, hhost, ⟨hdefining, hround, hempty⟩, hstaging, hinstalled, hrefusals⟩ := h
  obtain ⟨host, a, defining, round, origins⟩ := s
  dsimp only at halone hhost hdefining hround hempty hstaging hinstalled
  subst hhost hdefining hround
  obtain ⟨halone', hhost'⟩ := halone.define owner bytes
  have hnoted := a.annotates_transform d.host.supertypeTable owner bytes
  have hrun : Runs Step ⟨d.host, a, [], .resting, origins⟩ [.began owner, .loaded owner] _ :=
    .cons (.begin _ owner bytes (.refl _) hnoted) (.single (.load [] [] _))
  refine ⟨_, hrun, ⟨halone', hhost'.symm, ⟨rfl, rfl, ?_⟩, ?_, ?_, ?_⟩,
    _, Table.get?_put_self .., rfl⟩
  all_goals obtain ⟨timeline, pipeline, hsame⟩ := hnoted
  · rw [hsame]
    exact hempty
  · rw [hsame]
    exact hstaging
  · rw [hsame]
    exact hinstalled.annotate timeline
  · rw [hhost']
    exact hrefusals

/-- A request is a retransformation for the one agent. -/
theorem Alone.request (h : d.Alone a) {bytes : Bytes}
    (hdefined : d.host.definitionOf owner = .ok bytes) :
    ∃ a', a.Annotates a' ∧ (Deployment.request 0 d owner).Alone a' ∧
      (Deployment.request 0 d owner).host = d.host.replace owner
        (a.outcome d.host.supertypeTable owner (a.listed owner) bytes) := by
  have hbroken : (0, owner) ∉ d.breakdowns := by
    rw [h.breakdowns]
    exact List.not_mem_nil
  obtain ⟨halone, -, -⟩ := h.transformBy owner bytes
  refine ⟨_, a.annotates_transform d.host.supertypeTable owner bytes, ?_,
    host_request h.agent? hbroken hdefined⟩
  rw [request_of_ok hbroken hdefined]
  exact ⟨halone.agents, halone.breakdowns⟩

/-- Requests one after another are steps of the coordinator. -/
theorem Alone.runs_requests (h : d.Alone a) (hrefusals : d.host.refusals = [])
    (origins : Table String Origin)
    (hdue : ∀ owner ∈ due, (Table.get? owner d.host.loaded).isSome = true) :
    ∃ a' origins', a.Annotates a' ∧ (due.foldl (Deployment.request 0) d).Alone a' ∧
      (due.foldl (Deployment.request 0) d).host.refusals = [] ∧
        Runs Step ⟨d.host, a, [], .requesting due, origins⟩ (due.map .retransformed)
          ⟨(due.foldl (Deployment.request 0) d).host, a', [], .requesting [], origins'⟩ := by
  induction due generalizing d a origins with
  | nil => exact ⟨a, origins, .refl a, h, hrefusals, .refl _⟩
  | cons owner due ih =>
    obtain ⟨bytes, hdefined⟩ := exists_definitionOf hrefusals (hdue owner List.mem_cons_self)
    obtain ⟨a', hnoted, halone, hhost⟩ := h.request hdefined
    have hrefusals' : (Deployment.request 0 d owner).host.refusals = [] := by
      rw [hhost, refusals_replace, hrefusals]
    have hdue' (o : String) (ho : o ∈ due) :
        (Table.get? o (Deployment.request 0 d owner).host.loaded).isSome = true := by
      rw [Table.isSome_get?_iff, hhost, owners_replace, ← Table.isSome_get?_iff]
      exact hdue o (List.mem_cons_of_mem _ ho)
    have hstep : Step ⟨d.host, a, [], .requesting (owner :: due), origins⟩ (.retransformed owner)
        ⟨(Deployment.request 0 d owner).host, a', [], .requesting due,
          Table.put owner ⟨a.reading owner (a.listed owner) bytes, false⟩ origins⟩ := by
      rw [hhost]
      exact .request hdefined (.refl _) hnoted
    obtain ⟨a'', origins', hnoted', halone', hrefusals'', hrun⟩ := ih halone hrefusals' _ hdue'
    exact ⟨a'', origins', hnoted.trans hnoted', halone', hrefusals'', .cons hstep hrun⟩

/-- A report that does not wake the coordinator stages nothing. -/
theorem isEmpty_of_not_fresh {site : CallSite} (hatRest : a.staging.AtRest)
    (hempty : a.staging.isEmpty = true) (h : (a.report site).2 ≠ .ok true) :
    (a.report site).1.staging.isEmpty = true := by
  rcases staging_report a site with ⟨-, hsame⟩ | ⟨-, -, hresult⟩
  · rwa [hsame]
  · have hnew : site.key.joined ∉ a.staging.existence := by
      rw [List.isEmpty_iff.1 hempty]
      exact List.not_mem_nil
    rw [hresult, (hatRest.report_of_notMem hnew).2.2] at h
    exact absurd rfl h

/-- The steps that report nothing and define nothing. -/
def Inward (e : Rollout.Event) : Prop :=
  e.reports = [] ∧ ∀ owner, e ≠ .began owner

/-- A round of the coordinator leads from the report that wakes it to its end. -/
theorem Alone.runs_coordinate (h : d.Alone a) (hrefusals : d.host.refusals = [])
    (origins : Table String Origin)
    (hstaging : a.staging.AtRest) (hinstalled : a.installed.AtRest) :
    ∃ trace t, Runs Step ⟨d.host, a, [], .resting, origins⟩ trace t ∧
      (d.coordinate 0).Settled t ∧ ∀ e ∈ trace, Inward e := by
  unfold Deployment.coordinate
  rw [h.agent?]
  dsimp only
  split
  · next hempty =>
    exact ⟨[], _, .refl _, ⟨h, rfl, ⟨rfl, rfl, hempty⟩, hstaging, hinstalled, hrefusals⟩, nofun⟩
  · have hmoved := moved_handOver hstaging hinstalled
    have htakeOn : d.takeOn 0 = (d.setAgent 0 a.handOver.1, a.handOver.2) := by
      rw [takeOn, h.agent?]
    have hdue : ∀ owner ∈ d.affected a.handOver.2,
        (Table.get? owner d.host.loaded).isSome = true := fun owner howner =>
      contains_loadedOwners.1 (List.mem_filter.1 howner).2
    obtain ⟨a', origins', ⟨timeline, pipeline, rfl⟩, halone, hrefusals', hrun⟩ :=
      (h.setAgent a.handOver.1).runs_requests hrefusals origins hdue
    have hround : Runs Step ⟨d.host, a, [], .resting, origins⟩
        (.tookOn :: .looked :: ((d.affected a.handOver.2).map .retransformed ++ [.finished])) _ :=
      .cons (.takeOn ..) (.cons (.look (.refl _)) (.snoc hrun (.finish ..)))
    rw [htakeOn]
    refine ⟨_, _, hround, ⟨halone, rfl, ⟨rfl, rfl, ?_⟩, hmoved.source_atRest,
      hmoved.target_atRest.annotate timeline, hrefusals'⟩, fun e he => ?_⟩
    · exact hmoved.source_atRest.isEmpty_of_pending hmoved.source_pending
    · simp only [List.mem_cons, List.mem_append, List.mem_map, List.not_mem_nil, or_false] at he
      rcases he with rfl | rfl | ⟨owner, -, rfl⟩ | rfl <;> exact ⟨rfl, nofun⟩

/-- A first report is taken on, and whoever is due is retransformed. -/
theorem Alone.report_of_fresh (h : d.Alone a) {site : CallSite}
    (hfresh : (a.report site).2 = .ok true)
    (hstaged : (a.report site).1.staging.isEmpty = false) :
    (d.report 0 site).1 =
      ((d.setAgent 0 (a.report site).1.handOver.1).affected (a.report site).1.handOver.2).foldl
        (Deployment.request 0) (d.setAgent 0 (a.report site).1.handOver.1) := by
  have hstage : d.stage 0 site = (d.setAgent 0 (a.report site).1, (a.report site).2) := by
    rw [stage, h.agent?]
  have hagent := (h.setAgent (a.report site).1).agent?
  have htakeOn : (d.setAgent 0 (a.report site).1).takeOn 0 =
      (d.setAgent 0 (a.report site).1.handOver.1, (a.report site).1.handOver.2) := by
    rw [takeOn, hagent]
    simp only [Deployment.setAgent, List.set_set]
  rw [Deployment.report, hstage, hfresh]
  show (d.setAgent 0 (a.report site).1).coordinate 0 = _
  rw [coordinate, hagent]
  dsimp only
  rw [hstaged, htakeOn]
  rfl

/-- **A report to a deployment is a run.** -/
theorem Settled.runs_report (h : d.Settled s) (site : CallSite) :
    ∃ trace t, Runs Step s (.reported site :: trace) t ∧ (d.report 0 site).1.Settled t ∧
      ∀ e ∈ trace, Inward e := by
  obtain ⟨halone, hhost, ⟨hdefining, hround, hempty⟩, hstaging, hinstalled, hrefusals⟩ := h
  obtain ⟨host, a, defining, round, origins⟩ := s
  dsimp only at halone hhost hdefining hround hempty hstaging hinstalled
  subst hhost hdefining hround
  have hstage : d.stage 0 site = (d.setAgent 0 (a.report site).1, (a.report site).2) := by
    rw [stage, halone.agent?]
  have hreported := halone.setAgent (a.report site).1
  have hatRest := atRest_staging_report hstaging site
  have hinstalled' : (a.report site).1.installed.AtRest := by
    rw [report_eq]
    exact hinstalled
  have hstep : Step ⟨d.host, a, [], .resting, origins⟩ (.reported site)
      ⟨d.host, (a.report site).1, [], .resting, origins⟩ := .report _ site
  by_cases hfresh : (a.report site).2 = .ok true
  · have hreport : (d.report 0 site).1 = (d.setAgent 0 (a.report site).1).coordinate 0 := by
      rw [Deployment.report, hstage, hfresh]
    obtain ⟨trace, t, hrun, hsettled, hinward⟩ :=
      hreported.runs_coordinate hrefusals origins hatRest hinstalled'
    rw [hreport]
    exact ⟨trace, t, .cons hstep hrun, hsettled, hinward⟩
  · have hreport : (d.report 0 site).1 = d.setAgent 0 (a.report site).1 := by
      rw [Deployment.report, hstage]
      split
      · next heq => exact absurd (Prod.mk.inj heq).2 hfresh
      · next heq => exact (Prod.mk.inj heq).1.symm
    rw [hreport]
    have hempty' := isEmpty_of_not_fresh hstaging hempty hfresh
    exact ⟨[], _, .single hstep,
      ⟨hreported, rfl, ⟨rfl, rfl, hempty'⟩, hatRest, hinstalled', hrefusals⟩, nofun⟩

/-- And so are reports one after another. -/
theorem Settled.runs_reports (h : d.Settled s) (sites : List CallSite) :
    ∃ trace t, Runs Step s trace t ∧ (sites.foldl (fun d site => (d.report 0 site).1) d).Settled t ∧
      trace.flatMap Rollout.Event.reports = sites.flatMap CallSite.entries ∧
        ∀ owner, .began owner ∉ trace := by
  induction sites generalizing d s with
  | nil => exact ⟨[], s, .refl s, h, rfl, nofun⟩
  | cons site sites ih =>
    obtain ⟨trace, t, hrun, hsettled, hinward⟩ := h.runs_report site
    obtain ⟨trace', t', hrun', hsettled', hreports, hbegan⟩ := ih hsettled
    have hnone : trace.flatMap Rollout.Event.reports = [] :=
      List.flatMap_eq_nil_iff.2 fun e he => (hinward e he).1
    refine ⟨_, t', hrun.trans hrun', hsettled', ?_, fun owner hmem => ?_⟩
    · rw [List.flatMap_append, List.flatMap_cons, List.flatMap_cons, hnone, hreports,
        List.append_nil]
      rfl
    · rcases List.mem_append.1 hmem with hmem | hmem
      · rcases List.mem_cons.1 hmem with heq | hmem
        · cases heq
        · exact (hinward _ hmem).2 owner rfl
      · exact hbegan owner hmem

end Deployment

end CallPatch
