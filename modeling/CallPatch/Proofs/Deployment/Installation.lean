import CallPatch.Deployment.Slot
import CallPatch.Proofs.Agent.Rollout
import CallPatch.Proofs.Deployment.Requests
/-!
# Slots — installing once

One slot and any number of hosts, on which agents are installed into the slot,
call sites are reported to it, and everything else happens that hosts do. The
slot is filled by the first installation that succeeds, and never again
(`at_most_one_agent`). An installation into an empty slot fails just when a base
implementation is loaded on its host (`Installed`), and whenever one fails, all
stays as it was: every host with its agents, and the slot.

Reports go nowhere as long as the slot is empty. Afterwards they are reports to
the agent in the slot (`Reported`).
-/

namespace CallPatch

namespace Deployment

variable {d : Deployment} {n : Nat}

/-! ## Agents stay -/

/-- A request changes an agent and adds none. -/
theorem length_agents_request (n : Nat) (d : Deployment) (owner : String) :
    (request n d owner).agents.length = d.agents.length := by
  rcases request_cases n d owner with hsame | ⟨-, defined, -, hreplaced⟩
  · rw [hsame]
    exact List.length_modify ..
  · rw [hreplaced]
    show (d.transformBy n owner defined).1.agents.length = _
    rcases h : d.agent? n with - | a
    · rw [transformBy_of_none h]
    · rw [(agents_transformBy h owner defined).1, List.length_set]

/-- Nor does a round of the coordinator. -/
theorem length_agents_coordinate (d : Deployment) (n : Nat) :
    (d.coordinate n).agents.length = d.agents.length := by
  have hrequests (owners : List String) (d : Deployment) :
      (owners.foldl (request n) d).agents.length = d.agents.length := by
    induction owners generalizing d with
    | nil => rfl
    | cons owner owners ih => exact (ih _).trans (length_agents_request n d owner)
  unfold coordinate takeOn requestAll
  split
  · rfl
  · split
    · rfl
    · exact (hrequests _ _).trans (List.length_set ..)

/-- A first report wakes the coordinator. -/
def wake (d : Deployment) (n : Nat) : Except AgentError Bool → Deployment
  | .ok true => d.coordinate n
  | _ => d

theorem length_agents_wake (d : Deployment) (n : Nat) (result : Except AgentError Bool) :
    (d.wake n result).agents.length = d.agents.length := by
  unfold wake
  split
  · exact length_agents_coordinate d n
  · rfl

/-- A report is one to the agent of that number. -/
theorem report_of_agent? {a : Agent} (h : d.agent? n = some a) (site : CallSite) :
    d.report n site =
      ((d.setAgent n (a.report site).1).wake n (a.report site).2, (a.report site).2) := by
  unfold report stage
  rw [h]
  dsimp only
  rcases (a.report site).2 with e | fresh
  · rfl
  · cases fresh <;> rfl

end Deployment

namespace Slot

/-! ## One slot and its hosts -/

/-- Hosts with their agents, and a slot. -/
structure World where
  deployments : List Deployment
  /-- The number of a host, and the number there of the agent in the slot. -/
  occupant : Option (Nat × Nat)
  deriving DecidableEq, Repr

namespace World

def slot (w : World) : Slot :=
  w.occupant.map Prod.snd

/-- The host of the agent in the slot. An empty slot looks at no host. -/
def home (w : World) : Deployment :=
  (w.occupant.bind fun o => w.deployments[o.1]?).getD .empty

/-- Puts the host of the agent in the slot back in its place. -/
def setHome (w : World) (d : Deployment) : World :=
  { w with deployments := (w.occupant.map fun o => w.deployments.set o.1 d).getD w.deployments }

/-- Installs an agent on a host. -/
def install (w : World) (h : Nat) (d : Deployment) (config : AgentConfig) (seesSupertypes : Bool) :
    World × Except AgentError Nat :=
  let (slot, d, result) := w.slot.install d config seesSupertypes
  ({ deployments := w.deployments.set h d, occupant := w.occupant.or (slot.map (h, ·)) }, result)

/-- Reports a call site through the slot. -/
def report (w : World) (site : CallSite) : World × Except AgentError Bool :=
  let (d, result) := w.slot.report w.home site
  (w.setHome d, result)

end World

/-- What happens, with its result. -/
inductive Event where
  | installed (h : Nat) (config : AgentConfig) (seesSupertypes : Bool)
      (result : Except AgentError Nat)
  | reported (site : CallSite) (result : Except AgentError Bool)
  /-- Something else happens on a host. -/
  | elsewhere (h : Nat)

/-- The agent that was installed. -/
def Event.success? : Event → Option (Nat × Nat)
  | .installed h _ _ (.ok n) => some (h, n)
  | _ => none

/-- Owners are defined and coordinators run, other agents are started and reported to. Agents are
never taken off a host. -/
inductive Step : World → Event → World → Prop where
  | install {w : World} {h : Nat} {d : Deployment} (found : w.deployments[h]? = some d)
      (config : AgentConfig) (seesSupertypes : Bool) :
      Step w (.installed h config seesSupertypes (w.install h d config seesSupertypes).2)
        (w.install h d config seesSupertypes).1
  | report {w : World} (site : CallSite) :
      Step w (.reported site (w.report site).2) (w.report site).1
  | elsewhere {w : World} {h : Nat} {d : Deployment} (found : w.deployments[h]? = some d)
      (d' : Deployment) (kept : d.agents.length ≤ d'.agents.length) :
      Step w (.elsewhere h) { w with deployments := w.deployments.set h d' }

/-- What an installation comes to. -/
inductive Installed (w : World) (h : Nat) (d : Deployment) (config : AgentConfig)
    (seesSupertypes : Bool) : World × Except AgentError Nat → Prop where
  /-- Whatever is loaded on the host. -/
  | full {o : Nat × Nat} (occupied : w.occupant = some o) :
      Installed w h d config seesSupertypes (w, .error .alreadyInstalled)
  /-- The first base implementation that is loaded is named, and all stays as it was. -/
  | refused {owner : String} {before after : List String} (empty : w.occupant = none)
      (listed : config.baseImplementations = before ++ owner :: after)
      (loaded : owner ∈ d.host.loadedOwners) (first : ∀ base ∈ before, base ∉ d.host.loadedOwners) :
      Installed w h d config seesSupertypes (w, .error (.baseAlreadyLoaded owner))
  /-- A new agent is put behind the others of the host. -/
  | started (empty : w.occupant = none)
      (free : ∀ base ∈ config.baseImplementations, base ∉ d.host.loadedOwners) :
      Installed w h d config seesSupertypes
        ({ deployments := w.deployments.set h
             { d with agents := d.agents ++ [.fresh config seesSupertypes] }
           occupant := some (h, d.agents.length) },
          .ok d.agents.length)

/-- What a report comes to. -/
inductive Reported (w : World) (site : CallSite) : World × Except AgentError Bool → Prop where
  /-- Whatever the site. -/
  | notInstalled (empty : w.occupant = none) : Reported w site (w, .error .notInstalled)
  /-- It is a report to the agent in the slot, and wakes the coordinator of that agent. -/
  | taken {h n : Nat} {d : Deployment} {a : Agent} (occupied : w.occupant = some (h, n))
      (found : w.deployments[h]? = some d) (agent : d.agent? n = some a) :
      Reported w site
        ({ w with
            deployments := w.deployments.set h
              ((d.setAgent n (a.report site).1).wake n (a.report site).2) },
          (a.report site).2)

variable {w w' : World} {e : Event} {trace : List Event} {h n : Nat} {d : Deployment}
variable {config : AgentConfig} {seesSupertypes : Bool} {site : CallSite}

/-! ## Installing -/

/-- An agent is started unless a base implementation of it is loaded. -/
theorem start_cases (d : Deployment) (config : AgentConfig) (seesSupertypes : Bool) :
    (∃ before owner after, config.baseImplementations = before ++ owner :: after ∧
        owner ∈ d.host.loadedOwners ∧ (∀ base ∈ before, base ∉ d.host.loadedOwners) ∧
        d.start config seesSupertypes = (d, .error (.baseAlreadyLoaded owner))) ∨
      (∀ base ∈ config.baseImplementations, base ∉ d.host.loadedOwners) ∧
        d.start config seesSupertypes =
          ({ d with agents := d.agents ++ [.fresh config seesSupertypes] },
            .ok d.agents.length) := by
  unfold Deployment.start Agent.start
  -- the search goes by the order of the configuration, so what it finds is the first
  rcases hfind : config.baseImplementations.find? d.host.loadedOwners.contains with - | owner
  · refine .inr ⟨fun base hbase hloaded => ?_, rfl⟩
    exact List.find?_eq_none.1 hfind base hbase (List.contains_iff_mem.2 hloaded)
  · obtain ⟨hloaded, before, after, hlisted, hfirst⟩ := List.find?_eq_some_iff_append.1 hfind
    refine .inl ⟨before, owner, after, hlisted, List.contains_iff_mem.1 hloaded,
      fun base hbase hmem => ?_, rfl⟩
    have hnot := hfirst base hbase
    rw [List.contains_iff_mem.2 hmem] at hnot
    cases hnot

/-- An installation finds the slot full, is refused by what is loaded, or starts an agent. -/
theorem installed_install (found : w.deployments[h]? = some d) (config : AgentConfig)
    (seesSupertypes : Bool) :
    Installed w h d config seesSupertypes (w.install h d config seesSupertypes) := by
  obtain ⟨deployments, occupant⟩ := w
  have hsame : deployments.set h d = deployments := by
    obtain ⟨hh, rfl⟩ := List.getElem?_eq_some_iff.1 found
    exact List.set_getElem_self hh
  cases occupant with
  | some o =>
    have hfull : World.install ⟨deployments, some o⟩ h d config seesSupertypes =
        (⟨deployments.set h d, some o⟩, .error .alreadyInstalled) := rfl
    rw [hfull, hsame]
    exact .full rfl
  | none =>
    unfold World.install Slot.install World.slot
    rcases start_cases d config seesSupertypes with
      ⟨before, owner, after, hlisted, hloaded, hfirst, hstart⟩ | ⟨hfree, hstart⟩
    · simp only [Option.map_none, hstart, Option.or_none, hsame]
      exact .refused rfl hlisted hloaded hfirst
    · simp only [Option.map_none, hstart, Option.map_some, Option.none_or]
      exact .started rfl hfree

/-- It comes to one thing. -/
theorem Installed.unique {out out' : World × Except AgentError Nat}
    (hout : Installed w h d config seesSupertypes out)
    (hout' : Installed w h d config seesSupertypes out') : out = out' := by
  have hloaded {before after : List String} {owner : String}
      (listed : config.baseImplementations = before ++ owner :: after)
      (loaded : owner ∈ d.host.loadedOwners) (first : ∀ base ∈ before, base ∉ d.host.loadedOwners) :
      config.baseImplementations.find? d.host.loadedOwners.contains = some owner :=
    List.find?_eq_some_iff_append.2 ⟨List.contains_iff_mem.2 loaded, before, after, listed,
      fun base hbase => by simpa using first base hbase⟩
  have hmem {before after : List String} {owner : String}
      (listed : config.baseImplementations = before ++ owner :: after) :
      owner ∈ config.baseImplementations :=
    listed ▸ List.mem_append_right _ List.mem_cons_self
  cases hout with
  | full occupied => cases hout' with
    | full => rfl
    | refused empty => exact absurd (empty.symm.trans occupied) nofun
    | started empty => exact absurd (empty.symm.trans occupied) nofun
  | refused empty listed loaded first => cases hout' with
    | full occupied => exact absurd (empty.symm.trans occupied) nofun
    | refused _ listed' loaded' first' =>
      have hfound := (hloaded listed loaded first).symm.trans (hloaded listed' loaded' first')
      rw [Option.some.inj hfound]
    | started _ free => exact absurd loaded (free _ (hmem listed))
  | started empty free => cases hout' with
    | full occupied => exact absurd (empty.symm.trans occupied) nofun
    | refused _ listed loaded => exact absurd loaded (free _ (hmem listed))
    | started => rfl

/-! ## Reporting -/

/-- The agent in the slot is there. -/
def World.Attended (w : World) : Prop :=
  ∀ h n, w.occupant = some (h, n) → ∃ d, w.deployments[h]? = some d ∧ n < d.agents.length

/-- So there is an agent to be found. -/
theorem World.Attended.agent (hw : w.Attended) (occupied : w.occupant = some (h, n)) :
    ∃ d a, w.deployments[h]? = some d ∧ d.agent? n = some a := by
  obtain ⟨d, found, hn⟩ := hw h n occupied
  exact ⟨d, _, found, List.getElem?_eq_getElem hn⟩

/-- A report through the slot is one to its agent, on the host where that lives. -/
theorem World.report_of_agent? {a : Agent} (occupied : w.occupant = some (h, n))
    (found : w.deployments[h]? = some d) (agent : d.agent? n = some a) (site : CallSite) :
    w.report site =
      ({ w with
          deployments := w.deployments.set h
            ((d.setAgent n (a.report site).1).wake n (a.report site).2) },
        (a.report site).2) := by
  have hslot : w.slot = some n := by rw [slot, occupied, Option.map_some]
  have hhome : w.home = d := by
    rw [home, occupied, Option.bind_some, found, Option.getD_some]
  rw [World.report, hslot, hhome, Slot.report, d.report_of_agent? agent]
  dsimp only
  rw [setHome, occupied, Option.map_some, Option.getD_some]

/-- An empty slot refuses a report, and the agent in a full one takes it. -/
theorem reported_report (hw : w.Attended) (site : CallSite) : Reported w site (w.report site) := by
  rcases hoccupant : w.occupant with - | ⟨h, n⟩
  · have hnone : w.report site = (w, .error .notInstalled) := by
      obtain ⟨deployments, occupant⟩ := w
      obtain rfl : occupant = none := hoccupant
      rfl
    rw [hnone]
    exact .notInstalled hoccupant
  · obtain ⟨d, a, found, agent⟩ := hw.agent hoccupant
    rw [World.report_of_agent? hoccupant found agent]
    exact .taken hoccupant found agent

/-- A report that does not change the agent, and is no first report, changes nothing. -/
theorem World.report_of_same {a : Agent} (occupied : w.occupant = some (h, n))
    (found : w.deployments[h]? = some d) (agent : d.agent? n = some a)
    {result : Except AgentError Bool} (hsame : a.report site = (a, result))
    (hresult : result ≠ .ok true) : w.report site = (w, result) := by
  have hagent : d.setAgent n a = d := by
    have hkept := d.setAgent_getD n a
    rwa [agent, Option.getD_some] at hkept
  have hwake : d.wake n result = d := by
    unfold Deployment.wake
    split
    · exact absurd rfl hresult
    · rfl
  have hset : w.deployments.set h d = w.deployments := by
    obtain ⟨hh, rfl⟩ := List.getElem?_eq_some_iff.1 found
    exact List.set_getElem_self hh
  rw [World.report_of_agent? occupied found agent, hsame, hagent, hwake, hset]

/-- A site of another operation is an error. -/
theorem report_of_other (a : Agent) (hother : site.operation ≠ Store.put) :
    a.report site = (a, .error (.ofDefect (.otherOperation site.operation))) := by
  rw [Agent.report, CallSite.defect?, if_neg hother]

/-- One in a native caller is never new. -/
theorem report_of_native (a : Agent) (hput : site.operation = Store.put)
    (hnative : site.caller.native = true) : a.report site = (a, .ok false) := by
  rw [Agent.report, CallSite.defect?, if_pos hput]
  dsimp only
  rw [if_pos hnative]

/-! ## Steps and runs -/

/-- A host may change as long as it keeps its agents. -/
theorem World.Attended.set (hw : w.Attended) (found : w.deployments[h]? = some d)
    {d' : Deployment} (hkept : d.agents.length ≤ d'.agents.length) :
    World.Attended { w with deployments := w.deployments.set h d' } := by
  intro k n occupied
  obtain ⟨d₀, hfound, hn⟩ := hw k n occupied
  by_cases hk : h = k
  · subst hk
    obtain rfl := Option.some.inj (found.symm.trans hfound)
    exact ⟨d', List.getElem?_set_self (List.getElem?_eq_some_iff.1 found).1,
      Nat.lt_of_lt_of_le hn hkept⟩
  · exact ⟨d₀, (List.getElem?_set_ne hk).trans hfound, hn⟩

theorem Installed.attended {out : World × Except AgentError Nat}
    (hout : Installed w h d config seesSupertypes out) (found : w.deployments[h]? = some d)
    (hw : w.Attended) : out.1.Attended := by
  cases hout with
  | full => exact hw
  | refused => exact hw
  | started empty free =>
    intro k n occupied
    obtain ⟨rfl, rfl⟩ := Prod.mk.inj (Option.some.inj occupied)
    refine ⟨_, List.getElem?_set_self (List.getElem?_eq_some_iff.1 found).1, ?_⟩
    rw [List.length_append]
    exact Nat.lt_succ_self _

theorem Reported.attended {out : World × Except AgentError Bool} (hout : Reported w site out)
    (hw : w.Attended) : out.1.Attended := by
  cases hout with
  | notInstalled => exact hw
  | taken occupied found agent =>
    refine hw.set found (Nat.le_of_eq ?_)
    rw [Deployment.length_agents_wake, Deployment.setAgent, List.length_set]

/-- Whatever happens, the agent in the slot is there. -/
theorem World.Attended.step (hstep : Step w e w') (hw : w.Attended) : w'.Attended := by
  cases hstep with
  | install found config seesSupertypes =>
    exact (installed_install found config seesSupertypes).attended found hw
  | report site => exact (reported_report hw site).attended hw
  | elsewhere found d' kept => exact hw.set found kept

/-- An installation fills the slot if it succeeds, and only an empty one. -/
theorem Installed.occupant {out : World × Except AgentError Nat}
    (hout : Installed w h d config seesSupertypes out) :
    out.1.occupant.toList = w.occupant.toList ++
      (Event.installed h config seesSupertypes out.2).success?.toList := by
  cases hout with
  | full => exact (List.append_nil _).symm
  | refused => exact (List.append_nil _).symm
  | started empty =>
    rw [empty]
    rfl

/-- Nobody is put out of the slot. -/
theorem Installed.keeps {out : World × Except AgentError Nat} {o : Nat × Nat}
    (hout : Installed w h d config seesSupertypes out) (occupied : w.occupant = some o) :
    out.1.occupant = some o := by
  cases hout with
  | full => exact occupied
  | refused => exact occupied
  | started empty =>
    rw [empty] at occupied
    cases occupied

/-- The slot is filled by what is installed. -/
theorem Step.occupant (hstep : Step w e w') :
    w'.occupant.toList = w.occupant.toList ++ e.success?.toList := by
  cases hstep with
  | install found config seesSupertypes =>
    exact (installed_install found config seesSupertypes).occupant
  | report site => exact (List.append_nil _).symm
  | elsewhere => exact (List.append_nil _).symm

theorem Step.keeps {o : Nat × Nat} (hstep : Step w e w') (occupied : w.occupant = some o) :
    w'.occupant = some o := by
  cases hstep with
  | install found config seesSupertypes =>
    exact (installed_install found config seesSupertypes).keeps occupied
  | report site => exact occupied
  | elsewhere => exact occupied

/-- The agent in the slot is the one that was installed. -/
theorem occupant_of_runs {start : World} (hempty : start.occupant = none)
    (hrun : Runs Step start trace w) : w.occupant.toList = trace.filterMap Event.success? := by
  induction hrun with
  | refl =>
    rw [hempty]
    rfl
  | snoc _ hlast ih =>
    rw [hlast.occupant, ih, List.filterMap_append]
    cases hsuccess : Event.success? _ <;> simp [hsuccess]

/-- And it stays there. -/
theorem keeps_of_runs {o : Nat × Nat} (hrun : Runs Step w trace w')
    (occupied : w.occupant = some o) : w'.occupant = some o := by
  induction hrun with
  | refl => exact occupied
  | snoc _ hlast ih => exact hlast.keeps ih

/-- **A slot holds at most one agent, and what fails leaves no trace.** Take any run from an empty
slot, on any hosts. The agent that was installed is in the slot, so there is at most one, and it
stays there however the run goes on. What an installation or a report comes to is told by
`Installed` and `Reported`. A report of another operation, or from native code, changes nothing. -/
theorem at_most_one_agent (deployments : List Deployment)
    (hrun : Runs Step ⟨deployments, none⟩ trace w) :
    w.occupant.toList = trace.filterMap Event.success? ∧
      (∀ more w' o, Runs Step w more w' → w.occupant = some o → w'.occupant = some o) ∧
      (∀ h d config seesSupertypes, w.deployments[h]? = some d →
        Installed w h d config seesSupertypes (w.install h d config seesSupertypes)) ∧
      (∀ site, Reported w site (w.report site)) ∧
      ∀ site, w.occupant ≠ none →
        (site.operation ≠ Store.put →
          w.report site = (w, .error (.ofDefect (.otherOperation site.operation)))) ∧
        (site.operation = Store.put → site.caller.native = true →
          w.report site = (w, .ok false)) := by
  have hw : w.Attended := hrun.invariant World.Attended.step fun _ _ => nofun
  refine ⟨occupant_of_runs rfl hrun, fun more w' o => keeps_of_runs, ?_, reported_report hw, ?_⟩
  · intro h d config seesSupertypes found
    exact installed_install found config seesSupertypes
  · intro site hfull
    obtain ⟨⟨h, n⟩, occupied⟩ := Option.ne_none_iff_exists'.1 hfull
    obtain ⟨d, a, found, agent⟩ := hw.agent occupied
    refine ⟨fun hother => ?_, fun hput hnative => ?_⟩
    · exact World.report_of_same occupied found agent (report_of_other a hother) nofun
    · exact World.report_of_same occupied found agent (report_of_native a hput hnative) nofun

/-! ## One host too late -/

namespace Late

/-- A host on which the store is loaded. -/
def loaded : Deployment :=
  { Deployment.empty with host := Host.empty.load "acme/Store" [] [] }

/-- What is to be extended. -/
def stores : AgentConfig :=
  { AgentConfig.default with baseImplementations := ["acme/Cache", "acme/Store"] }

/-- The empty slot, that host and an empty one. -/
def start : World :=
  ⟨[loaded, .empty], none⟩

/-- An agent is installed on the second host. -/
def filled : World :=
  ⟨[loaded, { Deployment.empty with agents := [.fresh stores true] }], some (1, 0)⟩

/-- The installation on the first host is refused, for the store that it comes too late for, and
the one on the second host succeeds. Then the slot is full, for the first host too. -/
theorem at_most_one_agent_late : ∃ trace, Runs Step start trace filled ∧
    trace.filterMap Event.success? = [(1, 0)] ∧
    start.install 0 loaded stores true = (start, .error (.baseAlreadyLoaded "acme/Store")) ∧
    filled.install 0 loaded stores true = (filled, .error .alreadyInstalled) ∧
    filled.report ⟨Store.set, ⟨"acme/Orders", "record", false⟩⟩ =
      (filled, .error (.invalidCallSite "operation is set, expected put")) := by
  have howners : loaded.host.loadedOwners = ["acme/Store"] := List.mergeSort_singleton _
  have hnone : Deployment.empty.host.loadedOwners = [] := List.mergeSort_nil
  obtain ⟨-, -, hinstalls, -⟩ := at_most_one_agent [loaded, .empty] (.refl start)
  have hrefused : start.install 0 loaded stores true =
      (start, .error (.baseAlreadyLoaded "acme/Store")) := by
    have hfirst : ∀ base ∈ ["acme/Cache"], base ∉ loaded.host.loadedOwners := by simp [howners]
    exact (hinstalls 0 loaded stores true rfl).unique
      (.refused rfl rfl (howners ▸ List.mem_cons_self) hfirst)
  have hstarted : start.install 1 .empty stores true = (filled, .ok 0) :=
    (hinstalls 1 .empty stores true rfl).unique (.started rfl fun _ _ => hnone ▸ List.not_mem_nil)
  have hrun : Runs Step start [.installed 0 stores true (.error (.baseAlreadyLoaded "acme/Store")),
      .installed 1 stores true (.ok 0)] filled := by
    have hfirst := Step.install (w := start) (h := 0) rfl stores true
    have hsecond := Step.install (w := start) (h := 1) rfl stores true
    rw [hrefused] at hfirst
    rw [hstarted] at hsecond
    exact .cons hfirst (.single hsecond)
  obtain ⟨-, -, hfull, -, hreports⟩ := at_most_one_agent [loaded, .empty] hrun
  refine ⟨_, hrun, rfl, hrefused, ?_, ?_⟩
  · exact (hfull 0 loaded stores true rfl).unique (.full rfl)
  · exact (hreports ⟨Store.set, ⟨"acme/Orders", "record", false⟩⟩ nofun).1 (by decide)

end Late

end Slot

end CallPatch
