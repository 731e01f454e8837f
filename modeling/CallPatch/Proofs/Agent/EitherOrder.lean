import CallPatch.Proofs.Agent.History
import CallPatch.Proofs.Agent.Indifference
import CallPatch.Proofs.Deployment.Serial
/-!
# Agents — installing before a definition, and after it

Call sites of an owner can be installed before the owner is defined, or it is
defined first and retransformed as they come in. Both run the same passes over
the same bytes, but in a retransformation the owner is loaded, and what it
declares counts. So the two agree for bytes that do not ask about their owner
(`either_order`), and else they need not: a type that declares the marker is not
known to have the capability while it is being defined (`Cached.orders_differ`).

While call sites of one owner are installed the coordinator goes to no other
(`Devoted`). That is why the rest of the host stays as it is, and why what the
owner runs is made on a host between the one without it and the one with all
that it can declare (`Made`).
-/

namespace CallPatch

namespace Agent

variable {a a' a'' : Agent}

/-- The second agent goes by the same configuration, and lists at least as much. -/
structure Grown (a a' : Agent) : Prop where
  config : a'.config = a.config
  sees : a'.seesSupertypes = a.seesSupertypes
  listed : ∀ owner, a.listed owner ⊆ a'.listed owner

theorem Grown.refl (a : Agent) : a.Grown a :=
  ⟨rfl, rfl, fun _ => List.Subset.refl _⟩

theorem Grown.trans (h : a.Grown a') (h' : a'.Grown a'') : a.Grown a'' :=
  ⟨h'.config.trans h.config, h'.sees.trans h.sees,
    fun owner => List.Subset.trans (h.listed owner) (h'.listed owner)⟩

theorem Annotates.grown (h : a.Annotates a') : a.Grown a' := by
  obtain ⟨timeline, pipeline, rfl⟩ := h
  exact ⟨rfl, rfl, fun _ => List.Subset.refl _⟩

theorem grown_report (a : Agent) (site : CallSite) : a.Grown (a.report site).1 := by
  rw [Rollout.report_eq]
  exact ⟨rfl, rfl, fun _ => List.Subset.refl _⟩

theorem grown_handOver (hs : a.staging.AtRest) (hi : a.installed.AtRest) :
    a.Grown a.handOver.1 := by
  have hmoved := Rollout.moved_handOver hs hi
  refine ⟨rfl, rfl, fun owner member hmember => ?_⟩
  have hpending : ⟨owner, member⟩ ∈ a.installed.pending := hi.mem_membersOf.1 hmember
  exact hmoved.target_atRest.mem_membersOf.2 ((hmoved.mem_pending _).2 (.inl hpending))

theorem Grown.outcome_eq (h : a.Grown a') (supertypes : Supertypes) (owner : String)
    (names : List String) (bytes : Bytes) :
    a'.outcome supertypes owner names bytes = a.outcome supertypes owner names bytes := by
  have hscope : a'.scope supertypes = a.scope supertypes := by
    rw [scope, scope, h.config, h.sees]
  rw [outcome, outcome, h.config, hscope]

theorem Grown.reading_eq (h : a.Grown a') (owner : String) (names : List String)
    (bytes : Bytes) : a'.reading owner names bytes = a.reading owner names bytes := by
  rw [reading, reading, h.config]

end Agent

namespace Rollout

open Host (of_supertypeTable of_supertypeTable_of_none)

variable {config : AgentConfig} {s t early early' late late' : Rollout} {e : Event}
variable {trace : List Event} {owner : String} {members : List String} {bytes : Bytes}

theorem currentBytes?_load (host : Host) (owner : String) (defined current : Bytes) :
    (host.load owner defined current).currentBytes? owner = some current := by
  simp only [Host.currentBytes?, Host.load, Table.get?_put_self, Option.map_some]

theorem Reachable.run (h : Reachable config s) (hrun : Runs Step s trace t) :
    Reachable config t := by
  obtain ⟨host, sees, agent, trace', hstart, hrun'⟩ := h
  exact ⟨host, sees, agent, trace' ++ trace, hstart, hrun'.trans hrun⟩

/-! ## One owner at a time -/

/-- Nothing but call sites of the owner is staged, the coordinator has to go to no other, and no
definition is under way. -/
structure Devoted (owner : String) (s : Rollout) : Prop where
  staging : s.agent.staging.AtRest
  installed : s.agent.installed.AtRest
  defining : s.defining = []
  staged : ∀ k ∈ s.agent.staging.pending, k.owner = owner
  owes : ∀ o, s.round.Owes o → o = owner

/-- What a step does to the host then: nothing, or it retransforms the owner. -/
inductive Change (owner : String) (s t : Rollout) : Prop where
  | inward (host : t.host = s.host) (origins : t.origins = s.origins)
  | retransformed {names : List String} {bytes : Bytes}
      (defined : s.host.definitionOf owner = .ok bytes)
      (listed : names.Perm (s.agent.listed owner))
      (host : t.host =
        s.host.replace owner (s.agent.outcome s.host.supertypeTable owner names bytes))
      (origins : t.origins = Table.put owner ⟨s.agent.reading owner names bytes, false⟩ s.origins)

theorem devoted_of_finished (h : Tracked config s) (hdone : s.Finished) (owner : String) :
    Devoted owner s := by
  have hnone : s.agent.staging.pending = [] := h.staging.pending_of_isEmpty hdone.staging
  refine ⟨h.staging, h.installed, hdone.defining, fun k hk => ?_, fun o howes => ?_⟩
  · rw [hnone] at hk
    cases hk
  · rw [hdone.round] at howes
    exact howes.elim

theorem Devoted.report (h : Devoted owner s) (site : CallSite)
    (howner : ∀ k ∈ site.entries, k.owner = owner) :
    Devoted owner { s with agent := (s.agent.report site).1 } := by
  have hatRest := atRest_staging_report h.staging site
  rw [report_eq]
  refine ⟨hatRest, h.installed, h.defining, fun k hk => ?_, h.owes⟩
  rcases staging_report s.agent site with ⟨-, hsame⟩ | ⟨hone, hstaged, -⟩
  · rw [hsame] at hk
    exact h.staged k hk
  · rw [hstaged, EntryIndex.mem_pending_report] at hk
    rcases hk with hk | ⟨-, rfl⟩
    · exact h.staged k hk
    · exact howner _ (hone ▸ List.mem_cons_self)

/-- Who is listed in the difference had something staged. -/
theorem Devoted.owner_of_mem (h : Devoted owner s) {o : String}
    (ho : o ∈ s.agent.handOver.2.ownerNames?.getD []) : o = owner := by
  have hmoved := moved_handOver h.staging h.installed
  have hpopulated : s.agent.handOver.2.Populated := (EntryIndex.collected_receiveAll _ _ _).populated
  obtain ⟨k, hk, rfl⟩ := hpopulated.exists_pending ho
  exact h.staged k (hmoved.taken k hk)

/-- **One step on the way.** -/
theorem Devoted.step (h : Devoted owner s) (hstep : Step s e t) (hbegan : ∀ o, e ≠ .began o)
    (howner : ∀ k ∈ e.reports, k.owner = owner) :
    Devoted owner t ∧ s.agent.Grown t.agent ∧ Change owner s t := by
  cases hstep with
  | begin s o bytes listed noted => exact absurd rfl (hbegan o)
  | load before after d => simpa using h.defining
  | report s site => exact ⟨h.report site howner, s.agent.grown_report site, .inward rfl rfl⟩
  | takeOn host agent defining origins =>
    have hmoved := moved_handOver h.staging h.installed
    have hnone : agent.handOver.1.staging.pending = [] := hmoved.source_pending
    obtain rfl : defining = [] := h.defining
    refine ⟨⟨hmoved.source_atRest, hmoved.target_atRest, rfl, fun k hk => ?_, ?_⟩,
      Agent.grown_handOver h.staging h.installed, .inward rfl rfl⟩
    · rw [hnone] at hk
      cases hk
    · exact fun o howes => h.owner_of_mem howes
  | @look host agent defining difference origins due listed =>
    obtain rfl : defining = [] := h.defining
    refine ⟨⟨h.staging, h.installed, rfl, h.staged, fun o howes => ?_⟩, .refl _, .inward rfl rfl⟩
    exact h.owes o (List.mem_filter.1 (listed.mem_iff.1 howes)).1
  | @request host agent a' defining o due names bytes origins defined listed noted =>
    obtain rfl : defining = [] := h.defining
    obtain rfl : o = owner := h.owes o List.mem_cons_self
    have hgrown : agent.Grown a' := noted.grown
    obtain ⟨timeline, pipeline, rfl⟩ := noted
    refine ⟨⟨h.staging, h.installed.annotate timeline, rfl, h.staged, fun o' howes => ?_⟩, hgrown,
      .retransformed defined listed rfl rfl⟩
    exact h.owes o' (List.mem_cons_of_mem _ howes)
  | finish host agent defining origins =>
    obtain rfl : defining = [] := h.defining
    exact ⟨⟨h.staging, h.installed, rfl, h.staged, nofun⟩, .refl _, .inward rfl rfl⟩

/-- What these steps keep, a run of them keeps. -/
theorem Devoted.keep {P : Rollout → Prop}
    (hkeep : ∀ s t, P s → s.agent.Grown t.agent → Change owner s t → P t) (h : Devoted owner s)
    (hs : P s) (hrun : Runs Step s trace t) (hbegan : ∀ o, .began o ∉ trace)
    (howner : ∀ k ∈ trace.flatMap Event.reports, k.owner = owner) : Devoted owner t ∧ P t := by
  -- `P` may need that only the owner is worked on, so both go through the run together
  induction hrun with
  | refl => exact ⟨h, hs⟩
  | @snoc t u trace e hrun hstep ih =>
    have hlast : [e].flatMap Event.reports = e.reports := List.append_nil _
    rw [List.flatMap_append, hlast] at howner
    obtain ⟨hdevoted, ht⟩ := ih (fun o hmem => hbegan o (List.mem_append_left _ hmem))
      fun k hk => howner k (List.mem_append_left _ hk)
    have hnext : Devoted owner u ∧ t.agent.Grown u.agent ∧ Change owner t u := by
      refine hdevoted.step hstep (fun o heq => ?_) fun k hk => howner k (List.mem_append_right _ hk)
      exact hbegan o (List.mem_append_right _ (heq ▸ List.mem_cons_self))
    obtain ⟨hdevoted', hgrown, hchange⟩ := hnext
    exact ⟨hdevoted', hkeep t u ht hgrown hchange⟩

/-! ## The two parts -/

/-- The members of the owner are reported, each at least once, and nothing else is; no owner is
defined, and when the coordinator is done nothing is staged. -/
def Installs (owner : String) (members : List String) (s t : Rollout) : Prop :=
  ∃ trace, Runs Step s trace t ∧ (∀ o, .began o ∉ trace) ∧
    (∀ k, k ∈ trace.flatMap Event.reports ↔ k.owner = owner ∧ k.member ∈ members) ∧ t.Finished

/-- The owner is defined from the bytes. -/
def Defines (owner : String) (bytes : Bytes) (s t : Rollout) : Prop :=
  Runs Step s [.began owner, .loaded owner] t ∧
    ∃ l, Table.get? owner t.host.loaded = some l ∧ l.defined = bytes

/-- A definition that begins is under way with one outcome for the members listed. -/
theorem began_eq {e : Event} (h : Step s e t) (he : e = .began owner) :
    ∃ bytes names a', names.Perm (s.agent.listed owner) ∧ s.agent.Annotates a' ∧
      t = { s with
        agent := a'
        defining := s.defining ++
          [{ owner
             defined := bytes
             current := s.agent.outcome s.host.supertypeTable owner names bytes
             reading := s.agent.reading owner names bytes
             standing := .abreast }] } := by
  cases h with
  | @begin _ a' names o bytes listed noted =>
    obtain rfl := Event.began.inj he
    exact ⟨bytes, names, a', listed, noted, rfl⟩
  | _ => cases he

/-- What is loaded was under way. -/
theorem loaded_eq {e : Event} (h : Step s e t) (he : e = .loaded owner) :
    ∃ before d after, s.defining = before ++ d :: after ∧ d.owner = owner ∧
      t = { s with
        host := s.host.load owner d.defined d.current
        defining := before ++ after
        origins := Table.put owner d.origin s.origins } := by
  cases h with
  | load before after d =>
    obtain rfl := Event.loaded.inj he
    exact ⟨before, d, after, rfl, rfl, rfl⟩
  | _ => cases he

/-- A definition loads one outcome for the members listed when it begins. -/
theorem Defines.spec (h : Defines owner bytes s t) (hnone : s.defining = []) :
    ∃ names a', names.Perm (s.agent.listed owner) ∧ s.agent.Annotates a' ∧
      t = { host := s.host.load owner bytes
              (s.agent.outcome s.host.supertypeTable owner names bytes)
            agent := a'
            defining := []
            round := s.round
            origins := Table.put owner ⟨s.agent.reading owner names bytes, false⟩ s.origins } := by
  obtain ⟨hrun, l, hl, rfl⟩ := h
  obtain ⟨u, hfirst, hload⟩ := Runs.last (show Runs Step s ([.began owner] ++ [_]) t from hrun)
  obtain ⟨s', hstart, hbegin⟩ := Runs.last (show Runs Step s ([] ++ [_]) u from hfirst)
  obtain rfl := hstart.eq_of_nil
  obtain ⟨bytes, names, a', hlisted, hnoted, rfl⟩ := began_eq hbegin rfl
  obtain ⟨before, d, after, hdefining, howner, rfl⟩ := loaded_eq hload rfl
  -- the definition that began is the only one there is to be loaded
  rw [hnone, List.nil_append, eq_comm, List.append_eq_singleton_iff] at hdefining
  obtain ⟨rfl, hd⟩ | ⟨rfl, hd⟩ := hdefining
  · obtain ⟨rfl, rfl⟩ := List.cons.inj hd
    obtain rfl := Option.some.inj ((Table.get?_put_self ..).symm.trans hl)
    exact ⟨names, a', hlisted, hnoted, rfl⟩
  · cases hd

theorem Defines.finished (h : Defines owner bytes s t) (hdone : s.Finished) : t.Finished := by
  obtain ⟨names, a', -, ⟨timeline, pipeline, rfl⟩, rfl⟩ := h.spec hdone.defining
  exact ⟨rfl, hdone.round, hdone.staging⟩

/-- Since the first state the owner has been defined from the bytes, and the others are as they
were. What the owner runs came about on a host in between, from members that are listed. -/
structure Made (s : Rollout) (owner : String) (bytes : Bytes) (t : Rollout) : Prop where
  grown : s.agent.Grown t.agent
  others : ∀ o, o ≠ owner → Table.get? o t.host.loaded = Table.get? o s.host.loaded
  loaded : ∃ l names table, Table.get? owner t.host.loaded = some l ∧ l.defined = bytes ∧
    Supertypes.Within owner (s.agent.config.declared owner bytes) s.host.supertypeTable table ∧
      l.current = s.agent.outcome table owner names bytes ∧
        Table.get? owner t.origins = some ⟨s.agent.reading owner names bytes, false⟩ ∧
          names ⊆ t.agent.listed owner

/-- What the host declares stays in between. -/
theorem Made.within (h : Made s owner bytes t) :
    Supertypes.Within owner (s.agent.config.declared owner bytes) s.host.supertypeTable
      t.host.supertypeTable := by
  obtain ⟨l, names, table, hl, -, -, hcurrent, -⟩ := h.loaded
  refine ⟨fun type htype => ?_, ?_⟩
  · rw [of_supertypeTable, of_supertypeTable, h.others type htype]
  · rw [of_supertypeTable, hl, Option.map_some, Option.getD_some, hcurrent]
    exact s.agent.declaredBy_outcome ..

theorem Made.change {u : Rollout} (h : Made s owner bytes t) (hgrown : t.agent.Grown u.agent)
    (hchange : Change owner t u) : Made s owner bytes u := by
  obtain ⟨l, names, table, hl, hdefined, hwithin, hcurrent, horigin, hnames⟩ := h.loaded
  cases hchange with
  | inward hhost horigins =>
    rw [← hhost] at hl
    rw [← horigins] at horigin
    refine ⟨h.grown.trans hgrown, fun o ho => ?_, l, names, table, hl, hdefined, hwithin, hcurrent,
      horigin, List.Subset.trans hnames (hgrown.listed owner)⟩
    rw [hhost, h.others o ho]
  | @retransformed names' bytes' defined listed hhost horigins =>
    obtain ⟨l', hl', rfl⟩ := exists_of_definitionOf defined
    obtain rfl : l' = l := Option.some.inj (hl'.symm.trans hl)
    rw [h.grown.outcome_eq, hdefined] at hhost
    rw [h.grown.reading_eq, hdefined] at horigins
    have hloaded : Table.get? owner u.host.loaded = some { l' with
        current := s.agent.outcome t.host.supertypeTable owner names' bytes
        retransforms := l'.retransforms + 1 } := by
      rw [hhost]
      exact get?_replace_self hl
    have hlisted : names' ⊆ u.agent.listed owner :=
      List.Subset.trans listed.subset (hgrown.listed owner)
    refine ⟨h.grown.trans hgrown, fun o ho => ?_, _, names', t.host.supertypeTable, hloaded,
      hdefined, h.within, rfl, ?_, hlisted⟩
    · rw [hhost, get?_replace_of_ne ho, h.others o ho]
    · rw [horigins, Table.get?_put_self]

/-- An owner that was not loaded has been made by its definition. -/
theorem Defines.made (h : Defines owner bytes s t) (hnone : s.defining = [])
    (hnew : Table.get? owner s.host.loaded = none) : Made s owner bytes t := by
  obtain ⟨names, a', hlisted, hnoted, rfl⟩ := h.spec hnone
  have hgrown : s.agent.Grown a' := hnoted.grown
  have hwithin : Supertypes.Within owner (s.agent.config.declared owner bytes)
      s.host.supertypeTable s.host.supertypeTable := by
    refine ⟨fun _ _ => rfl, ?_⟩
    rw [of_supertypeTable_of_none hnew]
    exact List.nil_subset _
  exact ⟨hgrown, fun o ho => Table.get?_put_of_ne ho .., _, names, s.host.supertypeTable,
    Table.get?_put_self .., rfl, hwithin, rfl, Table.get?_put_self ..,
    List.Subset.trans hlisted.subset (hgrown.listed owner)⟩

/-- **What an owner ends with that was not loaded.** When all is done and its bytes do not ask about
it, it is the outcome for the members listed, on the host as it was without the owner. -/
theorem Made.currentBytes?_eq {names : List String} (h : Made s owner bytes t)
    (htracked : Tracked config t) (hround : t.round = .resting)
    (hnew : Table.get? owner s.host.loaded = none)
    (hlisted : ∀ member, member ∈ names ↔ member ∈ t.agent.listed owner)
    (hindifferent : s.agent.Indifferent s.host.supertypeTable owner names bytes) :
    t.host.currentBytes? owner =
      some (s.agent.outcome s.host.supertypeTable owner names bytes) := by
  obtain ⟨l, names', table, hl, -, hwithin, hcurrent, horigin, hsub⟩ := h.loaded
  have hsame : l.current = s.agent.outcome s.host.supertypeTable owner names bytes := by
    rw [hcurrent]
    rcases hextended : s.agent.config.extendBase owner bytes with e | extended
    · -- bytes that cannot be extended are loaded as they are
      rw [Agent.outcome, Agent.outcome, AgentConfig.treat_of_error hextended,
        AgentConfig.treat_of_error hextended]
    · -- the last list to be read had all that is listed, as nobody owes a retransformation
      have hreading : s.agent.reading owner names' bytes = some names' := by
        rw [Agent.reading, hextended]
      have hread : t.agent.listed owner ⊆ names' := by
        have howed := htracked.loaded owner _ names' horigin hreading rfl
        rw [hround] at howed
        exact howed.resolve_left id
      have hnames : ∀ member, member ∈ names' ↔ member ∈ names := by
        intro member
        rw [hlisted]
        exact ⟨fun hmem => hsub hmem, fun hmem => hread hmem⟩
      exact Agent.outcome_eq_of_within hindifferent hwithin (of_supertypeTable_of_none hnew) hnames
  rw [Host.currentBytes?, hl, ← hsame]
  rfl

/-! ## Either order -/

/-- While an owner is not loaded, installing call sites of it leaves the host alone. -/
theorem Installs.host_eq (h : Installs owner members s t) (hdevoted : Devoted owner s)
    (hnew : Table.get? owner s.host.loaded = none) :
    s.agent.Grown t.agent ∧ t.host = s.host := by
  obtain ⟨trace, hrun, hbegan, hreports, -⟩ := h
  refine (hdevoted.keep (P := fun t => s.agent.Grown t.agent ∧ t.host = s.host) ?_
    ⟨.refl _, rfl⟩ hrun hbegan fun k hk => ((hreports k).1 hk).1).2
  rintro t u ⟨hgrown, hhost⟩ hgrown' hchange
  refine ⟨hgrown.trans hgrown', ?_⟩
  cases hchange with
  | inward hhost' _ => exact hhost'.trans hhost
  | retransformed defined listed hhost' _ =>
    -- only a loaded owner is retransformed
    obtain ⟨l, hl, -⟩ := exists_of_definitionOf defined
    rw [hhost, hnew] at hl
    cases hl

/-- Once it is loaded, what it runs is made of its bytes. -/
theorem Installs.made (h : Installs owner members late late') (hdevoted : Devoted owner late)
    (hmade : Made s owner bytes late) : Made s owner bytes late' := by
  obtain ⟨trace, hrun, hbegan, hreports, -⟩ := h
  refine (hdevoted.keep (P := Made s owner bytes) ?_ hmade hrun hbegan fun k hk =>
    ((hreports k).1 hk).1).2
  exact fun t u ht hgrown hchange => ht.change hgrown hchange

/-- **Installing before a definition and after it agree**, if patching asks about no type whose
answer depends on whether the owner is loaded. Whatever else is loaded, the owner ends with the same
bytes when call sites of it are installed and it is defined then, and when it is defined and they
are installed then. -/
theorem either_order (h : Reachable config s) (hdone : s.Finished)
    (hnew : Table.get? owner s.host.loaded = none)
    (hinstalls : Installs owner members s early) (hdefines' : Defines owner bytes early early')
    (hdefines : Defines owner bytes s late) (hinstalls' : Installs owner members late late')
    (hindifferent : s.agent.Indifferent s.host.supertypeTable owner (early.agent.listed owner)
      bytes) :
    ∃ current, early'.host.currentBytes? owner = some current ∧
      late'.host.currentBytes? owner = some current := by
  have hdevoted : Devoted owner s := devoted_of_finished (tracked_of_reachable h) hdone owner
  -- defined first: the owner is made on a host in between
  have hdefined : late.Finished := hdefines.finished hdone
  have hreachable : Reachable config late := h.run hdefines.1
  have hdevoted' : Devoted owner late :=
    devoted_of_finished (tracked_of_reachable hreachable) hdefined owner
  have hmade : Made s owner bytes late' :=
    hinstalls'.made hdevoted' (hdefines.made hdone.defining hnew)
  -- installed first: the definition is the only one to patch, on the host as it was
  obtain ⟨hgrown, hhost⟩ := hinstalls.host_eq hdevoted hnew
  obtain ⟨trace, hrun, hbegan, hreports, hfinished⟩ := hinstalls
  obtain ⟨trace', hrun', hbegan', hreports', hfinished'⟩ := hinstalls'
  obtain ⟨names, a', hlisted, -, rfl⟩ := hdefines'.spec hfinished.defining
  have hcongr (member : String) :
      member ∈ early.agent.listed owner ↔ member ∈ late'.agent.listed owner := by
    refine listed_congr h hrun (hdefines.1.trans hrun') hfinished.staging hfinished'.staging
      (fun k hk => ((hreports k).1 hk).1) fun k => ?_
    exact (hreports k).trans (hreports' k).symm
  have houtcome : early.agent.outcome early.host.supertypeTable owner names bytes =
      s.agent.outcome s.host.supertypeTable owner (early.agent.listed owner) bytes := by
    rw [hgrown.outcome_eq, hhost, Agent.outcome_congr fun _ => hlisted.mem_iff]
  refine ⟨_, ?_, hmade.currentBytes?_eq (tracked_of_reachable (hreachable.run hrun'))
    hfinished'.round hnew hcongr hindifferent⟩
  rw [currentBytes?_load, houtcome]

end Rollout

/-! ## A cache that is also a store -/

namespace Cached

open Rollout

/-- Calls on a cache go by what the host's owners declare. -/
def agent : Agent :=
  .fresh .default true

/-- A member that puts into a cache. -/
def copy : Member where
  name := "copy"
  desc := "(cache,key,value)->void"
  access := .pub
  code := [.load 1, .load 2, .load 3, .invoke .virtual "acme/Cache" Store.put Store.putDesc, .pop,
    .ret]

/-- The type that puts into a cache. -/
def artifact (name : String) (supertypes : List String) : Artifact where
  name := name
  supertypes := supertypes
  members := [copy]

/-- The type with the call patched. -/
def patched (name : String) (supertypes : List String) : Artifact where
  name := name
  supertypes := supertypes
  members := [{ copy with
    code := [.load 1, .load 2, .load 3] ++
      StorePut.replacement ⟨.virtual, "acme/Cache"⟩ true 0 1 ++ [.ret] }]

/-- The report of the call. -/
def site (owner : String) : CallSite :=
  .ofCaller { owner, member := "copy", native := false }

variable {name : String} {supertypes : List String} {bytes final : Bytes} {table : Supertypes}

/-- The call is patched where a cache is known to have the capability. -/
theorem patch_copy (scope : Scope) :
    (artifact name supertypes).patch scope ["copy"] =
      .ok (if scope.capable "acme/Cache" then (patched name supertypes, 1)
        else (artifact name supertypes, 0)) := by
  have hagree : scope.AgreeOn ⟨scope.interfaces, fun _ => scope.capable "acme/Cache"⟩
      ((artifact name supertypes).putTypes ["copy"]) := by
    refine ⟨rfl, fun type htype => ?_⟩
    have honly : (artifact name supertypes).putTypes ["copy"] = ["acme/Cache"] := rfl
    rw [honly] at htype
    rw [List.mem_singleton.1 htype]
  rw [Artifact.patch_congr_capable hagree]
  cases scope.capable "acme/Cache" <;> rfl

theorem outcome_copy (hdecode : Artifact.decode bytes = .ok (artifact name supertypes))
    (hencode : (patched name supertypes).encode = .ok final) :
    agent.outcome table name ["copy"] bytes =
      if table.reaches Store.marker "acme/Cache" then final else bytes := by
  have hpatch : (artifact name supertypes).patch (agent.scope table) ["copy"] =
      .ok (if table.reaches Store.marker "acme/Cache" then (patched name supertypes, 1)
        else (artifact name supertypes, 0)) := patch_copy _
  have hbase : agent.config.extendBase name bytes = .ok bytes := rfl
  rw [Agent.outcome, AgentConfig.treat_of_ok hbase, if_neg (List.cons_ne_nil _ _)]
  cases hreaches : table.reaches Store.marker "acme/Cache" with
  | false =>
    rw [hreaches] at hpatch
    have hp : patchCallSites (agent.scope table) ["copy"] bytes = .ok ⟨bytes, 0⟩ :=
      patchCallSites_eq_ok_iff.2 ⟨_, hdecode, _, 0, hpatch, .inl ⟨rfl, rfl⟩⟩
    rw [hp]
    rfl
  | true =>
    rw [hreaches] at hpatch
    have hp : patchCallSites (agent.scope table) ["copy"] bytes = .ok ⟨final, 1⟩ :=
      patchCallSites_eq_ok_iff.2 ⟨_, hdecode, _, 1, hpatch,
        .inr ⟨Nat.one_ne_zero, final, hencode, rfl⟩⟩
    rw [hp]
    rfl

/-- A host, and the agent. -/
def deployment (host : Host) (a : Agent) : Deployment :=
  { Deployment.empty with host, agents := [a] }

/-- The agent when it has taken the call on. -/
def tookOn (owner : String) : Agent :=
  (agent.report (site owner)).1.handOver.1

theorem alone (host : Host) (a : Agent) : (deployment host a).Alone a :=
  ⟨rfl, rfl⟩

/-- What a report leads to, once the coordinator has taken it on. -/
theorem report_eq {host : Host} {owner : String} {due : List String}
    (hfresh : (agent.report (site owner)).2 = .ok true)
    (hstaged : (agent.report (site owner)).1.staging.isEmpty = false)
    (hdue : (deployment host (tookOn owner)).affected (agent.report (site owner)).1.handOver.2 =
      due) :
    ((deployment host agent).report 0 (site owner)).1 =
      due.foldl (Deployment.request 0) (deployment host (tookOn owner)) := by
  rw [← hdue]
  exact (alone host agent).report_of_fresh hfresh hstaged

/-- The cache is loaded, and nothing else. -/
def host (bytes : Bytes) : Host :=
  Host.empty.load "acme/Cache" bytes bytes

theorem supertypeTable_host (hdecode : Artifact.decode bytes = .ok (artifact name supertypes)) :
    (host bytes).supertypeTable = [("acme/Cache", supertypes)] := by
  have hdeclared : Host.declaredBy bytes = supertypes := by
    rw [Host.declaredBy, hdecode]
    rfl
  rw [← hdeclared]
  rfl

theorem exists_bytes (h : (artifact name supertypes).document.length ≤ Frame.defaultMax)
    (h' : (patched name supertypes).document.length ≤ Frame.defaultMax) :
    ∃ bytes final, Artifact.decode bytes = .ok (artifact name supertypes) ∧
      (patched name supertypes).encode = .ok final := by
  obtain ⟨bytes, hbytes⟩ := Artifact.encode_of_length_le_default h
  obtain ⟨final, hfinal⟩ := Artifact.encode_of_length_le_default h'
  exact ⟨bytes, final, Artifact.decode_encode hbytes, hfinal⟩

/-- The cache declares the marker itself. -/
theorem reaches_cache (hdecode : Artifact.decode bytes = .ok (artifact name [Store.marker])) :
    (host bytes).supertypeTable.reaches Store.marker "acme/Cache" = true := by
  rw [supertypeTable_host hdecode, Supertypes.reaches_iff]
  exact .single List.mem_cons_self

/-- Nothing is known of a cache that is not loaded. -/
theorem reaches_nil : Supertypes.reaches [] Store.marker "acme/Cache" = false := by
  simp [Supertypes.reaches, Supertypes.reachesFrom, Supertypes.of, Table.get?, Store.marker]

/-- **The two orders can differ.** A cache that declares the marker and puts into a cache is loaded
as it is when the call is installed first, and patched when it is installed later. -/
theorem orders_differ : ∃ bytes final,
    Artifact.decode bytes = .ok (artifact "acme/Cache" [Store.marker]) ∧
      Artifact.decode final = .ok (patched "acme/Cache" [Store.marker]) ∧
        (((deployment .empty agent).report 0 (site "acme/Cache")).1.define "acme/Cache"
          bytes).1.host.currentBytes? "acme/Cache" = some bytes ∧
        (((deployment .empty agent).define "acme/Cache" bytes).1.report 0
          (site "acme/Cache")).1.host.currentBytes? "acme/Cache" = some final ∧
        bytes ≠ final := by
  have hlength : (artifact "acme/Cache" [Store.marker]).document.length ≤ Frame.defaultMax := by
    decide +kernel
  have hlength' : (patched "acme/Cache" [Store.marker]).document.length ≤ Frame.defaultMax := by
    decide +kernel
  obtain ⟨bytes, final, hdecode, hencode⟩ := exists_bytes hlength hlength'
  have hfinal : Artifact.decode final = .ok (patched "acme/Cache" [Store.marker]) :=
    Artifact.decode_encode hencode
  have hfresh : (agent.report (site "acme/Cache")).2 = .ok true := by decide +kernel
  have hstaged : (agent.report (site "acme/Cache")).1.staging.isEmpty = false := by decide +kernel
  have hlisted : (tookOn "acme/Cache").listed "acme/Cache" = ["copy"] := by decide +kernel
  refine ⟨bytes, final, hdecode, hfinal, ?_, ?_, fun heq => ?_⟩
  · -- nothing is loaded that declares the marker
    have hnone : (deployment .empty (tookOn "acme/Cache")).affected
        (agent.report (site "acme/Cache")).1.handOver.2 = [] := by decide +kernel
    obtain ⟨-, hhost⟩ := (alone .empty (tookOn "acme/Cache")).define "acme/Cache" bytes
    have houtcome : agent.outcome [] "acme/Cache" ["copy"] bytes = bytes := by
      rw [outcome_copy hdecode hencode, reaches_nil]
      rfl
    rw [report_eq hfresh hstaged hnone, List.foldl_nil, hhost, currentBytes?_load, hlisted]
    exact congrArg some houtcome
  · have hdefine : ((deployment .empty agent).define "acme/Cache" bytes).1 =
        deployment (host bytes) agent := rfl
    have hdue : (deployment (host bytes) (tookOn "acme/Cache")).affected
        (agent.report (site "acme/Cache")).1.handOver.2 = ["acme/Cache"] := by
      show (((agent.report (site "acme/Cache")).1.handOver.2.ownerNames?).getD []).filter
        (Text.sort ["acme/Cache"]).contains = ["acme/Cache"]
      decide +kernel
    have hdefined : (host bytes).definitionOf "acme/Cache" = .ok bytes := rfl
    obtain ⟨a', -, -, hhost⟩ := (alone (host bytes) (tookOn "acme/Cache")).request hdefined
    have houtcome : agent.outcome (host bytes).supertypeTable "acme/Cache" ["copy"] bytes =
        final := by
      rw [outcome_copy hdecode hencode, reaches_cache hdecode]
      rfl
    rw [hdefine, report_eq hfresh hstaged hdue, List.foldl_cons, List.foldl_nil, hhost, hlisted]
    rw [Host.currentBytes?, get?_replace_self rfl]
    exact congrArg some houtcome
  · rw [heq, hfinal] at hdecode
    exact absurd (Except.ok.inj hdecode) (by decide +kernel)

/-- Orders that put into the cache ask about no other type. -/
theorem indifferent (hdecode : Artifact.decode bytes = .ok (artifact name [Store.marker]))
    {orders : Bytes} (horders : Artifact.decode orders = .ok (artifact "acme/Orders" []))
    (names : List String) :
    agent.Indifferent (host bytes).supertypeTable "acme/Orders" names orders := by
  intro extended a hextended ha type htype
  obtain rfl : orders = extended := Except.ok.inj hextended
  obtain rfl : artifact "acme/Orders" [] = a := Except.ok.inj (horders.symm.trans ha)
  have hcache : type = "acme/Cache" := by
    obtain ⟨m, hm, hput⟩ := List.mem_flatMap.1 htype
    obtain rfl : m = copy := List.mem_singleton.1 (List.mem_filter.1 hm).1
    exact List.mem_singleton.1 hput
  have hafter : Supertypes.reaches
      (Table.put "acme/Orders" [] [("acme/Cache", [Store.marker])]) Store.marker "acme/Cache" =
        true := Supertypes.reaches_iff.2 (.single List.mem_cons_self)
  rw [hcache]
  show (host bytes).supertypeTable.reaches Store.marker "acme/Cache" =
    Supertypes.reaches (Table.put "acme/Orders" [] (host bytes).supertypeTable) Store.marker
      "acme/Cache"
  rw [reaches_cache hdecode, supertypeTable_host hdecode, hafter]

/-- The definition of orders patches the call that was installed before. -/
theorem currentBytes?_define
    (hdecode : Artifact.decode bytes = .ok (artifact "acme/Cache" [Store.marker]))
    {orders : Bytes} (horders : Artifact.decode orders = .ok (artifact "acme/Orders" []))
    (hencode : (patched "acme/Orders" []).encode = .ok final) :
    (((deployment (host bytes) agent).report 0 (site "acme/Orders")).1.define "acme/Orders"
      orders).1.host.currentBytes? "acme/Orders" = some final := by
  have hfresh : (agent.report (site "acme/Orders")).2 = .ok true := by decide +kernel
  have hstaged : (agent.report (site "acme/Orders")).1.staging.isEmpty = false := by
    decide +kernel
  have hlisted : (tookOn "acme/Orders").listed "acme/Orders" = ["copy"] := by decide +kernel
  have hnone : (deployment (host bytes) (tookOn "acme/Orders")).affected
      (agent.report (site "acme/Orders")).1.handOver.2 = [] := by
    show (((agent.report (site "acme/Orders")).1.handOver.2.ownerNames?).getD []).filter
      (Text.sort ["acme/Cache"]).contains = []
    decide +kernel
  have houtcome : agent.outcome (host bytes).supertypeTable "acme/Orders" ["copy"] orders =
      final := by
    rw [outcome_copy horders hencode, reaches_cache hdecode]
    rfl
  obtain ⟨-, hhost⟩ := (alone (host bytes) (tookOn "acme/Orders")).define "acme/Orders" orders
  rw [report_eq hfresh hstaged hnone, List.foldl_nil, hhost, currentBytes?_load, hlisted]
  exact congrArg some houtcome

/-- Orders are patched the same, whether their call into the cache is installed before they are
defined or after it. -/
theorem either_order_orders : ∃ cache orders final,
    Artifact.decode cache = .ok (artifact "acme/Cache" [Store.marker]) ∧
      Artifact.decode orders = .ok (artifact "acme/Orders" []) ∧
        Artifact.decode final = .ok (patched "acme/Orders" []) ∧
          (((deployment (host cache) agent).report 0 (site "acme/Orders")).1.define "acme/Orders"
            orders).1.host.currentBytes? "acme/Orders" = some final ∧
          (((deployment (host cache) agent).define "acme/Orders" orders).1.report 0
            (site "acme/Orders")).1.host.currentBytes? "acme/Orders" = some final := by
  have hlength : (artifact "acme/Cache" [Store.marker]).document.length ≤ Frame.defaultMax := by
    decide +kernel
  have hlength' : (artifact "acme/Orders" []).document.length ≤ Frame.defaultMax := by
    decide +kernel
  have hlength'' : (patched "acme/Orders" []).document.length ≤ Frame.defaultMax := by
    decide +kernel
  obtain ⟨cache, hcache⟩ := Artifact.encode_of_length_le_default hlength
  obtain ⟨orders, final, horders, hfinal⟩ := exists_bytes hlength' hlength''
  have hdecode := Artifact.decode_encode hcache
  refine ⟨cache, orders, final, hdecode, horders, Artifact.decode_encode hfinal, ?_⟩
  have hreachable : Reachable .default (start (host cache) agent) :=
    ⟨host cache, true, agent, [], rfl, .refl _⟩
  have hsettled : (deployment (host cache) agent).Settled (start (host cache) agent) :=
    ⟨alone _ _, rfl, ⟨rfl, rfl, rfl⟩, EntryIndex.atRest_empty _, EntryIndex.atRest_empty _, rfl⟩
  -- the run of the report and then the definition, and the other way round
  obtain ⟨trace, early, hreport, hearly, hreports, hbegan⟩ :=
    hsettled.runs_reports [site "acme/Orders"]
  obtain ⟨early', hdefine, hearly', hdefined⟩ := hearly.runs_define "acme/Orders" orders
  obtain ⟨late, hdefine', hlate, hdefined'⟩ := hsettled.runs_define "acme/Orders" orders
  obtain ⟨trace', late', hreport', hlate', hreports', hbegan'⟩ :=
    hlate.runs_reports [site "acme/Orders"]
  have hentries (k : EntryKey) :
      k ∈ [site "acme/Orders"].flatMap CallSite.entries ↔
        k.owner = "acme/Orders" ∧ k.member ∈ ["copy"] := by
    obtain ⟨owner, member⟩ := k
    show ⟨owner, member⟩ ∈ [EntryKey.mk "acme/Orders" "copy"] ↔ _
    simp
  have hinstalls : Installs "acme/Orders" ["copy"] (start (host cache) agent) early :=
    ⟨trace, hreport, hbegan, fun k => hreports ▸ hentries k, hearly.finished⟩
  have hinstalls' : Installs "acme/Orders" ["copy"] late late' :=
    ⟨trace', hreport', hbegan', fun k => hreports' ▸ hentries k, hlate'.finished⟩
  obtain ⟨current, hcurrent, hcurrent'⟩ := either_order hreachable hsettled.finished rfl hinstalls
    ⟨hdefine, hdefined⟩ ⟨hdefine', hdefined'⟩ hinstalls' (indifferent hdecode horders _)
  rw [hearly'.host] at hcurrent
  rw [hlate'.host] at hcurrent'
  have hpatched := currentBytes?_define hdecode horders hfinal
  obtain rfl : final = current := Option.some.inj (hpatched.symm.trans hcurrent)
  exact ⟨hcurrent, hcurrent'⟩

end Cached

end CallPatch
