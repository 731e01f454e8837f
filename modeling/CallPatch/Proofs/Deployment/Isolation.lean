import CallPatch.Proofs.Deployment.Serial
import CallPatch.Proofs.Host.Inheritance
import CallPatch.Proofs.Index.Difference
/-!
# Deployments — a request that fails is nobody else's matter

A coordinator asks its host once for every loaded owner of the difference. A request may
be fulfilled or fail, and the host may break down on it; in the last two cases one failure
is counted, and the next owner has its turn all the same. That is so whatever the host does
(`Runtime`), and a deployment is one of these hosts (`Deployment.runtime`).

The host of a deployment keeps what an owner runs when a request for it fails. What the
other owners run then is what they would run if nobody had been refused, as long as no
transformation of a refused owner would have made it declare other supertypes: owners see
of each other what they declare, and nothing else (`Deployment.Agrees`). All of it holds in
whatever order the owners are asked for (`requests_isolated`).
-/

namespace CallPatch

/-! ## Requests to any host -/

/-- What comes of a request. -/
inductive Reply where
  | done
  | failed (cause : HostError)
  /-- The host broke down on it. -/
  | brokeDown
  deriving DecidableEq, Repr

/-- A host that does not break down says how it went. -/
def Reply.ofResult : Except HostError Unit → Reply
  | .ok () => .done
  | .error cause => .failed cause

/-- A host as a coordinator sees it, whatever its states are. It may call the agent back, any number
of times, but to count requests is up to the coordinator. -/
structure Runtime (σ : Type) where
  loadedOwners : σ → List String
  retransform : String → σ → Agent → (σ × Agent) × Reply
  uncounted : ∀ owner host a,
    (retransform owner host a).1.2.pipeline.requestFailures = a.pipeline.requestFailures

/-- A host and its agent while owners are being asked for, with what was asked so far. -/
structure Requests (σ : Type) where
  host : σ
  agent : Agent
  calls : List (String × Reply)

namespace Runtime

variable {σ : Type} {rt : Runtime σ} {s : Requests σ} {owners : List String}

/-- Asks the host to retransform one owner. Unless it does, a failure is counted. -/
def request (rt : Runtime σ) (s : Requests σ) (owner : String) : Requests σ :=
  let ((host, agent), reply) := rt.retransform owner s.host s.agent
  { host
    agent := if reply = .done then agent else agent.countRequestFailure
    calls := s.calls ++ [(owner, reply)] }

/-- Asks the host for those of the owners that are loaded, in the order given. -/
def requestAll (rt : Runtime σ) (names : List String) (host : σ) (a : Agent) : Requests σ :=
  (names.filter (rt.loadedOwners host).contains).foldl rt.request ⟨host, a, []⟩

/-- Each of the owners is asked for in turn, whatever came of the requests before. -/
theorem calls_requests (rt : Runtime σ) (s : Requests σ) (owners : List String) :
    (owners.foldl rt.request s).calls.map Prod.fst = s.calls.map Prod.fst ++ owners := by
  induction owners generalizing s with
  | nil => exact (List.append_nil _).symm
  | cons owner owners ih =>
    have hcalls : (rt.request s owner).calls.map Prod.fst = s.calls.map Prod.fst ++ [owner] :=
      List.map_append
    rw [List.foldl_cons, ih, hcalls, List.append_assoc]
    rfl

/-- So many failures were counted as requests were not fulfilled. -/
def Counted (before : Nat) (s : Requests σ) : Prop :=
  s.agent.pipeline.requestFailures = before + s.calls.countP fun call => call.2 ≠ .done

theorem Counted.request {before : Nat} (h : Counted before s) (owner : String) :
    Counted before (rt.request s owner) := by
  have hsame := rt.uncounted owner s.host s.agent
  unfold Counted at h ⊢
  unfold Runtime.request
  dsimp only
  rw [List.countP_append, List.countP_singleton, ← Nat.add_assoc, ← h, ← hsame]
  by_cases hdone : (rt.retransform owner s.host s.agent).2 = .done
  · rw [if_pos hdone, if_neg (by simp [hdone])]
    rfl
  · rw [if_neg hdone, if_pos (by simp [hdone])]
    rfl

theorem Counted.requests {before : Nat} (h : Counted before s) (owners : List String) :
    Counted before (owners.foldl rt.request s) := by
  induction owners generalizing s with
  | nil => exact h
  | cons owner owners ih => exact ih (h.request owner)

/-- What is asked of a host for a difference, and what is counted. -/
structure AsksForAll (rt : Runtime σ) (difference : EntryIndex) (host : σ) (a : Agent)
    (s : Requests σ) : Prop where
  once : (s.calls.map Prod.fst).Nodup
  asked : ∀ owner, owner ∈ s.calls.map Prod.fst ↔
    (∃ member, ⟨owner, member⟩ ∈ difference.pending) ∧ owner ∈ rt.loadedOwners host
  counted : s.agent.pipeline.requestFailures =
    a.pipeline.requestFailures + s.calls.countP fun call => call.2 ≠ .done

/-- **Every loaded owner of the difference is asked for once**, and nobody else. -/
theorem asksForAll (rt : Runtime σ) {difference : EntryIndex} (h : difference.Collected)
    {names : List String} (hnames : names.Perm (difference.ownerNames?.getD [])) (host : σ)
    (a : Agent) : rt.AsksForAll difference host a (rt.requestAll names host a) := by
  obtain ⟨hnodup, hmem⟩ := h.ownerNames
  have hcalls : (rt.requestAll names host a).calls.map Prod.fst =
      names.filter (rt.loadedOwners host).contains := rt.calls_requests ⟨host, a, []⟩ _
  constructor
  case once =>
    rw [hcalls]
    exact (hnames.nodup_iff.2 hnodup).filter _
  case asked =>
    intro owner
    rw [hcalls, List.mem_filter, hnames.mem_iff, hmem, List.contains_iff_mem]
  case counted =>
    have hstart : Counted a.pipeline.requestFailures (⟨host, a, []⟩ : Requests σ) := rfl
    exact hstart.requests _

end Runtime

/-! ## What hosts and agents go by -/

namespace Host

variable {h h' : Host} {owner : String}

/-- The host refuses to retransform the owner. -/
def Refuses (h : Host) (owner : String) : Prop :=
  ∃ reason, Table.get? owner h.refusals = some reason

theorem not_refuses (hnobody : h.refusals = []) (owner : String) : ¬ h.Refuses owner := by
  rintro ⟨reason, hreason⟩
  rw [hnobody] at hreason
  cases hreason

theorem definitionOf_of_refuses (hrefuses : h.Refuses owner) :
    ∃ cause, h.definitionOf owner = .error cause := by
  obtain ⟨reason, hreason⟩ := hrefuses
  exact ⟨.refused owner reason, by rw [definitionOf, hreason]⟩

theorem definitionOf_of_not_refuses (haccepted : ¬ h.Refuses owner) :
    h.definitionOf owner =
      match Table.get? owner h.loaded with
      | none => .error (.notLoaded owner)
      | some l => .ok l.defined := by
  unfold definitionOf
  split
  · next reason hreason => exact absurd ⟨reason, hreason⟩ haccepted
  · rfl

theorem supertypes_congr (hsame : Table.get? owner h.loaded = Table.get? owner h'.loaded) :
    h.supertypes owner = h'.supertypes owner := by
  rw [supertypes, supertypes, of_supertypeTable, of_supertypeTable, hsame]

end Host

namespace Agent

theorem requestFailures_transform (a : Agent) (supertypes : Supertypes) (owner : String)
    (bytes : Bytes) :
    (a.transform supertypes owner bytes).1.pipeline.requestFailures =
      a.pipeline.requestFailures := by
  have htries := a.tries_tryTransform supertypes owner bytes
  unfold transform
  generalize a.tryTransform supertypes owner bytes = tried at htries
  cases htries with
  | notExtended _ => rfl
  | notPatched _ _ => rfl
  | done _ _ =>
    dsimp only
    unfold noting
    split
    · rfl
    · split <;> rfl

/-- Agents that differ in what they noted make the same of the bytes, where the same is declared. -/
theorem outcome_eq_of_annotates {base a b : Agent} {table table' : Supertypes}
    (ha : base.Annotates a) (hb : base.Annotates b)
    (htable : ∀ type, table'.of type = table.of type) (owner : String) (bytes : Bytes) :
    b.outcome table' owner (b.listed owner) bytes =
      a.outcome table owner (a.listed owner) bytes := by
  have hscope : base.scope table' = base.scope table := by
    unfold scope
    cases base.seesSupertypes with
    | true => exact congrArg _ (funext fun type => Supertypes.reaches_congr htable)
    | false => rfl
  obtain ⟨timeline, pipeline, rfl⟩ := ha
  obtain ⟨timeline', pipeline', rfl⟩ := hb
  show base.outcome table' owner (base.listed owner) bytes =
    base.outcome table owner (base.listed owner) bytes
  rw [outcome, outcome, hscope]

/-- To patch bytes does not change what they declare. -/
theorem declaredBy_outcome_of_not_base {a : Agent} {owner : String}
    (h : a.config.isBaseImplementation owner = false) (supertypes : Supertypes)
    (names : List String) (bytes : Bytes) :
    Host.declaredBy (a.outcome supertypes owner names bytes) = Host.declaredBy bytes := by
  have hextended : a.config.extendBase owner bytes = .ok bytes := if_neg (by simp [h])
  unfold outcome
  split
  · next treated htreated => exact AgentConfig.declaredBy_of_treat hextended htreated
  · rfl

end Agent

namespace Deployment

variable {d e : Deployment} {n : Nat} {a : Agent} {owner : String} {names owners : List String}

/-! ## A deployment as a host -/

/-- A retransformation counts no requests. -/
theorem requestFailures_retransform (d : Deployment) (n : Nat) (owner : String) (a : Agent) :
    ((((d.setAgent n a).retransform n owner).1.agent? n).getD a).pipeline.requestFailures =
      a.pipeline.requestFailures := by
  have hput := d.getD_agent?_setAgent n a
  generalize d.setAgent n a = d at hput
  unfold retransform
  split
  · rw [hput]
  · next defined _ =>
    show ((((d.transformBy n owner defined).1.agent? n).getD a).pipeline).requestFailures = _
    rcases hagent : d.agent? n with - | b
    · rw [transformBy_of_none hagent, hput]
    · obtain rfl : b = a := by rwa [hagent] at hput
      rw [agent?_transformBy hagent, if_pos rfl]
      exact Agent.requestFailures_transform ..

/-- A deployment as the host of one of its agents. -/
def runtime (n : Nat) : Runtime Deployment where
  loadedOwners d := d.host.loadedOwners
  retransform owner d a :=
    if d.breakdowns.contains (n, owner) then ((d, a), .brokeDown)
    else
      let (d, result) := (d.setAgent n a).retransform n owner
      ((d, (d.agent? n).getD a), .ofResult result)
  uncounted owner d a := by
    split
    · rfl
    · exact requestFailures_retransform ..

/-- The deployment while its agent asks for owners. -/
def ofRequests (n : Nat) (s : Requests Deployment) : Deployment :=
  s.host.setAgent n s.agent

/-- To ask that host for an owner is a request of the deployment. -/
theorem request_ofRequests (n : Nat) (s : Requests Deployment) (owner : String) :
    request n (ofRequests n s) owner = ofRequests n ((runtime n).request s owner) := by
  have hput := s.host.getD_agent?_setAgent n s.agent
  unfold request Runtime.request ofRequests runtime
  by_cases hbroken : s.host.breakdowns.contains (n, owner) = true
  · have hbroken' : (s.host.setAgent n s.agent).breakdowns.contains (n, owner) = true := hbroken
    rw [if_pos hbroken']
    dsimp only
    rw [if_pos hbroken, modifyAgent_eq _ _ _ s.agent, hput, setAgent_setAgent]
    rfl
  · have hbroken' : ¬ (s.host.setAgent n s.agent).breakdowns.contains (n, owner) = true := hbroken
    rw [if_neg hbroken']
    dsimp only
    rw [if_neg hbroken]
    rcases (s.host.setAgent n s.agent).retransform n owner with ⟨d, cause | -⟩
    · exact modifyAgent_eq ..
    · exact (setAgent_getD ..).symm

theorem requests_ofRequests (n : Nat) (s : Requests Deployment) (owners : List String) :
    owners.foldl (request n) (ofRequests n s) =
      ofRequests n (owners.foldl (runtime n).request s) := by
  induction owners generalizing s with
  | nil => rfl
  | cons owner owners ih =>
    rw [List.foldl_cons, List.foldl_cons, request_ofRequests, ih]

/-- Asks the host for those of the owners that are loaded, in the order given. -/
def requestEach (d : Deployment) (n : Nat) (names : List String) : Deployment :=
  (names.filter d.host.loadedOwners.contains).foldl (request n) d

/-- What a coordinator takes on has come about by reports. -/
theorem collected_takeOn (d : Deployment) (n : Nat) : (d.takeOn n).2.Collected := by
  unfold takeOn
  split
  · exact .staging
  · exact EntryIndex.collected_receiveAll ..

/-- It then asks in the order in which the difference lists the owners. -/
theorem requestAll_eq (d : Deployment) (n : Nat) (difference : EntryIndex) :
    d.requestAll n difference = d.requestEach n (difference.ownerNames?.getD []) :=
  rfl

theorem requestEach_eq (h : d.agent? n = some a) (names : List String) :
    d.requestEach n names = ofRequests n ((runtime n).requestAll names d a) := by
  have hput : ofRequests n ⟨d, a, []⟩ = d := by
    have hsame := d.setAgent_getD n a
    rwa [h] at hsame
  have hrun := requests_ofRequests n ⟨d, a, []⟩ (names.filter d.host.loadedOwners.contains)
  rwa [hput] at hrun

/-! ## What a request leaves alone -/

/-- The host breaks down on requests for the owner, or refuses it. -/
def TurnsDown (d : Deployment) (n : Nat) (owner : String) : Prop :=
  (n, owner) ∈ d.breakdowns ∨ d.host.Refuses owner

/-- Requests are turned down as before. -/
theorem settings_request (n : Nat) (d : Deployment) (owner : String) :
    (request n d owner).breakdowns = d.breakdowns ∧
      (request n d owner).host.refusals = d.host.refusals := by
  rcases request_cases n d owner with hsame | ⟨-, defined, -, hreplaced⟩
  · rw [hsame]
    exact ⟨rfl, rfl⟩
  · rw [hreplaced]
    exact ⟨breakdowns_transformBy .., refusals_replace ..⟩

theorem refuses_request {o : String} :
    (request n d owner).host.Refuses o ↔ d.host.Refuses o := by
  unfold Host.Refuses
  rw [(settings_request n d owner).2]

theorem refuses_requests {o : String} :
    (owners.foldl (request n) d).host.Refuses o ↔ d.host.Refuses o := by
  induction owners generalizing d with
  | nil => exact Iff.rfl
  | cons owner owners ih => exact ih.trans refuses_request

theorem turnsDown_request {o : String} :
    (request n d owner).TurnsDown n o ↔ d.TurnsDown n o := by
  unfold TurnsDown
  rw [(settings_request n d owner).1, refuses_request]

/-- A request changes what one owner runs, and not even that if it is turned down. -/
theorem get?_request {o : String} (h : o ≠ owner ∨ d.TurnsDown n o) :
    Table.get? o (request n d owner).host.loaded = Table.get? o d.host.loaded := by
  rcases request_cases n d owner with hsame | ⟨hbroken, defined, hdefined, hreplaced⟩
  · rw [hsame]
    rfl
  · have hne : o ≠ owner := by
      rintro rfl
      rcases h with hne | hturned | hrefused
      · exact hne rfl
      · exact hbroken hturned
      · obtain ⟨cause, hcause⟩ := Host.definitionOf_of_refuses hrefused
        rw [hcause] at hdefined
        cases hdefined
    rw [hreplaced]
    exact Rollout.get?_replace_of_ne hne ..

/-- Nor do requests one after another. -/
theorem get?_requests (h : owner ∉ owners ∨ d.TurnsDown n owner) :
    Table.get? owner (owners.foldl (request n) d).host.loaded =
      Table.get? owner d.host.loaded := by
  induction owners generalizing d with
  | nil => rfl
  | cons first owners ih =>
    have hfirst : owner ≠ first ∨ d.TurnsDown n owner :=
      h.imp_left fun hnot => List.ne_of_not_mem_cons hnot
    have hrest : owner ∉ owners ∨ (request n d first).TurnsDown n owner :=
      h.imp (fun hnot => List.not_mem_of_not_mem_cons hnot) turnsDown_request.2
    rw [List.foldl_cons, ih hrest, get?_request hfirst]

/-! ## With and without refusals -/

/-- Two deployments that an agent asks for the same owners, the second of which refuses nobody. They
agree but for what the refused owners run. -/
structure Agrees (n : Nat) (d e : Deployment) : Prop where
  breakdowns : e.breakdowns = d.breakdowns
  accepting : e.host.refusals = []
  agents : ∃ base a b, d.agent? n = some a ∧ e.agent? n = some b ∧
    Agent.Annotates base a ∧ Agent.Annotates base b
  supertypes : ∀ owner, e.host.supertypes owner = d.host.supertypes owner
  entries : ∀ owner, ¬ d.host.Refuses owner →
    Table.get? owner e.host.loaded = Table.get? owner d.host.loaded

/-- Whoever is not refused comes to run the same in both. -/
theorem Agrees.get?_request_self (h : Agrees n d e) (haccepted : ¬ d.host.Refuses owner) :
    Table.get? owner (request n e owner).host.loaded =
      Table.get? owner (request n d owner).host.loaded := by
  have hentry := h.entries owner haccepted
  by_cases hbroken : (n, owner) ∈ d.breakdowns
  · have hbroken' : (n, owner) ∈ e.breakdowns := h.breakdowns ▸ hbroken
    rw [get?_request (.inr (.inl hbroken)), get?_request (.inr (.inl hbroken')), hentry]
  · have hbroken' : (n, owner) ∉ e.breakdowns := h.breakdowns ▸ hbroken
    have hdefined := Host.definitionOf_of_not_refuses haccepted
    have hdefined' :=
      Host.definitionOf_of_not_refuses (Host.not_refuses h.accepting owner)
    rw [hentry] at hdefined'
    rcases hl : Table.get? owner d.host.loaded with - | l
    · rw [hl] at hdefined hdefined'
      rw [request_of_failed (.inr ⟨_, hdefined⟩), request_of_failed (.inr ⟨_, hdefined'⟩)]
      exact hentry
    · obtain ⟨base, a, b, ha, hb, hbase, hbase'⟩ := h.agents
      rw [hl] at hdefined hdefined' hentry
      rw [host_request ha hbroken hdefined, host_request hb hbroken' hdefined',
        Rollout.get?_replace_self hl, Rollout.get?_replace_self hentry,
        Agent.outcome_eq_of_annotates hbase hbase' h.supertypes]

/-- A request for any owner keeps it, if a refused one goes on declaring what it declared. -/
theorem Agrees.request (h : Agrees n d e)
    (hkept : d.host.Refuses owner →
      (request n e owner).host.supertypes owner = e.host.supertypes owner) :
    Agrees n (request n d owner) (request n e owner) := by
  constructor
  case breakdowns => rw [(settings_request ..).1, (settings_request ..).1, h.breakdowns]
  case accepting => rw [(settings_request ..).2, h.accepting]
  case agents =>
    obtain ⟨base, a, b, ha, hb, hbase, hbase'⟩ := h.agents
    obtain ⟨a', ha', hnoted⟩ := annotates_request ha owner
    obtain ⟨b', hb', hnoted'⟩ := annotates_request hb owner
    exact ⟨base, a', b', ha', hb', hbase.trans hnoted, hbase'.trans hnoted'⟩
  case supertypes =>
    intro o
    by_cases ho : o = owner
    · subst ho
      by_cases hrefuses : d.host.Refuses o
      · have hturned : d.TurnsDown n o := .inr hrefuses
        rw [hkept hrefuses, h.supertypes, Host.supertypes_congr (get?_request (.inr hturned))]
      · exact Host.supertypes_congr (h.get?_request_self hrefuses)
    · rw [Host.supertypes_congr (get?_request (.inl ho)), h.supertypes,
        Host.supertypes_congr (get?_request (.inl ho))]
  case entries =>
    intro o haccepted
    rw [refuses_request] at haccepted
    by_cases ho : o = owner
    · subst ho
      exact h.get?_request_self haccepted
    · rw [get?_request (.inl ho), get?_request (.inl ho), h.entries o haccepted]

/-- And so do requests one after another. -/
theorem Agrees.requests (h : Agrees n d e) (hnodup : owners.Nodup)
    (hkept : ∀ owner ∈ owners, d.host.Refuses owner →
      (owners.foldl (Deployment.request n) e).host.supertypes owner = e.host.supertypes owner) :
    Agrees n (owners.foldl (Deployment.request n) d) (owners.foldl (Deployment.request n) e) := by
  induction owners generalizing d e with
  | nil => exact h
  | cons first owners ih =>
    obtain ⟨hfirst, hnodup⟩ := List.nodup_cons.1 hnodup
    refine ih (h.request fun hrefuses => ?_) hnodup fun owner howner hrefuses => ?_
    · -- nobody touches the first owner again
      rw [← hkept first List.mem_cons_self hrefuses, List.foldl_cons]
      exact (Host.supertypes_congr (get?_requests (.inl hfirst))).symm
    · have hne : owner ≠ first := fun heq => hfirst (heq ▸ howner)
      have hsame : (Deployment.request n e first).host.supertypes owner = e.host.supertypes owner :=
        Host.supertypes_congr (get?_request (.inl hne))
      rw [hsame]
      exact hkept owner (List.mem_cons_of_mem _ howner) (refuses_request.1 hrefuses)

/-- The deployment as it would be if its host refused nobody. -/
def accepting (d : Deployment) : Deployment :=
  { d with host := { d.host with refusals := [] } }

/-- When an agent asks for the owners of a difference in some order, to refuse an owner is the
matter of that owner alone. -/
structure Isolates (d : Deployment) (n : Nat) (difference : EntryIndex) (names : List String) :
    Prop where
  /-- An owner whose request is turned down keeps what it had. -/
  refused : ∀ owner, d.TurnsDown n owner →
    Table.get? owner (d.requestEach n names).host.loaded = Table.get? owner d.host.loaded
  /-- Every other owner fares as if nobody had been refused, unless a refused owner would have come
  to declare something else. -/
  others : (∀ owner ∈ names, d.host.Refuses owner →
      (d.accepting.requestEach n names).host.supertypes owner = d.host.supertypes owner) →
    ∀ owner, ¬ d.host.Refuses owner →
      Table.get? owner (d.requestEach n names).host.loaded =
        Table.get? owner (d.accepting.requestEach n names).host.loaded
  /-- An owner that is not asked for keeps what it had. -/
  outside : ∀ owner,
    ¬ ((∃ member, ⟨owner, member⟩ ∈ difference.pending) ∧ owner ∈ d.host.loadedOwners) →
      Table.get? owner (d.requestEach n names).host.loaded = Table.get? owner d.host.loaded

theorem isolates (h : d.agent? n = some a) {difference : EntryIndex}
    (hcollected : difference.Collected) (hnames : names.Perm (difference.ownerNames?.getD [])) :
    d.Isolates n difference names := by
  obtain ⟨hnodup, hmem⟩ := hcollected.ownerNames
  constructor
  case refused => exact fun owner hturned => get?_requests (.inr hturned)
  case others =>
    intro hkept owner haccepted
    have hstart : Agrees n d d.accepting :=
      ⟨rfl, rfl, ⟨a, a, a, h, h, .refl a, .refl a⟩, fun _ => rfl, fun _ _ => rfl⟩
    have hagrees := hstart.requests ((hnames.nodup_iff.2 hnodup).filter
      d.host.loadedOwners.contains) fun o ho => hkept o (List.mem_filter.1 ho).1
    exact (hagrees.entries owner fun hrefuses => haccepted (refuses_requests.1 hrefuses)).symm
  case outside =>
    intro owner hnot
    refine get?_requests (.inl fun howner => hnot ?_)
    obtain ⟨hlisted, hloaded⟩ := List.mem_filter.1 howner
    exact ⟨(hmem owner).1 (hnames.mem_iff.1 hlisted), List.contains_iff_mem.1 hloaded⟩

/-! ## Who declares something else -/

/-- The owner declares these supertypes, and its definition does. -/
def Declares (d : Deployment) (owner : String) (declared : List String) : Prop :=
  ∃ l, Table.get? owner d.host.loaded = some l ∧ Host.declaredBy l.current = declared ∧
    Host.declaredBy l.defined = declared

theorem Declares.supertypes {declared : List String} (h : d.Declares owner declared) :
    d.host.supertypes owner = declared := by
  obtain ⟨l, hl, hcurrent, -⟩ := h
  rw [Host.supertypes, Host.of_supertypeTable, hl]
  exact hcurrent

theorem Declares.request {declared : List String} (hd : d.Declares owner declared)
    (h : d.agent? n = some a) (hbase : a.config.isBaseImplementation owner = false)
    (first : String) : (Deployment.request n d first).Declares owner declared := by
  obtain ⟨l, hl, hcurrent, hdeclared⟩ := hd
  by_cases hkept : owner ≠ first ∨ d.TurnsDown n owner
  · exact ⟨l, (get?_request hkept).trans hl, hcurrent, hdeclared⟩
  · rw [not_or, not_not] at hkept
    obtain ⟨rfl, hturned⟩ := hkept
    obtain ⟨hbroken, haccepted⟩ := not_or.1 hturned
    have hdefined := Host.definitionOf_of_not_refuses haccepted
    rw [hl] at hdefined
    have hreplaced : Table.get? owner (Deployment.request n d owner).host.loaded =
        some { l with
          current := a.outcome d.host.supertypeTable owner (a.listed owner) l.defined
          retransforms := l.retransforms + 1 } := by
      rw [host_request h hbroken hdefined, Rollout.get?_replace_self hl]
    refine ⟨_, hreplaced, ?_, hdeclared⟩
    rw [Agent.declaredBy_outcome_of_not_base hbase, hdeclared]

/-- An owner that is no base implementation declares in the end what it declared. -/
theorem Declares.requests {declared : List String} (hd : d.Declares owner declared)
    (h : d.agent? n = some a) (hbase : a.config.isBaseImplementation owner = false)
    (owners : List String) : (owners.foldl (Deployment.request n) d).Declares owner declared := by
  induction owners generalizing d a with
  | nil => exact hd
  | cons first owners ih =>
    obtain ⟨a', ha', hnoted⟩ := annotates_request h first
    refine ih (hd.request h hbase first) ha' ?_
    rw [hnoted.config_eq, hbase]

end Deployment

/-- **A request that fails is nobody else's matter.** A coordinator that has taken on a difference
asks any host once for each of the owners in it that are loaded, and for nobody else, in whatever
order, whether the requests are fulfilled, fail or break the host down, and counts those that are
not fulfilled. The requests of a deployment are those of such a host. There an owner whose request
is turned down keeps what it had, and so does an owner that is not asked for. The others fare as if
nobody had been refused, unless a refused owner would have come to declare something else. -/
theorem requests_isolated {difference : EntryIndex} (h : difference.Collected)
    {names : List String} (hnames : names.Perm (difference.ownerNames?.getD [])) :
    (∀ {σ : Type} (rt : Runtime σ) (host : σ) (a : Agent),
      rt.AsksForAll difference host a (rt.requestAll names host a)) ∧
    ∀ (d : Deployment) (n : Nat) (a : Agent), d.agent? n = some a →
      d.requestEach n names =
          Deployment.ofRequests n ((Deployment.runtime n).requestAll names d a) ∧
        d.Isolates n difference names :=
  ⟨fun rt host a => rt.asksForAll h hnames host a, fun _ _ _ hagent =>
    ⟨Deployment.requestEach_eq hagent names, Deployment.isolates hagent h hnames⟩⟩

/-! ## One of two owners is refused -/

namespace Pinned

/-- Reported for both owners. -/
def entries : List EntryKey :=
  [⟨"acme/Ledger", "record"⟩, ⟨"acme/Orders", "record"⟩]

/-- An agent that has taken both on. -/
def agent : Agent where
  config := .default
  seesSupertypes := true
  staging := .staging
  installed := (EntryIndex.installed.reportAll entries).1
  pipeline := .zero

/-- What was new to it. -/
def difference : EntryIndex :=
  (EntryIndex.staging.reportAll entries).1

/-- An owner whose member `record` puts into a store. -/
def artifact (name : String) : Artifact where
  name := name
  supertypes := ["acme/Base"]
  members := [
    { name := "record"
      desc := "(store,key)->void"
      access := .pub
      code := [.load 1, .load 2, .load 2,
        .invoke .interface Store.storeInterface Store.put Store.putDesc, .pop, .ret] }]

/-- Both owners are loaded, and `acme/Orders` is refused. -/
def deployment (bytes bytes' : Bytes) : Deployment where
  host := {
    loaded := [("acme/Ledger", ⟨bytes, bytes, 0⟩), ("acme/Orders", ⟨bytes', bytes', 0⟩)]
    refusals := [("acme/Orders", "pinned")] }
  agents := [agent]
  breakdowns := []
  disk := .empty

/-- The owner that is refused stays as it is, and the one behind it has its turn. -/
theorem requests_isolated_orders : ∃ bytes bytes',
    Artifact.decode bytes = .ok (artifact "acme/Ledger") ∧
      Artifact.decode bytes' = .ok (artifact "acme/Orders") ∧
        let d := deployment bytes bytes'
        let names := ["acme/Orders", "acme/Ledger"]
        Table.get? "acme/Orders" (d.requestEach 0 names).host.loaded = some ⟨bytes', bytes', 0⟩ ∧
          Table.get? "acme/Ledger" (d.requestEach 0 names).host.loaded =
            Table.get? "acme/Ledger" (d.accepting.requestEach 0 names).host.loaded := by
  obtain ⟨bytes, hledger⟩ :=
    Artifact.encode_of_length_le_default (a := artifact "acme/Ledger") (by decide +kernel)
  obtain ⟨bytes', horders⟩ :=
    Artifact.encode_of_length_le_default (a := artifact "acme/Orders") (by decide +kernel)
  have hcollected : difference.Collected :=
    (EntryIndex.Collected.staging.report ⟨"acme/Ledger", "record"⟩).report
      ⟨"acme/Orders", "record"⟩
  have hnames : ["acme/Orders", "acme/Ledger"].Perm (difference.ownerNames?.getD []) :=
    (List.Perm.swap ..).trans (List.mergeSort_perm ["acme/Ledger", "acme/Orders"] _).symm
  obtain ⟨-, hisolates⟩ := (requests_isolated hcollected hnames).2 (deployment bytes bytes') 0
    agent rfl
  refine ⟨bytes, bytes', Artifact.decode_encode hledger, Artifact.decode_encode horders,
    hisolates.refused "acme/Orders" (.inr ⟨"pinned", rfl⟩), hisolates.others ?_ _ ?_⟩
  · intro owner _ ⟨reason, hreason⟩
    obtain rfl : owner = "acme/Orders" := by
      by_contra hne
      simp [deployment, Table.get?, Ne.symm hne] at hreason
    have hdeclares : (deployment bytes bytes').Declares "acme/Orders" (Host.declaredBy bytes') :=
      ⟨⟨bytes', bytes', 0⟩, rfl, rfl, rfl⟩
    have hdeclares' : (deployment bytes bytes').accepting.Declares "acme/Orders"
      (Host.declaredBy bytes') := hdeclares
    rw [hdeclares.supertypes]
    exact (hdeclares'.requests rfl rfl _).supertypes
  · rintro ⟨reason, hreason⟩
    cases hreason

end Pinned

end CallPatch
