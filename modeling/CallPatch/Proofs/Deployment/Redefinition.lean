import CallPatch.Proofs.Agent.Rollout
import CallPatch.Proofs.Deployment.Requests
import Mathlib.Logic.Relation
/-!
# Deployments — redefinition while a retransformation is under way

No lock is held while transformers run. A definition takes note of the registered
transformers, runs them, and then loads the owner; a retransformation looks
whether the owner is refused, reads the bytes it was defined from, runs one
transformer over them, and then replaces what the owner runs. Calls for the same
and for different owners come between these steps as they like.

What an owner runs is always made from bytes that it was defined from once. They
are those it is defined from now, unless the retransformation that made it was
*overtaken*: the owner was loaded anew after its bytes were read and before they
were replaced (`loaded_from_definition`). That can happen, and then the owner
runs what no transformer makes of its definition (`Overtaken.not_from_definition`).

A call of a deployment is such a run with nothing between its steps, and then
nothing is overtaken (`reaches_define`, `reaches_retransform`).
-/

namespace CallPatch

/-- What the transformers may make of the bytes of an owner, by their numbers. A transformer may
look at the host and at what is installed, so the same bytes need not always come out. -/
abbrev Transformers := Nat → String → Bytes → Bytes → Prop

/-- Transformers run in turn, each over what the one before it left. -/
inductive Transformers.Chain (made : Transformers) (owner : String) :
    List Nat → Bytes → Bytes → Prop where
  | nil (bytes : Bytes) : Chain made owner [] bytes bytes
  | cons {n : Nat} {ns : List Nat} {source bytes current : Bytes}
      (first : made n owner source bytes) (rest : Chain made owner ns bytes current) :
      Chain made owner (n :: ns) source current

/-- A definition under way. -/
inductive Defining where
  /-- It goes by the transformers that were registered when it began. -/
  | begun (owner : String) (bytes : Bytes) (transformers : List Nat)
  | transformed (owner : String) (bytes : Bytes) (transformers : List Nat) (current : Bytes)
  deriving DecidableEq, Repr

/-- A retransformation under way. -/
inductive Retransforming where
  /-- The owner was not refused. -/
  | allowed (owner : String) (transformer : Nat)
  /-- The bytes are read. They are overtaken when the owner is loaded anew. -/
  | started (owner : String) (transformer : Nat) (source : Bytes) (overtaken : Bool)
  | transformed (owner : String) (transformer : Nat) (source current : Bytes) (overtaken : Bool)
  deriving DecidableEq, Repr

def Retransforming.owner : Retransforming → String
  | .allowed owner _ => owner
  | .started owner _ _ _ => owner
  | .transformed owner _ _ _ _ => owner

/-- The owner is loaded anew. -/
def Retransforming.outrun (loaded : String) : Retransforming → Retransforming
  | .allowed owner n => .allowed owner n
  | .started owner n source overtaken => .started owner n source (overtaken || owner = loaded)
  | .transformed owner n source current overtaken =>
    .transformed owner n source current (overtaken || owner = loaded)

/-- How what an owner runs was made. -/
structure Making where
  /-- The transformers that ran, in turn. -/
  transformers : List Nat
  /-- What they ran over. -/
  source : Bytes
  /-- Whether the owner was loaded anew while they did. -/
  overtaken : Bool
  deriving DecidableEq, Repr

/-- A host with the calls under way. -/
structure Traffic where
  host : Host
  /-- How many transformers are registered. -/
  registered : Nat
  defining : List Defining
  retransforming : List Retransforming
  makings : Table String Making
  deriving DecidableEq, Repr

namespace Traffic

/-- One step of a call, or a transformer is registered, or an owner refused from now on or no
longer. -/
inductive Step (made : Transformers) : Traffic → Traffic → Prop where
  | register (s : Traffic) : Step made s { s with registered := s.registered + 1 }
  | refuse (s : Traffic) (owner reason : String) :
      Step made s { s with host := s.host.refuse owner reason }
  | accept (s : Traffic) (owner : String) : Step made s { s with host := s.host.accept owner }
  | begin (s : Traffic) (owner : String) (bytes : Bytes) :
      Step made s
        { s with defining := s.defining ++ [.begun owner bytes (List.range s.registered)] }
  | transform {host : Host} {registered : Nat} {retransforming : List Retransforming}
      {makings : Table String Making} {owner : String} {bytes current : Bytes} {ns : List Nat}
      (before after : List Defining) (chain : made.Chain owner ns bytes current) :
      Step made
        ⟨host, registered, before ++ .begun owner bytes ns :: after, retransforming, makings⟩
        ⟨host, registered, before ++ .transformed owner bytes ns current :: after, retransforming,
          makings⟩
  | load {host : Host} {registered : Nat} {retransforming : List Retransforming}
      {makings : Table String Making} {owner : String} {bytes current : Bytes} {ns : List Nat}
      (before after : List Defining) :
      Step made
        ⟨host, registered, before ++ .transformed owner bytes ns current :: after, retransforming,
          makings⟩
        ⟨host.load owner bytes current, registered, before ++ after,
          retransforming.map (.outrun owner), Table.put owner ⟨ns, bytes, false⟩ makings⟩
  | allow (s : Traffic) {owner : String} (n : Nat)
      (accepted : Table.get? owner s.host.refusals = none) :
      Step made s { s with retransforming := s.retransforming ++ [.allowed owner n] }
  | read {host : Host} {registered : Nat} {defining : List Defining}
      {makings : Table String Making} {owner : String} {n : Nat} {l : LoadedArtifact}
      (before after : List Retransforming) (loaded : Table.get? owner host.loaded = some l) :
      Step made ⟨host, registered, defining, before ++ .allowed owner n :: after, makings⟩
        ⟨host, registered, defining, before ++ .started owner n l.defined false :: after, makings⟩
  | retransform {host : Host} {registered : Nat} {defining : List Defining}
      {makings : Table String Making} {owner : String} {n : Nat} {source current : Bytes}
      {overtaken : Bool} (before after : List Retransforming)
      (ran : made n owner source current) :
      Step made
        ⟨host, registered, defining, before ++ .started owner n source overtaken :: after, makings⟩
        ⟨host, registered, defining,
          before ++ .transformed owner n source current overtaken :: after, makings⟩
  | replace {host : Host} {registered : Nat} {defining : List Defining}
      {makings : Table String Making} {owner : String} {n : Nat} {source current : Bytes}
      {overtaken : Bool} {l : LoadedArtifact} (before after : List Retransforming)
      (loaded : Table.get? owner host.loaded = some l) :
      Step made
        ⟨host, registered, defining,
          before ++ .transformed owner n source current overtaken :: after, makings⟩
        ⟨host.replace owner current, registered, defining, before ++ after,
          Table.put owner ⟨[n], source, overtaken⟩ makings⟩
  | giveUp {host : Host} {registered : Nat} {defining : List Defining}
      {makings : Table String Making} {r : Retransforming} (before after : List Retransforming)
      (missing : Table.get? r.owner host.loaded = none) :
      Step made ⟨host, registered, defining, before ++ r :: after, makings⟩
        ⟨host, registered, defining, before ++ after, makings⟩

/-- Nothing is loaded, and nothing is under way. -/
def start : Traffic where
  host := .empty
  registered := 0
  defining := []
  retransforming := []
  makings := []

/-- Calls can come to this state, whichever of them steps when. -/
def Reachable (made : Transformers) (s : Traffic) : Prop :=
  Relation.ReflTransGen (Step made) start s

/-! ## What a step keeps -/

variable {made : Transformers} {s t : Traffic} {owner : String} {l : LoadedArtifact}

/-- These transformers were registered, or it is the one of a retransformation. -/
def Ran (registered : Nat) (ns : List Nat) : Prop :=
  (∃ k, k ≤ registered ∧ ns = List.range k) ∨ ∃ n, ns = [n]

theorem Ran.succ {registered : Nat} {ns : List Nat} (h : Ran registered ns) :
    Ran (registered + 1) ns := by
  rcases h with ⟨k, hk, rfl⟩ | hone
  · exact .inl ⟨k, Nat.le_succ_of_le hk, rfl⟩
  · exact .inr hone

/-- What is known of a definition under way. -/
def Defining.Sound (made : Transformers) (registered : Nat) : Defining → Prop
  | .begun _ _ ns => Ran registered ns
  | .transformed owner bytes ns current =>
    Ran registered ns ∧ made.Chain owner ns bytes current

/-- What is known of a retransformation under way: if it is not overtaken, the owner is still
defined from the bytes that were read. -/
def Retransforming.Sound (made : Transformers) (host : Host) : Retransforming → Prop
  | .allowed _ _ => True
  | .started owner _ source overtaken =>
    overtaken = false → ∃ l, Table.get? owner host.loaded = some l ∧ l.defined = source
  | .transformed owner n source current overtaken =>
    made n owner source current ∧
      (overtaken = false → ∃ l, Table.get? owner host.loaded = some l ∧ l.defined = source)

/-- Every loaded owner runs what was made as noted, and from its definition if that was not
overtaken. -/
structure Sound (made : Transformers) (s : Traffic) : Prop where
  loaded : ∀ owner l, Table.get? owner s.host.loaded = some l →
    ∃ m, Table.get? owner s.makings = some m ∧ Ran s.registered m.transformers ∧
      made.Chain owner m.transformers m.source l.current ∧
        (m.overtaken = false → m.source = l.defined)
  defining : ∀ d ∈ s.defining, Defining.Sound made s.registered d
  retransforming : ∀ r ∈ s.retransforming, Retransforming.Sound made s.host r

variable {host host' : Host} {r : Retransforming} {registered : Nat} {d : Defining}

theorem Defining.Sound.succ (h : Defining.Sound made registered d) :
    Defining.Sound made (registered + 1) d := by
  cases d with
  | begun owner bytes ns => exact Ran.succ h
  | transformed owner bytes ns current => exact ⟨Ran.succ h.1, h.2⟩

/-- As long as owners keep their definitions, nothing is overtaken. -/
theorem Retransforming.Sound.mono (h : Retransforming.Sound made host r)
    (hkept : ∀ owner l, Table.get? owner host.loaded = some l →
      ∃ l', Table.get? owner host'.loaded = some l' ∧ l'.defined = l.defined) :
    Retransforming.Sound made host' r := by
  have hsource {owner : String} {source : Bytes}
      (hread : ∃ l, Table.get? owner host.loaded = some l ∧ l.defined = source) :
      ∃ l, Table.get? owner host'.loaded = some l ∧ l.defined = source := by
    obtain ⟨l, hl, rfl⟩ := hread
    exact hkept owner l hl
  cases r with
  | allowed owner n => exact trivial
  | started owner n source overtaken => exact fun hover => hsource (h hover)
  | transformed owner n source current overtaken =>
    exact ⟨h.1, fun hover => hsource (h.2 hover)⟩

/-- Whoever is under way with the owner is overtaken when it is loaded, and nobody else. -/
theorem Retransforming.Sound.load (h : Retransforming.Sound made host r) (owner : String)
    (defined current : Bytes) :
    Retransforming.Sound made (host.load owner defined current) (r.outrun owner) := by
  have hsource {o : String} {source : Bytes} {overtaken : Bool}
      (hread : overtaken = false → ∃ l, Table.get? o host.loaded = some l ∧ l.defined = source)
      (hover : (overtaken || decide (o = owner)) = false) :
      ∃ l, Table.get? o (host.load owner defined current).loaded = some l ∧
        l.defined = source := by
    rw [Bool.or_eq_false_iff, decide_eq_false_iff_not] at hover
    obtain ⟨l, hl, hdefined⟩ := hread hover.1
    exact ⟨l, (Table.get?_put_of_ne hover.2 ..).trans hl, hdefined⟩
  cases r with
  | allowed o n => exact trivial
  | started o n source overtaken => exact hsource h
  | transformed o n source current' overtaken => exact ⟨h.1, hsource h.2⟩

theorem forall_mem_append_cons {α : Type} {P : α → Prop} {before after : List α} {x : α} :
    (∀ y ∈ before ++ x :: after, P y) ↔ (∀ y ∈ before, P y) ∧ P x ∧ ∀ y ∈ after, P y := by
  rw [List.forall_mem_append, List.forall_mem_cons]

/-- One step keeps it. -/
theorem Sound.step (h : Sound made s) (hstep : Step made s t) : Sound made t := by
  cases hstep with
  | register =>
    refine ⟨fun owner l hl => ?_, fun d hd => (h.defining d hd).succ, h.retransforming⟩
    obtain ⟨m, hm, hran, hrest⟩ := h.loaded owner l hl
    exact ⟨m, hm, hran.succ, hrest⟩
  | refuse owner reason => exact ⟨h.loaded, h.defining, h.retransforming⟩
  | accept owner => exact ⟨h.loaded, h.defining, h.retransforming⟩
  | begin owner bytes =>
    refine ⟨h.loaded, fun d hd => ?_, h.retransforming⟩
    rcases List.mem_append.1 hd with hd | hd
    · exact h.defining d hd
    · obtain rfl := List.mem_singleton.1 hd
      exact .inl ⟨s.registered, Nat.le_refl _, rfl⟩
  | @transform host registered retransforming makings owner bytes current ns before after chain =>
    obtain ⟨hbefore, hbegun, hafter⟩ := forall_mem_append_cons.1 h.defining
    exact ⟨h.loaded, forall_mem_append_cons.2 ⟨hbefore, ⟨hbegun, chain⟩, hafter⟩, h.retransforming⟩
  | @load host registered retransforming makings owner bytes current ns before after =>
    obtain ⟨hbefore, ⟨hran, hchain⟩, hafter⟩ := forall_mem_append_cons.1 h.defining
    -- the new entry is sound, and whoever has read the old one is overtaken from now on
    refine ⟨fun o l hl => ?_, List.forall_mem_append.2 ⟨hbefore, hafter⟩, fun r hr => ?_⟩
    · by_cases ho : o = owner
      · subst ho
        obtain rfl := Option.some.inj ((Table.get?_put_self ..).symm.trans hl)
        exact ⟨_, Table.get?_put_self .., hran, hchain, fun _ => rfl⟩
      · obtain ⟨m, hm, hrest⟩ := h.loaded o l ((Table.get?_put_of_ne ho ..).symm.trans hl)
        exact ⟨m, (Table.get?_put_of_ne ho ..).trans hm, hrest⟩
    · obtain ⟨r', hr', rfl⟩ := List.mem_map.1 hr
      exact (h.retransforming r' hr').load owner bytes current
  | allow n accepted =>
    refine ⟨h.loaded, h.defining, fun r hr => ?_⟩
    rcases List.mem_append.1 hr with hr | hr
    · exact h.retransforming r hr
    · obtain rfl := List.mem_singleton.1 hr
      exact trivial
  | @read host registered defining makings owner n l before after loaded =>
    obtain ⟨hbefore, -, hafter⟩ := forall_mem_append_cons.1 h.retransforming
    have hstarted : Retransforming.Sound made host (.started owner n l.defined false) :=
      fun _ => ⟨l, loaded, rfl⟩
    exact ⟨h.loaded, h.defining, forall_mem_append_cons.2 ⟨hbefore, hstarted, hafter⟩⟩
  | @retransform host registered defining makings owner n source current overtaken before after
      ran =>
    obtain ⟨hbefore, hstarted, hafter⟩ := forall_mem_append_cons.1 h.retransforming
    exact ⟨h.loaded, h.defining, forall_mem_append_cons.2 ⟨hbefore, ⟨ran, hstarted⟩, hafter⟩⟩
  | @replace host registered defining makings owner n source current overtaken l before after
      loaded =>
    obtain ⟨hbefore, ⟨hmade, hread⟩, hafter⟩ := forall_mem_append_cons.1 h.retransforming
    -- the owner runs other bytes, but is defined from the same, so nobody is overtaken
    have hkept (o : String) (l' : LoadedArtifact) (hl' : Table.get? o host.loaded = some l') :
        ∃ l'', Table.get? o (host.replace owner current).loaded = some l'' ∧
          l''.defined = l'.defined := by
      by_cases ho : o = owner
      · subst ho
        exact ⟨_, Rollout.get?_replace_self hl', rfl⟩
      · exact ⟨l', (Rollout.get?_replace_of_ne ho ..).trans hl', rfl⟩
    refine ⟨fun o l' hl' => ?_, h.defining, fun r hr => ?_⟩
    · by_cases ho : o = owner
      · subst ho
        obtain rfl := Option.some.inj ((Rollout.get?_replace_self loaded).symm.trans hl')
        refine ⟨_, Table.get?_put_self .., .inr ⟨n, rfl⟩, .cons hmade (.nil _), fun hover => ?_⟩
        -- what was read is still what the owner is defined from
        obtain ⟨l', hl', rfl⟩ := hread hover
        rw [Option.some.inj (hl'.symm.trans loaded)]
      · obtain ⟨m, hm, hrest⟩ :=
          h.loaded o l' ((Rollout.get?_replace_of_ne ho ..).symm.trans hl')
        exact ⟨m, (Table.get?_put_of_ne ho ..).trans hm, hrest⟩
    · have hsound : ∀ r ∈ before ++ after, Retransforming.Sound made host r :=
        List.forall_mem_append.2 ⟨hbefore, hafter⟩
      exact (hsound r hr).mono hkept
  | giveUp before after missing =>
    obtain ⟨hbefore, -, hafter⟩ := forall_mem_append_cons.1 h.retransforming
    exact ⟨h.loaded, h.defining, List.forall_mem_append.2 ⟨hbefore, hafter⟩⟩

theorem sound_start (made : Transformers) : Sound made start :=
  ⟨nofun, nofun, nofun⟩

theorem sound_of_reachable (h : Reachable made s) : Sound made s := by
  induction h with
  | refl => exact sound_start made
  | tail _ hstep ih => exact ih.step hstep

/-- **What is loaded was made from a definition**, and from the one that the host keeps unless the
retransformation that made it was overtaken: the owner was loaded anew between its reading of the
definition and its replacing of what the owner runs. It was made by the transformers registered when
a definition began, run in turn, or by the one of a retransformation. -/
theorem loaded_from_definition (h : Reachable made s)
    (hloaded : Table.get? owner s.host.loaded = some l) :
    ∃ m, Table.get? owner s.makings = some m ∧
      ((∃ k, k ≤ s.registered ∧ m.transformers = List.range k) ∨ ∃ n, m.transformers = [n]) ∧
        made.Chain owner m.transformers m.source l.current ∧
          (m.overtaken = false → m.source = l.defined) :=
  (sound_of_reachable h).loaded owner l hloaded

/-! ## Calls that nothing comes between -/

/-- Agents as transformers: what one of them makes of the bytes in some deployment. -/
def agents : Transformers := fun n owner bytes current =>
  ∃ d : Deployment, current = (d.transformBy n owner bytes).2

variable {d : Deployment} {bytes : Bytes} {n : Nat}

/-- Agents that run in turn leave the host as it is. -/
theorem chain_foldl (ns : List Nat) (d : Deployment) (owner : String) (bytes : Bytes) :
    (ns.foldl (fun (d, bytes) n => d.transformBy n owner bytes) (d, bytes)).1.host = d.host ∧
      agents.Chain owner ns bytes
        (ns.foldl (fun (d, bytes) n => d.transformBy n owner bytes) (d, bytes)).2 := by
  induction ns generalizing d bytes with
  | nil => exact ⟨rfl, .nil bytes⟩
  | cons n ns ih =>
    obtain ⟨hhost, hchain⟩ := ih (d.transformBy n owner bytes).1 (d.transformBy n owner bytes).2
    exact ⟨hhost.trans (Deployment.host_transformBy ..), .cons ⟨d, rfl⟩ hchain⟩

/-- A definition of a deployment takes the steps of one. -/
theorem reaches_define (hhost : s.host = d.host) (hregistered : s.registered = d.agents.length) :
    ∃ t m, Relation.ReflTransGen (Step agents) s t ∧ t.host = (d.define owner bytes).1.host ∧
      Table.get? owner t.makings = some m ∧ m.overtaken = false := by
  obtain ⟨hsame, hchain⟩ := chain_foldl (List.range s.registered) d owner bytes
  have hbegun : Relation.ReflTransGen (Step agents) s _ := .single (.begin s owner bytes)
  have hloaded := (hbegun.tail (.transform s.defining [] hchain)).tail (.load s.defining [])
  refine ⟨_, _, hloaded, ?_, Table.get?_put_self .., rfl⟩
  rw [hregistered] at hsame
  simp only [Deployment.define, Deployment.transformByAll, hsame, hhost, hregistered]

/-- And so does a retransformation that goes ahead. With nothing between its steps it is not
overtaken. -/
theorem reaches_retransform (hhost : s.host = d.host) (hok : (d.retransform n owner).2 = .ok ()) :
    ∃ t m, Relation.ReflTransGen (Step agents) s t ∧ t.host = (d.retransform n owner).1.host ∧
      Table.get? owner t.makings = some m ∧ m.overtaken = false := by
  unfold Deployment.retransform at hok ⊢
  rcases hdefined : d.host.definitionOf owner with e | defined
  · rw [hdefined] at hok
    cases hok
  · obtain ⟨l, hl, rfl⟩ := Rollout.exists_of_definitionOf hdefined
    rw [← hhost] at hl
    have haccepted : Table.get? owner s.host.refusals = none := by
      rw [hhost]
      rcases hrefused : Table.get? owner d.host.refusals with - | reason
      · rfl
      · rw [Host.definitionOf, hrefused] at hdefined
        cases hdefined
    have hran : agents n owner l.defined (d.transformBy n owner l.defined).2 := ⟨d, rfl⟩
    have hallowed : Relation.ReflTransGen (Step agents) s _ := .single (.allow s n haccepted)
    have hread := hallowed.tail (.read s.retransforming [] hl)
    have hreplaced := (hread.tail (.retransform s.retransforming [] hran)).tail
      (.replace s.retransforming [] hl)
    refine ⟨_, _, hreplaced, ?_, Table.get?_put_self .., rfl⟩
    simp only [Deployment.host_transformBy, hhost]

/-! ## An owner that is overtaken -/

namespace Overtaken

/-- A new agent as the only transformer. -/
def agent : Transformers := fun _ owner bytes current =>
  ∃ supertypes,
    current = ((Agent.fresh .default true).transform supertypes owner bytes).2.getD bytes

theorem agent_self (n : Nat) (owner : String) (bytes : Bytes) : agent n owner bytes bytes :=
  ⟨[], rfl⟩

/-- It leaves all bytes as they are. -/
theorem eq_of_chain {owner : String} {ns : List Nat} {source current : Bytes}
    (h : agent.Chain owner ns source current) : current = source := by
  induction h with
  | nil bytes => rfl
  | cons first rest ih =>
    obtain ⟨supertypes, rfl⟩ := first
    exact ih

/-- `acme/Orders` is defined, and these retransformations are under way. -/
def loaded (retransforming : List Retransforming) : Traffic where
  host := Host.empty.load "acme/Orders" [1] [1]
  registered := 1
  defining := []
  retransforming := retransforming
  makings := [("acme/Orders", ⟨[0], [1], false⟩)]

/-- It is defined from other bytes, and retransformed over those from before. -/
def stale : Traffic where
  host := { loaded := [("acme/Orders", ⟨[2], [1], 1⟩)], refusals := [] }
  registered := 1
  defining := []
  retransforming := []
  makings := [("acme/Orders", ⟨[0], [1], true⟩)]

/-- The bytes of a definition are transformed and loaded. -/
theorem reachable_loaded : Reachable agent (loaded []) := by
  have hregistered : Reachable agent { start with registered := 1 } :=
    Relation.ReflTransGen.refl.tail (.register start)
  have hbegun := hregistered.tail (.begin _ "acme/Orders" [1])
  have hmade : agent.Chain "acme/Orders" (List.range 1) [1] [1] :=
    .cons (agent_self 0 _ _) (.nil _)
  exact (hbegun.tail (.transform [] [] hmade)).tail (.load [] [])

/-- The owner is defined anew after its bytes are read and before it is replaced. -/
theorem reachable_stale : Reachable agent stale := by
  have haccepted : Table.get? "acme/Orders" (loaded []).host.refusals = none := rfl
  have hfound : Table.get? "acme/Orders" (loaded []).host.loaded = some ⟨[1], [1], 0⟩ := rfl
  have hread : Reachable agent (loaded [.started "acme/Orders" 0 [1] false]) :=
    (reachable_loaded.tail (.allow _ 0 haccepted)).tail (.read [] [] hfound)
  have hmade : agent.Chain "acme/Orders" (List.range 1) [2] [2] :=
    .cons (agent_self 0 _ _) (.nil _)
  have hbegun := hread.tail (.begin _ "acme/Orders" [2])
  have hloaded := (hbegun.tail (.transform [] [] hmade)).tail (.load [] [])
  have hran := hloaded.tail (.retransform [] [] (agent_self 0 "acme/Orders" [1]))
  exact hran.tail (.replace [] [] rfl)

/-- **A stale transformation can be loaded.** No transformer makes what the owner runs of the bytes
that it is defined from. -/
theorem not_from_definition : Reachable agent stale ∧
    ∃ l, Table.get? "acme/Orders" stale.host.loaded = some l ∧
      ∀ ns, ¬agent.Chain "acme/Orders" ns l.defined l.current := by
  refine ⟨reachable_stale, ⟨[2], [1], 1⟩, rfl, fun ns hchain => ?_⟩
  -- these transformers leave bytes as they are
  exact absurd (eq_of_chain hchain) (by decide)

/-- Before that the owner runs what was made of the bytes it is defined from. -/
theorem loaded_from_definition_once : Reachable agent (loaded []) ∧
    ∃ m, Table.get? "acme/Orders" (loaded []).makings = some m ∧ m.overtaken = false ∧
      m.source = [1] ∧ agent.Chain "acme/Orders" m.transformers m.source [1] := by
  have hfound : Table.get? "acme/Orders" (loaded []).host.loaded = some ⟨[1], [1], 0⟩ := rfl
  obtain ⟨m, hm, -, hchain, hsource⟩ := loaded_from_definition reachable_loaded hfound
  obtain rfl : ⟨[0], [1], false⟩ = m := Option.some.inj hm
  exact ⟨reachable_loaded, _, rfl, rfl, hsource rfl, hchain⟩

end Overtaken

end Traffic

end CallPatch
