import CallPatch.Proofs.Deployment.Capability
import CallPatch.Proofs.Deployment.Startup
import CallPatch.Proofs.Dump.Writing
import CallPatch.Proofs.Index.Patches
/-!
# Deployments — a transformation does all of its work or none

A transformation extends the bytes of an owner and patches what the extension left, and
either pass can fail: the bytes may not decode, a member may be missing, the label ids may
run out, and what came out may be too large to encode (`Agent.Fails`). Whatever is noted is
noted when both passes have gone through. So after a failure the bytes are those given,
and the deployment is as it was but for the one failure counted. Otherwise the agent has
noted what the second pass came to (`Agent.Notes`), and the bytes are new just when one of
the passes changed the artifact, which is when a copy is kept: its file holds the bytes
then, if it can be written (`Deployment.transformBy_all_or_nothing`). That the installed
index records patches, and each member once, is true of every agent
(`Agent.Reached.tracksPatches`).
-/

namespace CallPatch

namespace Agent

variable {a : Agent} {supertypes : Supertypes} {owner : String} {bytes : Bytes}
variable {x : Extended} {p : Patched}

/-! ## Agents as they come about -/

/-- The agent has been started, and called any number of times. -/
inductive Reached : Agent → Prop where
  | start {loaded : List String} {config : AgentConfig} {seesSupertypes : Bool} {a : Agent}
      (h : start loaded config seesSupertypes = .ok a) : Reached a
  | report {a : Agent} (h : Reached a) (site : CallSite) : Reached (a.report site).1
  | handOver {a : Agent} (h : Reached a) : Reached a.handOver.1
  | countRequestFailure {a : Agent} (h : Reached a) : Reached a.countRequestFailure
  | transform {a : Agent} (h : Reached a) (supertypes : Supertypes) (owner : String)
      (bytes : Bytes) : Reached (a.transform supertypes owner bytes).1

/-- Noting a treatment leaves the installed index recording patches. -/
theorem tracksPatches_noting (h : a.installed.TracksPatches) (owner : String) (p : Patched) :
    (a.noting owner p).installed.TracksPatches := by
  unfold noting
  split
  · exact h.markPatched owner _
  · split <;> exact h

theorem tracksPatches_transform (h : a.installed.TracksPatches) (supertypes : Supertypes)
    (owner : String) (bytes : Bytes) :
    (a.transform supertypes owner bytes).1.installed.TracksPatches := by
  have htries := a.tries_tryTransform supertypes owner bytes
  unfold transform
  generalize a.tryTransform supertypes owner bytes = tried at htries
  cases htries with
  | notExtended _ => exact h
  | notPatched _ _ => exact h
  | done _ _ => exact tracksPatches_noting h ..

/-- **Every agent records the patches of what is installed.** -/
theorem Reached.tracksPatches (h : a.Reached) : a.installed.TracksPatches := by
  induction h with
  | @start loaded config seesSupertypes a h =>
    unfold Agent.start at h
    split at h
    · cases h
    · obtain rfl := Except.ok.inj h
      exact EntryIndex.tracksPatches_installed
  | @report a _ site ih =>
    unfold Agent.report
    split
    · exact ih
    · split <;> exact ih
  | handOver _ ih => exact ih.receiveAll _ _
  | countRequestFailure _ ih => exact ih
  | transform _ supertypes owner bytes ih => exact tracksPatches_transform ih ..

/-! ## What can fail, and what is noted -/

/-- One of the passes fails: the extension, or the patching of what it left. -/
inductive Fails (a : Agent) (supertypes : Supertypes) (owner : String) (bytes : Bytes) : Prop where
  | extending {e : PatchError} (h : a.extension owner bytes = .error e)
  | patching {x : Extended} {e : PatchError} (hx : a.extension owner bytes = .ok x)
      (h : a.patching supertypes owner x.bytes = .error e)

/-- What an agent notes of a transformation that goes through, by what the second pass came to. -/
structure Notes (a : Agent) (owner : String) (p : Patched) (a' : Agent) : Prop where
  annotates : a.Annotates a'
  failures : a'.pipeline.transformFailures = a.pipeline.transformFailures
  /-- Where a call was replaced, each installed member gains one patch. -/
  patched : p.transformed = true → a'.pipeline.untransformed = a.pipeline.untransformed ∧
    ∀ member ∈ a.listed owner,
      a'.installed.patchCount (joinKey owner member) =
        a.installed.patchCount (joinKey owner member) + 1
  /-- No other entry gains any. -/
  others : ∀ joined, (∀ member ∈ a.listed owner, joinKey owner member ≠ joined) →
    a'.installed.patchCount joined = a.installed.patchCount joined
  /-- Where none was replaced, that is counted, if there are members, and no history changes. -/
  untouched : p.transformed = false → a'.installed = a.installed ∧
    (a.listed owner ≠ [] → a'.pipeline.untransformed = a.pipeline.untransformed + 1)
  /-- Without members nothing is noted. -/
  idle : a.listed owner = [] → a' = a

/-- Where nothing is installed, nothing is replaced. -/
theorem transformed_eq_false_of_listed (hnone : a.listed owner = [])
    (h : a.patching supertypes owner bytes = .ok p) : p.transformed = false := by
  rw [patching, if_pos hnone] at h
  obtain rfl := Except.ok.inj h
  rfl

/-- What was patched is marked, member by member. -/
theorem noting_of_patched (hp : p.transformed = true) :
    a.noting owner p =
      { a with installed := a.installed.markPatched owner (a.listed owner) } := by
  rw [noting, if_pos hp]

/-- What was left alone is counted, if something was installed there. -/
theorem noting_of_untouched (hp : p.transformed = false) :
    a.noting owner p = if a.listed owner = [] then a else a.countUntransformed := by
  rw [noting, if_neg (by simp [hp])]

theorem installed_noting (hp : p.transformed = false) :
    (a.noting owner p).installed = a.installed := by
  rw [noting_of_untouched hp]
  split <;> rfl

/-- **What the agent notes.** -/
theorem notes_noting (ha : a.installed.TracksPatches)
    (h : a.patching supertypes owner bytes = .ok p) : a.Notes owner p (a.noting owner p) := by
  constructor
  case annotates => exact a.annotates_noting owner p
  case failures => exact a.transformFailures_noting owner p
  case patched =>
    intro hp
    rw [noting_of_patched hp]
    refine ⟨rfl, fun member hmember => ?_⟩
    exact ha.patchCount_markPatched (ha.nodup_membersOf owner) hmember
  case others =>
    intro joined hne
    cases hp : p.transformed with
    | true =>
      rw [noting_of_patched hp]
      exact ha.patchCount_markPatched_of_ne hne
    | false => rw [installed_noting hp]
  case untouched =>
    intro hp
    refine ⟨installed_noting hp, fun hlisted => ?_⟩
    rw [noting_of_untouched hp, if_neg hlisted]
    rfl
  case idle =>
    intro hnone
    rw [noting_of_untouched (transformed_eq_false_of_listed hnone h), if_pos hnone]

/-! ## The bytes -/

/-- A pass that changes something makes another artifact. -/
theorem exists_changed (hx : a.extension owner bytes = .ok x)
    (hp : a.patching supertypes owner x.bytes = .ok p)
    (hchanged : x.transformed = true ∨ p.transformed = true) :
    ∃ before after, Artifact.decode bytes = .ok before ∧ Artifact.decode p.bytes = .ok after ∧
      before ≠ after := by
  rcases extension_cases hx with ⟨hsame, hbytes⟩ | ⟨-, store, extended, hstore, hunmarked, hextend,
    hextended⟩
  · -- it is the patching that changed something
    have htransformed : p.transformed = true := hchanged.resolve_left (by simp [hsame])
    rw [hbytes] at hp
    rcases patching_cases hp with ⟨hfalse, -⟩ | ⟨-, found, patched, hfound, hpatch, hpatched⟩
    · rw [htransformed] at hfalse
      cases hfalse
    · refine ⟨found, patched, hfound, hpatched, Artifact.ne_of_patch hpatch ?_⟩
      simpa [Patched.transformed] using htransformed
  · -- the marker has been added, and patching does not take it away
    have hmarked : extended.declares Store.marker = true :=
      (Artifact.capable_of_extend hextend).marked
    have hdiffers (after : Artifact) (h : after.supertypes = extended.supertypes) :
        store ≠ after := by
      rintro rfl
      rw [Artifact.declares, h] at hunmarked
      rw [Artifact.declares, hunmarked] at hmarked
      cases hmarked
    rcases patching_cases hp with ⟨-, hbytes⟩ | ⟨-, found, patched, hfound, hpatch, hpatched⟩
    · exact ⟨store, extended, hstore, hbytes ▸ hextended, hdiffers extended rfl⟩
    · obtain rfl : found = extended := Except.ok.inj (hfound.symm.trans hextended)
      have hsupertypes := (Artifact.signatures_patch hpatch).2.1
      exact ⟨store, patched, hstore, hpatched, hdiffers patched hsupertypes⟩

/-- So the bytes are new when a pass changes something, and only then. -/
theorem bytes_ne_iff (hx : a.extension owner bytes = .ok x)
    (hp : a.patching supertypes owner x.bytes = .ok p) :
    p.bytes ≠ bytes ↔ x.transformed = true ∨ p.transformed = true := by
  constructor
  · intro hne
    by_contra hnone
    rw [not_or, Bool.not_eq_true, Bool.not_eq_true] at hnone
    exact hne ((bytes_of_patching hp hnone.2).trans (bytes_of_extension hx hnone.1))
  · intro hchanged hsame
    obtain ⟨before, after, hbefore, hafter, hne⟩ := exists_changed hx hp hchanged
    rw [hsame] at hafter
    exact hne (Except.ok.inj (hbefore.symm.trans hafter))

/-! ## The transformation -/

/-- When both passes go through, neither fails. -/
theorem not_fails_of_ok (hx : a.extension owner bytes = .ok x)
    (hp : a.patching supertypes owner x.bytes = .ok p) : ¬ a.Fails supertypes owner bytes := by
  intro hfails
  cases hfails with
  | extending hnot =>
    rw [hx] at hnot
    cases hnot
  | patching hx' hnot =>
    obtain rfl := Except.ok.inj (hx.symm.trans hx')
    rw [hp] at hnot
    cases hnot

/-- A failure is counted, and nothing else. -/
theorem transform_of_fails (h : a.Fails supertypes owner bytes) :
    a.transform supertypes owner bytes = (a.countTransformFailure, none) := by
  have htries := a.tries_tryTransform supertypes owner bytes
  unfold transform
  generalize a.tryTransform supertypes owner bytes = tried at htries
  cases htries with
  | notExtended _ => rfl
  | notPatched _ _ => rfl
  | done hx hp => exact absurd h (not_fails_of_ok hx hp)

/-- A treatment that does not fail has both its parts. -/
theorem exists_of_not_fails (h : ¬ a.Fails supertypes owner bytes) :
    ∃ x p, a.extension owner bytes = .ok x ∧ a.patching supertypes owner x.bytes = .ok p := by
  rcases hx : a.extension owner bytes with e | x
  · exact absurd (.extending hx) h
  · rcases hp : a.patching supertypes owner x.bytes with e | p
    · exact absurd (.patching hx hp) h
    · exact ⟨x, p, rfl, hp⟩

/-- Where both passes go through, their outcome is noted, and new bytes are handed out. -/
theorem transform_of_ok (hx : a.extension owner bytes = .ok x)
    (hp : a.patching supertypes owner x.bytes = .ok p) :
    a.transform supertypes owner bytes =
      (a.noting owner p, if p.bytes = bytes then none else some p.bytes) := by
  have hnot := not_fails_of_ok hx hp
  have htries := a.tries_tryTransform supertypes owner bytes
  unfold transform
  generalize a.tryTransform supertypes owner bytes = tried at htries
  cases htries with
  | notExtended h => exact absurd (.extending h) hnot
  | notPatched hx' h => exact absurd (.patching hx' h) hnot
  | @done x' p' hx' hp' =>
    obtain rfl : x = x' := Except.ok.inj (hx.symm.trans hx')
    obtain rfl : p = p' := Except.ok.inj (hp.symm.trans hp')
    refine congrArg (Prod.mk _) ?_
    have hne := bytes_ne_iff hx hp
    by_cases hchanged : p.bytes = bytes
    · have hnone : (x.transformed || p.transformed) = false := by
        rw [← Bool.not_eq_true, Bool.or_eq_true]
        exact fun hany => hne.2 hany hchanged
      rw [if_pos hchanged, hnone]
      rfl
    · have hany : (x.transformed || p.transformed) = true := by
        rw [Bool.or_eq_true]
        exact hne.1 hchanged
      rw [if_neg hchanged, hany]
      rfl

end Agent

namespace Deployment

variable {d : Deployment} {n : Nat} {a : Agent} {owner : String} {bytes : Bytes}

/-- What a transformation that goes through leaves, by what its two passes came to: the deployment,
and the bytes to load. -/
structure Leaves (d : Deployment) (n : Nat) (a : Agent) (owner : String) (bytes : Bytes)
    (x : Extended) (p : Patched) (left : Deployment × Bytes) : Prop where
  current : left.2 = p.bytes
  changed : left.2 ≠ bytes ↔ x.transformed = true ∨ p.transformed = true
  /-- New bytes are those of another artifact. -/
  decodes : left.2 ≠ bytes → ∃ before after,
    Artifact.decode bytes = .ok before ∧ Artifact.decode left.2 = .ok after ∧ before ≠ after
  /-- A copy is written of new bytes, and of no others. -/
  dumped : left.2 ≠ bytes → ∀ dir, a.config.dumpDir = some dir →
    d.disk.Written left.1.disk dir owner left.2
  notDumped : left.2 = bytes ∨ a.config.dumpDir = none → left.1.disk = d.disk
  agents : ∀ m, m ≠ n → left.1.agent? m = d.agent? m
  host : left.1.host = d.host
  breakdowns : left.1.breakdowns = d.breakdowns

/-- With a dump directory, a copy is written to the disk. -/
theorem dump_of_some {config : AgentConfig} {dir : String} (h : config.dumpDir = some dir)
    (d : Deployment) (owner : String) (bytes : Bytes) :
    d.dump config owner bytes = { d with disk := d.disk.write dir owner bytes } := by
  rw [dump, h]

theorem dump_of_none {config : AgentConfig} (h : config.dumpDir = none) (d : Deployment)
    (owner : String) (bytes : Bytes) : d.dump config owner bytes = d := by
  rw [dump, h]

variable {x : Extended} {p : Patched}

/-- After a failure there is one failure more, and the bytes are those given. -/
theorem transformBy_of_fails (hn : d.agent? n = some a)
    (h : a.Fails d.host.supertypeTable owner bytes) :
    d.transformBy n owner bytes = (d.setAgent n a.countTransformFailure, bytes) := by
  rw [transformBy, hn]
  dsimp only
  rw [Agent.transform_of_fails h]

/-- The agent that has noted the outcome is put back, and a copy is kept of new bytes. -/
theorem transformBy_of_ok (hn : d.agent? n = some a) (hx : a.extension owner bytes = .ok x)
    (hp : a.patching d.host.supertypeTable owner x.bytes = .ok p) :
    d.transformBy n owner bytes =
      (if p.bytes = bytes then d.setAgent n (a.noting owner p)
        else (d.setAgent n (a.noting owner p)).dump a.config owner p.bytes, p.bytes) := by
  have hconfig : (a.noting owner p).config = a.config :=
    (a.annotates_noting owner p).config_eq
  rw [transformBy, hn]
  dsimp only
  rw [Agent.transform_of_ok hx hp]
  by_cases hsame : p.bytes = bytes
  · rw [if_pos hsame, if_pos hsame, hsame]
  · rw [if_neg hsame, if_neg hsame, ← hconfig]

/-- Both parts succeed: the installed index, the copy and the bytes are those of the one treatment.
-/
theorem leaves_of_ok (hn : d.agent? n = some a) (hx : a.extension owner bytes = .ok x)
    (hp : a.patching d.host.supertypeTable owner x.bytes = .ok p) :
    d.Leaves n a owner bytes x p (d.transformBy n owner bytes) := by
  have hagents := agent?_transformBy hn owner bytes
  have hhost := host_transformBy d n owner bytes
  have hbreakdowns := breakdowns_transformBy d n owner bytes
  have hne := Agent.bytes_ne_iff hx hp
  rw [transformBy_of_ok hn hx hp] at hagents hhost hbreakdowns ⊢
  constructor
  case current => rfl
  case changed => exact hne
  case decodes => exact fun hnew => Agent.exists_changed hx hp (hne.1 hnew)
  case dumped =>
    intro hnew dir hdir
    dsimp only
    have hdisk : (d.setAgent n (a.noting owner p)).disk = d.disk := rfl
    rw [if_neg hnew, dump_of_some hdir, hdisk]
    dsimp only
    exact d.disk.written_write dir owner p.bytes
  case notDumped =>
    intro hnone
    dsimp only
    split
    · rfl
    · next hnew => rw [dump_of_none (hnone.resolve_left hnew)]; rfl
  case agents => exact fun m hm => (hagents m).trans (if_neg hm)
  case host => exact hhost
  case breakdowns => exact hbreakdowns

/-- **A transformation does all of its work or none.** If one of its passes fails, the bytes are
those given, and the deployment is as it was, but for the failure that the agent has counted. If
both go through, the agent has noted what they came to and counted no failure, and the bytes are
new just when one of them changed the artifact: then they decode, and where a copy is asked for and
can be written its file holds them. No other file is touched. -/
theorem transformBy_all_or_nothing (hn : d.agent? n = some a) (ha : a.installed.TracksPatches)
    (owner : String) (bytes : Bytes) :
    (a.Fails d.host.supertypeTable owner bytes →
        d.transformBy n owner bytes = (d.setAgent n a.countTransformFailure, bytes)) ∧
      (¬ a.Fails d.host.supertypeTable owner bytes → ∃ x p a',
        a.extension owner bytes = .ok x ∧
          a.patching d.host.supertypeTable owner x.bytes = .ok p ∧
            (d.transformBy n owner bytes).1.agent? n = some a' ∧ a.Notes owner p a' ∧
              d.Leaves n a owner bytes x p (d.transformBy n owner bytes)) := by
  refine ⟨transformBy_of_fails hn, fun hnot => ?_⟩
  obtain ⟨x, p, hx, hp⟩ := Agent.exists_of_not_fails hnot
  have hagent : (d.transformBy n owner bytes).1.agent? n = some (a.noting owner p) := by
    rw [agent?_transformBy hn, if_pos rfl, Agent.transform_of_ok hx hp]
  exact ⟨x, p, a.noting owner p, hx, hp, hagent, Agent.notes_noting ha hp, leaves_of_ok hn hx hp⟩

end Deployment

/-! ## An agent that keeps copies -/

namespace Copying

open Exhausted (store roomy)

/-- Extends `acme/Store`, and keeps copies. -/
def config : AgentConfig :=
  Exhausted.config.withDumpDir "copies"

/-- The agent when it has taken a call in `bulk` on. -/
def agent : Agent :=
  ((Agent.fresh config true).report Exhausted.site).1.handOver.1

/-- The agent's deployment, on an empty disk. -/
def deployment : Deployment :=
  { Deployment.empty with agents := [agent], disk := { Dump.Disk.empty with working := ["srv"] } }

theorem tracksPatches : agent.installed.TracksPatches := by
  have hstart : Agent.start [] config true = .ok (.fresh config true) := rfl
  exact ((Agent.Reached.start hstart).report Exhausted.site).handOver.tracksPatches

theorem listed_bulk : agent.listed "acme/Store" = ["bulk"] := by
  decide +kernel

variable {bytes bytes' : Bytes}

theorem extension_eq (hextend : extendStore bytes = .ok ⟨bytes', true⟩) :
    agent.extension "acme/Store" bytes = .ok ⟨bytes', true⟩ := by
  rw [Agent.extension, if_pos (by decide +kernel), hextend]

/-- The first store cannot be patched when it has been extended. -/
theorem fails_store (hextend : extendStore bytes = .ok ⟨bytes', true⟩)
    (hdecode : Artifact.decode bytes' = .ok Exhausted.extended) :
    agent.Fails [] "acme/Store" bytes := by
  refine .patching (extension_eq hextend) (e := .labelsExhausted "acme/Store" "bulk") ?_
  rw [Agent.patching, listed_bulk, if_neg (List.cons_ne_nil _ _)]
  exact Exhausted.patch_bulk hdecode _ rfl

/-- The second one can. -/
theorem patching_roomy (hdecode : Artifact.decode bytes' = .ok roomy.extended) :
    ∃ bytes'', agent.patching [] "acme/Store" bytes' = .ok ⟨bytes'', 1⟩ := by
  obtain ⟨bytes'', hpatched, -⟩ := Exhausted.patch_roomy hdecode (agent.scope []) rfl
  refine ⟨bytes'', ?_⟩
  rw [Agent.patching, listed_bulk, if_neg (List.cons_ne_nil _ _), hpatched]

/-- The bytes of the first store come back, though it could be extended. The second store is
extended and patched, and a copy is kept of it. -/
theorem all_or_nothing_copying : ∃ bytes bytes', Artifact.decode bytes = .ok store ∧
    Artifact.decode bytes' = .ok roomy ∧
      deployment.transformBy 0 "acme/Store" bytes =
        (deployment.setAgent 0 agent.countTransformFailure, bytes) ∧
      ∃ a', (deployment.transformBy 0 "acme/Store" bytes').1.agent? 0 = some a' ∧
        a'.installed.patchCount (joinKey "acme/Store" "bulk") = 1 ∧
          a'.pipeline.transformFailures = 0 ∧
            (deployment.transformBy 0 "acme/Store" bytes').2 ≠ bytes' ∧
              (deployment.transformBy 0 "acme/Store" bytes').1.disk.file?
                  ["srv", "copies", "acme", "Store.vpa"] =
                some (deployment.transformBy 0 "acme/Store" bytes').2 := by
  obtain ⟨bytes, extended, hdecode, hdecode', hextend⟩ := Exhausted.exists_extended
  obtain ⟨bytes', extended', hroomy, hroomy', hextend'⟩ := Exhausted.exists_extended_roomy
  obtain ⟨bytes'', hpatched⟩ := patching_roomy hroomy'
  have hagent : deployment.agent? 0 = some agent := rfl
  have hfailed := (Deployment.transformBy_all_or_nothing hagent tracksPatches "acme/Store" bytes).1
    (fails_store hextend hdecode')
  obtain ⟨x, p, a', hx, hp, ha', hnotes, hleaves⟩ :=
    (Deployment.transformBy_all_or_nothing hagent tracksPatches "acme/Store" bytes').2
      (Agent.not_fails_of_ok (extension_eq hextend') hpatched)
  obtain rfl := Except.ok.inj ((extension_eq hextend').symm.trans hx)
  obtain rfl := Except.ok.inj (hpatched.symm.trans hp)
  have hbulk : "bulk" ∈ agent.listed "acme/Store" := listed_bulk ▸ List.mem_cons_self
  have hnew := hleaves.changed.2 (.inl rfl)
  have hcopy := (hleaves.dumped hnew "copies" rfl).copy (by decide +kernel)
  have hplace : deployment.disk.locate (Dump.fileFor "copies" "acme/Store") =
      ["srv", "copies", "acme", "Store.vpa"] := by decide +kernel
  exact ⟨bytes, bytes', hdecode, hroomy, hfailed, a', ha', (hnotes.patched rfl).2 "bulk" hbulk,
    hnotes.failures, hnew, hplace ▸ hcopy⟩

end Copying

end CallPatch
