import CallPatch.Agent.Basic
import CallPatch.Host.Basic
import CallPatch.Proofs.Patch.Subset
/-!
# Agents — what a transformation makes of the bytes

The bytes that come out of a transformation, as a function of what it goes by:
the configuration, what counts as a store, and the members listed for the owner
(`treat`). An agent's transformation is two passes, of which one fails or both go
through (`Agent.tries_tryTransform`). It comes to what the treatment comes to
(`Agent.getD_transform`), and changes nothing of the agent but what it notes of its
work (`Agent.Annotates`).

What comes out does not depend on the order of the list (`treat_congr`), there
is an outcome for fewer members where there is one for more (`treat_of_subset`),
and the supertypes it declares are the same whichever members are patched
(`declaredBy_of_treat`).
-/

namespace CallPatch

namespace AgentConfig

variable {config : AgentConfig} {scope : Scope} {owner : String} {names names' : List String}
variable {bytes treated : Bytes}

/-- The bytes extended, if the owner is a base implementation. -/
def extendBase (config : AgentConfig) (owner : String) (bytes : Bytes) : Except PatchError Bytes :=
  if config.isBaseImplementation owner then (extendStore bytes).map Extended.bytes else .ok bytes

/-- The bytes extended, if the owner is a base implementation, and then patched in the named
members, if there are any. -/
def treat (config : AgentConfig) (scope : Scope) (owner : String) (names : List String)
    (bytes : Bytes) : Except PatchError Bytes := do
  let extended ← config.extendBase owner bytes
  if names = [] then return extended
  else return (← patchCallSites scope names extended).bytes

theorem treat_of_error {e : PatchError} (h : config.extendBase owner bytes = .error e) :
    config.treat scope owner names bytes = .error e := by
  unfold treat
  rw [h]
  rfl

/-- Past the extension it is all patching. -/
theorem treat_of_ok {extended : Bytes} (h : config.extendBase owner bytes = .ok extended) :
    config.treat scope owner names bytes =
      if names = [] then .ok extended
      else (patchCallSites scope names extended).map Patched.bytes := by
  unfold treat
  rw [h]
  by_cases hnames : names = []
  · rw [if_pos hnames]
    show (if names = [] then _ else _) = _
    rw [if_pos hnames]
    rfl
  · rw [if_neg hnames]
    show (if names = [] then _ else _) = _
    rw [if_neg hnames]
    cases patchCallSites scope names extended <;> rfl

/-- Without members there is only the extension. -/
theorem treat_nil : config.treat scope owner [] bytes = config.extendBase owner bytes := by
  rcases h : config.extendBase owner bytes with e | extended
  · exact treat_of_error h
  · rw [treat_of_ok h, if_pos rfl]

theorem treat_eq_ok_iff :
    config.treat scope owner names bytes = .ok treated ↔
      ∃ extended, config.extendBase owner bytes = .ok extended ∧
        (names = [] ∧ treated = extended ∨
          names ≠ [] ∧ ∃ p, patchCallSites scope names extended = .ok p ∧ treated = p.bytes) := by
  simp only [treat, bind_eq_ok_iff]
  refine exists_congr fun extended => and_congr_right fun _ => ?_
  by_cases hnames : names = []
  · simp [hnames, pure, Except.pure, eq_comm]
  · simp only [hnames, if_false, bind_eq_ok_iff]
    simp [hnames, pure, Except.pure, eq_comm]

/-- The order of the list does not matter, nor how often a member is in it. -/
theorem treat_congr (h : ∀ name, name ∈ names ↔ name ∈ names') :
    config.treat scope owner names = config.treat scope owner names' := by
  have hnil : names = [] ↔ names' = [] := by
    rw [List.eq_nil_iff_forall_not_mem, List.eq_nil_iff_forall_not_mem]
    exact forall_congr' fun name => not_congr (h name)
  funext bytes
  unfold treat
  rw [patchCallSites_congr h]
  simp only [hnil]

/-- Where there is an outcome with some members there is one with fewer. -/
theorem treat_of_subset (h : names ⊆ names')
    (htreated : config.treat scope owner names' bytes = .ok treated) :
    ∃ treated', config.treat scope owner names bytes = .ok treated' := by
  obtain ⟨extended, hextended, hcases⟩ := treat_eq_ok_iff.1 htreated
  by_cases hnames : names = []
  · exact ⟨_, treat_eq_ok_iff.2 ⟨extended, hextended, .inl ⟨hnames, rfl⟩⟩⟩
  · rcases hcases with ⟨hnil, -⟩ | ⟨-, p, hp, -⟩
    · exact absurd (List.subset_nil.1 (hnil ▸ h)) hnames
    · obtain ⟨q, hq⟩ := patchCallSites_of_subset h hp
      exact ⟨_, treat_eq_ok_iff.2 ⟨extended, hextended, .inr ⟨hnames, q, hq, rfl⟩⟩⟩

/-- An extension takes nothing away from what is declared. -/
theorem declaredBy_subset {extended : Bytes} (h : config.extendBase owner bytes = .ok extended) :
    Host.declaredBy bytes ⊆ Host.declaredBy extended := by
  unfold extendBase at h
  split at h
  · rcases hextend : extendStore bytes with e | e
    · rw [hextend] at h
      cases h
    · rw [hextend] at h
      obtain rfl : e.bytes = extended := Except.ok.inj h
      obtain ⟨a, hdecode, ⟨-, rfl⟩ | ⟨-, b, hb, bytes', hencode, rfl⟩⟩ :=
        extendStore_eq_ok_iff.1 hextend
      · exact List.Subset.refl _
      · have hdecode' : Artifact.decode bytes' = .ok b := Artifact.decode_encode hencode
        obtain ⟨-, -, rfl⟩ := Artifact.extend_eq_ok_iff.1 hb
        simp only [Host.declaredBy, hdecode, hdecode']
        exact List.subset_append_left _ _
  · obtain rfl : bytes = extended := Except.ok.inj h
    exact List.Subset.refl _

/-- What is declared depends on the extension alone. -/
theorem declaredBy_of_treat {extended : Bytes}
    (hextended : config.extendBase owner bytes = .ok extended)
    (htreated : config.treat scope owner names bytes = .ok treated) :
    Host.declaredBy treated = Host.declaredBy extended := by
  obtain ⟨extended', hextended', hcases⟩ := treat_eq_ok_iff.1 htreated
  obtain rfl : extended = extended' := Except.ok.inj (hextended.symm.trans hextended')
  rcases hcases with ⟨-, rfl⟩ | ⟨-, p, hp, rfl⟩
  · rfl
  · obtain ⟨a, b, hdecode, hdecode', -, hsupertypes⟩ := decode_of_patchCallSites hp
    simp only [Host.declaredBy, hdecode, hdecode', hsupertypes]

end AgentConfig

/-- The outcome, or the bytes as they were if there is none. -/
def Agent.outcome (a : Agent) (supertypes : Supertypes) (owner : String) (names : List String)
    (bytes : Bytes) : Bytes :=
  match a.config.treat (a.scope supertypes) owner names bytes with
  | .ok treated => treated
  | .error _ => bytes

namespace Agent

variable {a a' : Agent} {supertypes : Supertypes} {owner : String} {names : List String}
variable {bytes : Bytes}

theorem outcome_of_ok {treated : Bytes}
    (h : a.config.treat (a.scope supertypes) owner names bytes = .ok treated) :
    a.outcome supertypes owner names bytes = treated := by
  rw [outcome, h]

/-- After a failure the bytes are those given. -/
theorem outcome_of_error {e : PatchError}
    (h : a.config.treat (a.scope supertypes) owner names bytes = .error e) :
    a.outcome supertypes owner names bytes = bytes := by
  rw [outcome, h]

/-- The second agent is the first with other times and counters. -/
def Annotates (a a' : Agent) : Prop :=
  ∃ timeline pipeline, a' = { a with installed := { a.installed with timeline }, pipeline }

theorem Annotates.refl (a : Agent) : a.Annotates a :=
  ⟨_, _, rfl⟩

theorem Annotates.trans {a'' : Agent} (h : a.Annotates a') (h' : a'.Annotates a'') :
    a.Annotates a'' := by
  obtain ⟨timeline, pipeline, rfl⟩ := h
  obtain ⟨timeline', pipeline', rfl⟩ := h'
  exact ⟨_, _, rfl⟩

theorem Annotates.config_eq (h : a.Annotates a') : a'.config = a.config := by
  obtain ⟨timeline, pipeline, rfl⟩ := h
  rfl

/-- The members that a transformation reads: those listed to it, if it gets past the extension. -/
def reading (a : Agent) (owner : String) (names : List String) (bytes : Bytes) :
    Option (List String) :=
  match a.config.extendBase owner bytes with
  | .ok _ => some names
  | .error _ => none

/-- The members listed to a transformation when the index lists them in order. -/
def listed (a : Agent) (owner : String) : List String :=
  (a.installed.membersOf? owner).getD []

/-- A list that is shown is not empty. -/
theorem ne_nil_of_membersOf? {ix : EntryIndex} (h : ix.membersOf? owner = some names) :
    names ≠ [] := by
  obtain ⟨g, -, hg⟩ := Option.bind_eq_some_iff.1 h
  rw [MemberSet.snapshot?] at hg
  split at hg
  · cases hg
  · next hmembers =>
    obtain rfl := Option.some.inj hg
    obtain ⟨m, hm⟩ := List.exists_mem_of_ne_nil _ hmembers
    exact List.ne_nil_of_mem (List.mem_mergeSort.2 hm)

/-- The extension of a transformation is that of the configuration. -/
theorem extended?_eq (a : Agent) (owner : String) (bytes : Bytes) :
    (a.extended? owner bytes).map (fun extended => extended.getD bytes) =
      a.config.extendBase owner bytes := by
  unfold extended? AgentConfig.extendBase
  split
  · rcases h : extendStore bytes with e | e
    · rfl
    · -- a store that is not extended comes back as it was
      obtain ⟨-, -, ⟨-, rfl⟩ | ⟨-, -, -, -, -, rfl⟩⟩ := extendStore_eq_ok_iff.1 h <;> rfl
  · rfl

/-! ## The two passes of a transformation -/

/-- The first pass. Nobody is extended but base implementations. -/
def extension (a : Agent) (owner : String) (bytes : Bytes) : Except PatchError Extended :=
  if a.config.isBaseImplementation owner then extendStore bytes else .ok ⟨bytes, false⟩

/-- The second pass. Where no member is installed there is nothing to patch. -/
def patching (a : Agent) (supertypes : Supertypes) (owner : String) (bytes : Bytes) :
    Except PatchError Patched :=
  if a.listed owner = [] then .ok ⟨bytes, 0⟩
  else patchCallSites (a.scope supertypes) (a.listed owner) bytes

/-- What the agent notes when both have gone through. -/
def noting (a : Agent) (owner : String) (p : Patched) : Agent :=
  if p.transformed then { a with installed := a.installed.markPatched owner (a.listed owner) }
  else if a.listed owner = [] then a
  else a.countUntransformed

variable {x : Extended} {p : Patched}

/-- The extension leaves the bytes as they were, or encodes the store it extends. -/
theorem extension_cases (h : a.extension owner bytes = .ok x) :
    x.transformed = false ∧ x.bytes = bytes ∨
      x.transformed = true ∧ ∃ store extended, Artifact.decode bytes = .ok store ∧
        store.declares Store.marker = false ∧ store.extend = .ok extended ∧
          Artifact.decode x.bytes = .ok extended := by
  unfold extension at h
  split at h
  · obtain ⟨store, hdecode, ⟨-, rfl⟩ | ⟨hunmarked, extended, hextend, _, hencode, rfl⟩⟩ :=
      extendStore_eq_ok_iff.1 h
    · exact .inl ⟨rfl, rfl⟩
    · exact .inr ⟨rfl, store, extended, hdecode, hunmarked, hextend, Artifact.decode_encode hencode⟩
  · obtain rfl := Except.ok.inj h
    exact .inl ⟨rfl, rfl⟩

/-- And so does the patching leave them, or encode the artifact it patches. -/
theorem patching_cases (h : a.patching supertypes owner bytes = .ok p) :
    p.transformed = false ∧ p.bytes = bytes ∨
      p.transformed = true ∧ ∃ found patched, Artifact.decode bytes = .ok found ∧
        found.patch (a.scope supertypes) (a.listed owner) = .ok (patched, p.sites) ∧
          Artifact.decode p.bytes = .ok patched := by
  unfold patching at h
  split at h
  · obtain rfl := Except.ok.inj h
    exact .inl ⟨rfl, rfl⟩
  · obtain ⟨found, hdecode, patched, sites, hpatch, ⟨rfl, rfl⟩ | ⟨hsites, _, hencode, rfl⟩⟩ :=
      patchCallSites_eq_ok_iff.1 h
    · exact .inl ⟨rfl, rfl⟩
    · exact .inr ⟨decide_eq_true hsites, found, patched, hdecode, hpatch,
        Artifact.decode_encode hencode⟩

theorem bytes_of_extension (h : a.extension owner bytes = .ok x) (hsame : x.transformed = false) :
    x.bytes = bytes := by
  rcases extension_cases h with ⟨-, hbytes⟩ | ⟨htransformed, -⟩
  · exact hbytes
  · exact absurd htransformed (by simp [hsame])

theorem bytes_of_patching (h : a.patching supertypes owner bytes = .ok p)
    (hsame : p.transformed = false) : p.bytes = bytes := by
  rcases patching_cases h with ⟨-, hbytes⟩ | ⟨htransformed, -⟩
  · exact hbytes
  · exact absurd htransformed (by simp [hsame])

theorem map_extension (a : Agent) (owner : String) (bytes : Bytes) :
    (a.extension owner bytes).map Extended.bytes = a.config.extendBase owner bytes := by
  unfold extension AgentConfig.extendBase
  split <;> rfl

/-- The treatment is one pass after the other. -/
theorem treat_of_extension (h : a.extension owner bytes = .ok x) :
    a.config.treat (a.scope supertypes) owner (a.listed owner) bytes =
      (a.patching supertypes owner x.bytes).map Patched.bytes := by
  have hbase : a.config.extendBase owner bytes = .ok x.bytes := by
    rw [← map_extension, h]
    rfl
  rw [AgentConfig.treat_of_ok hbase, patching]
  split <;> rfl

theorem annotates_noting (a : Agent) (owner : String) (p : Patched) :
    a.Annotates (a.noting owner p) := by
  unfold noting
  split
  · exact ⟨_, _, rfl⟩
  · split
    · exact .refl a
    · exact ⟨_, _, rfl⟩

/-- How an attempt to transform goes. One of the passes fails, and the agent is as it was, or both
go through. -/
inductive Tries (a : Agent) (supertypes : Supertypes) (owner : String) (bytes : Bytes) :
    Agent × Except PatchError (Option Bytes) → Prop where
  | notExtended {e : PatchError} (h : a.extension owner bytes = .error e) :
      Tries a supertypes owner bytes (a, .error e)
  | notPatched {x : Extended} {e : PatchError} (hx : a.extension owner bytes = .ok x)
      (h : a.patching supertypes owner x.bytes = .error e) :
      Tries a supertypes owner bytes (a, .error e)
  | done {x : Extended} {p : Patched} (hx : a.extension owner bytes = .ok x)
      (hp : a.patching supertypes owner x.bytes = .ok p) :
      Tries a supertypes owner bytes
        (a.noting owner p, .ok (if x.transformed || p.transformed then some p.bytes else none))

theorem patchInstalled_of_error {e : PatchError}
    (h : a.patching supertypes owner bytes = .error e) :
    a.patchInstalled supertypes owner bytes = (a, .error e) := by
  unfold patching listed at h
  unfold patchInstalled
  rcases hnames : a.installed.membersOf? owner with - | names
  · rw [hnames] at h
    cases h
  · rw [hnames, Option.getD_some, if_neg (ne_nil_of_membersOf? hnames)] at h
    dsimp only
    rw [h]

theorem patchInstalled_of_ok (h : a.patching supertypes owner bytes = .ok p) :
    a.patchInstalled supertypes owner bytes =
      (a.noting owner p, .ok (if p.transformed then some p.bytes else none)) := by
  unfold patching listed at h
  unfold patchInstalled noting listed
  rcases hnames : a.installed.membersOf? owner with - | names
  · rw [hnames] at h
    obtain rfl := Except.ok.inj h
    rfl
  · have hne := ne_nil_of_membersOf? hnames
    rw [hnames, Option.getD_some, if_neg hne] at h
    dsimp only
    rw [h, Option.getD_some, if_neg hne]
    dsimp only
    split <;> rfl

/-- **Every attempt to transform goes so.** -/
theorem tries_tryTransform (a : Agent) (supertypes : Supertypes) (owner : String) (bytes : Bytes) :
    a.Tries supertypes owner bytes (a.tryTransform supertypes owner bytes) := by
  have hextended : a.extended? owner bytes = (a.extension owner bytes).map fun x =>
      if x.transformed then some x.bytes else none := by
    unfold extended? extension
    split <;> rfl
  unfold tryTransform
  rcases hx : a.extension owner bytes with e | x
  · rw [hextended, hx]
    exact .notExtended hx
  · have hcurrent : (if x.transformed then some x.bytes else none).getD bytes = x.bytes := by
      cases hsame : x.transformed with
      | true => rfl
      | false => exact (bytes_of_extension hx hsame).symm
    rw [hextended, hx]
    dsimp only [Except.map]
    rw [hcurrent]
    rcases hp : a.patching supertypes owner x.bytes with e | p
    · rw [patchInstalled_of_error hp]
      exact .notPatched hx hp
    · rw [patchInstalled_of_ok hp]
      have hdone := Tries.done hx hp
      cases hpatched : p.transformed with
      | true =>
        rw [hpatched, Bool.or_true] at hdone
        exact hdone
      | false =>
        -- the bytes are those that the extension left
        rw [hpatched, Bool.or_false, bytes_of_patching hp hpatched] at hdone
        exact hdone

/-- An attempt to transform is the treatment with the members in order. -/
theorem tryTransform_snd (a : Agent) (supertypes : Supertypes) (owner : String) (bytes : Bytes) :
    (a.tryTransform supertypes owner bytes).2.map (fun changed => changed.getD bytes) =
      a.config.treat (a.scope supertypes) owner (a.listed owner) bytes := by
  have htries := a.tries_tryTransform supertypes owner bytes
  generalize a.tryTransform supertypes owner bytes = tried at htries
  cases htries with
  | notExtended h =>
    have hbase := a.map_extension owner bytes
    rw [h] at hbase
    exact (AgentConfig.treat_of_error hbase.symm).symm
  | notPatched hx h =>
    rw [treat_of_extension hx, h]
    rfl
  | @done x p hx hp =>
    rw [treat_of_extension hx, hp]
    refine congrArg Except.ok ?_
    cases hextended : x.transformed with
    | true => rfl
    | false =>
      cases hpatched : p.transformed with
      | true => rfl
      | false => rw [bytes_of_patching hp hpatched, bytes_of_extension hx hextended]; rfl

/-- **A transformation comes to the outcome for the members in order.** -/
theorem getD_transform (a : Agent) (supertypes : Supertypes) (owner : String) (bytes : Bytes) :
    (a.transform supertypes owner bytes).2.getD bytes =
      a.outcome supertypes owner (a.listed owner) bytes := by
  have htried := a.tryTransform_snd supertypes owner bytes
  unfold transform outcome
  rw [← htried]
  rcases a.tryTransform supertypes owner bytes with ⟨a', e | changed⟩ <;> rfl

/-- A transformation changes nothing of the agent but what it notes. -/
theorem annotates_transform (a : Agent) (supertypes : Supertypes) (owner : String)
    (bytes : Bytes) : a.Annotates (a.transform supertypes owner bytes).1 := by
  have htries := a.tries_tryTransform supertypes owner bytes
  unfold transform
  generalize a.tryTransform supertypes owner bytes = tried at htries
  cases htries with
  | notExtended h => exact ⟨_, _, rfl⟩
  | notPatched hx h => exact ⟨_, _, rfl⟩
  | done hx hp => exact annotates_noting ..

end Agent

end CallPatch
