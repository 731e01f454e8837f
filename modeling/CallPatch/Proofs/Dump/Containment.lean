import CallPatch.Proofs.Deployment.AllOrNothing
/-!
# Dumps — which copies stay in the dump directory

A transformation that changes the bytes of an owner writes a copy of them to a path made
from the owner's name. Nothing checks the name. The copy lies below the dump directory,
whichever that is, just when the name opens with no slash and does not climb, and the
copies of two such owners are kept apart where their names come to different names of
files (`copies_contained`). A name that climbs leads out of the directory, and one copy
takes the place of another where their names come to one file: empty parts and single dots
are not seen in it (`Astray.copies_astray`).
-/

namespace CallPatch

namespace Dump

variable {owner : String}

/-- A name that opens with a slash has an empty part in front. -/
theorem Plain.isRooted_eq (h : Plain owner) : isRooted owner = false := by
  rw [← Bool.not_eq_true]
  intro hrooted
  obtain ⟨cs, hcs⟩ := List.head?_eq_some_iff.1 (of_decide_eq_true hrooted)
  have hparts : parts owner = "" :: parts (.ofList cs) := by
    rw [parts, hcs, List.splitOn_cons_eq_if_modifyHead, if_pos (beq_self_eq_true '/'), parts,
      String.toList_ofList]
    rfl
  have hrest : parts (.ofList cs) ≠ [] := fun hnil =>
    List.splitOn_ne_nil '/' _ (List.map_eq_nil_iff.1 hnil)
  have hempty : "" ∈ folders owner := by
    rw [folders, hparts, List.dropLast_cons_of_ne_nil hrest]
    exact List.mem_cons_self
  exact absurd (h "" hempty).1 (by decide)

theorem Plain.stays (h : Plain owner) : Stays owner := by
  rw [← destination_ne_none_iff, destination_plain h]
  exact Option.some_ne_none _

/-- Two names that do not climb lead to one file just when they come to the same names. -/
theorem locate_eq_iff {owner' : String} (working : List String) (dir : String)
    (hrelative : isRooted owner = false) (hrelative' : isRooted owner' = false)
    (hstays : Stays owner) (hstays' : Stays owner') :
    locate working (fileFor dir owner) = locate working (fileFor dir owner') ↔
      destination owner = destination owner' := by
  obtain ⟨names, hnames⟩ := hstays.destination_eq
  obtain ⟨names', hnames'⟩ := hstays'.destination_eq
  rw [locate_of_destination working dir hrelative hnames,
    locate_of_destination working dir hrelative' hnames', List.append_right_inj, hnames, hnames',
    Option.some_inj]

/-- Plain names are kept apart. -/
theorem Plain.eq_of_destination {owner' : String} (h : Plain owner) (h' : Plain owner')
    (hsame : destination owner = destination owner') : owner = owner' := by
  rw [destination_plain h, destination_plain h'] at hsame
  exact eq_of_pathOf_eq (eq_of_parts_eq (Option.some.inj hsame))

end Dump

namespace Deployment

open Dump

variable {d : Deployment} {n : Nat} {a : Agent} {dir owner : String} {bytes : Bytes}

/-- New bytes are written to the disk, if a copy is asked for. -/
theorem written_transformBy (hn : d.agent? n = some a) (hdir : a.config.dumpDir = some dir)
    (hnew : (d.transformBy n owner bytes).2 ≠ bytes) :
    d.disk.Written (d.transformBy n owner bytes).1.disk dir owner
      (d.transformBy n owner bytes).2 := by
  by_cases hfails : a.Fails d.host.supertypeTable owner bytes
  · rw [transformBy_of_fails hn hfails] at hnew
    exact absurd rfl hnew
  · obtain ⟨x, p, hx, hp⟩ := Agent.exists_of_not_fails hfails
    exact (leaves_of_ok hn hx hp).dumped hnew dir hdir

/-- **Copies stay in the dump directory, and apart, as far as the names of the owners do.** Take a
transformation that changes the bytes of an owner. If the copy can be written its file holds them,
wherever its path leads, and no other file is touched. That is below the dump directory, whichever
it is, just when the owner's name opens with no slash and does not climb. Another such name leads
to the same file just when both come to the same names, and never if both are plain. -/
theorem copies_contained (hn : d.agent? n = some a) (hdir : a.config.dumpDir = some dir)
    (hnew : (d.transformBy n owner bytes).2 ≠ bytes) :
    d.disk.Written (d.transformBy n owner bytes).1.disk dir owner
        (d.transformBy n owner bytes).2 ∧
      ((∀ dir', Below (d.disk.locate (fileFor dir' owner)) (d.disk.locate dir')) ↔
        isRooted owner = false ∧ Stays owner) ∧
      (isRooted owner = false → Stays owner →
        ∀ owner', isRooted owner' = false → Stays owner' →
          (d.disk.locate (fileFor dir owner') = d.disk.locate (fileFor dir owner) ↔
            destination owner' = destination owner)) ∧
      (Plain owner → ∀ owner', Plain owner' → owner' ≠ owner →
        d.disk.locate (fileFor dir owner') ≠ d.disk.locate (fileFor dir owner)) := by
  refine ⟨written_transformBy hn hdir hnew, below_iff d.disk.working, ?_, ?_⟩
  · intro hrelative hstays owner' hrelative' hstays'
    exact locate_eq_iff d.disk.working dir hrelative' hrelative hstays' hstays
  · intro hplain owner' hplain' hne hsame
    have hcome := (locate_eq_iff d.disk.working dir hplain'.isRooted_eq hplain.isRooted_eq
      hplain'.stays hplain.stays).1
    exact hne (hplain'.eq_of_destination hplain (hcome hsame))

end Deployment

/-! ## Names that lead elsewhere -/

namespace Astray

open Dump

/-- Four stores are extended, and copies are kept. -/
def config : AgentConfig :=
  { Copying.config with
    baseImplementations := ["acme/Store", "acme//Store", "../acme/Store", "/acme/Store"] }

/-- An agent on an empty disk. -/
def deployment : Deployment :=
  { Copying.deployment with agents := [.fresh config true] }

/-- A store of that name. -/
def store (name : String) : Artifact :=
  { Exhausted.roomy with name }

variable {d : Deployment} {owner : String}

/-- Each store is changed when it is transformed, and the agent is as it was. -/
theorem exists_extended (hd : d.agent? 0 = some (.fresh config true))
    (howner : owner ∈ config.baseImplementations) :
    ∃ bytes, Artifact.decode bytes = .ok (store owner) ∧
      (d.transformBy 0 owner bytes).2 ≠ bytes ∧
        Artifact.decode (d.transformBy 0 owner bytes).2 = .ok (store owner).extended ∧
          (d.transformBy 0 owner bytes).1.agent? 0 = some (.fresh config true) := by
  have hlengths : ∀ owner ∈ config.baseImplementations,
      (store owner).document.length ≤ Frame.defaultMax ∧
        (store owner).extended.document.length ≤ Frame.defaultMax := by
    decide +kernel
  obtain ⟨hlength, hlength'⟩ := hlengths owner howner
  obtain ⟨bytes, bytes', hdecode, hdecode', hextend⟩ := exists_extendStore (a := store owner)
    (b := (store owner).extended) rfl rfl hlength hlength'
  have hbase : (Agent.fresh config true).config.isBaseImplementation owner = true :=
    List.contains_iff_mem.2 howner
  have hlisted : (Agent.fresh config true).listed owner = [] := rfl
  have hextension : (Agent.fresh config true).extension owner bytes = .ok ⟨bytes', true⟩ := by
    rw [Agent.extension, if_pos hbase, hextend]
  have hpatching : (Agent.fresh config true).patching d.host.supertypeTable owner bytes' =
      .ok ⟨bytes', 0⟩ := by
    rw [Agent.patching, if_pos hlisted]
  have hleaves := Deployment.leaves_of_ok (n := 0) hd hextension hpatching
  refine ⟨bytes, hdecode, hleaves.changed.2 (.inl rfl), hleaves.current ▸ hdecode', ?_⟩
  rw [Deployment.agent?_transformBy hd, if_pos rfl, Agent.transform_of_ok hextension hpatching,
    Agent.noting_of_untouched rfl, if_pos hlisted]

/-- All four copies can be written. -/
theorem writable : ∀ owner ∈ config.baseImplementations,
    deployment.disk.Writable "copies" owner := by
  decide +kernel

/-- Where the names lead that open with a slash or climb. -/
def outside : List (String × List String) :=
  [("../acme/Store", ["srv", "acme", "Store.vpa"]), ("/acme/Store", ["acme", "Store.vpa"])]

/-- Where the others lead. -/
def shared : List String :=
  ["srv", "copies", "acme", "Store.vpa"]

/-- Two copies are written to files outside the dump directory. Of two others one takes the place
of the other. -/
theorem copies_astray :
    (∀ copy ∈ outside, ∃ bytes left, Artifact.decode bytes = .ok (store copy.1) ∧
        deployment.transformBy 0 copy.1 bytes = left ∧ left.2 ≠ bytes ∧
          left.1.disk.file? copy.2 = some left.2 ∧
            ¬ Below copy.2 (deployment.disk.locate "copies")) ∧
      ∃ bytes bytes' left left', Artifact.decode bytes = .ok (store "acme/Store") ∧
        Artifact.decode bytes' = .ok (store "acme//Store") ∧
          deployment.transformBy 0 "acme/Store" bytes = left ∧
            left.1.transformBy 0 "acme//Store" bytes' = left' ∧
              left.1.disk.file? shared = some left.2 ∧
                left'.1.disk.file? shared = some left'.2 ∧ left.2 ≠ left'.2 := by
  have hagent : deployment.agent? 0 = some (.fresh config true) := rfl
  have hdir : (Agent.fresh config true).config.dumpDir = some "copies" := rfl
  constructor
  · have houtside : ∀ copy ∈ outside, copy.1 ∈ config.baseImplementations ∧
        deployment.disk.locate (fileFor "copies" copy.1) = copy.2 ∧
          ¬ (deployment.disk.locate "copies" <+: copy.2) := by
      decide +kernel
    intro copy hcopy
    obtain ⟨howner, hplace, hnot⟩ := houtside copy hcopy
    obtain ⟨bytes, hdecode, hnew, -, -⟩ := exists_extended hagent howner
    have hwritten := Deployment.written_transformBy hagent hdir hnew
    refine ⟨bytes, _, hdecode, rfl, hnew, hplace ▸ hwritten.copy (writable _ howner), ?_⟩
    rintro ⟨names, -, hbelow⟩
    exact hnot ⟨names, hbelow.symm⟩
  · have howner : "acme/Store" ∈ config.baseImplementations := by decide
    have howner' : "acme//Store" ∈ config.baseImplementations := by decide
    have hplace : deployment.disk.locate (fileFor "copies" "acme/Store") = shared := by
      decide +kernel
    have hsame : deployment.disk.locate (fileFor "copies" "acme//Store") =
        deployment.disk.locate (fileFor "copies" "acme/Store") := by decide +kernel
    obtain ⟨bytes, hdecode, hnew, hmade, hagent'⟩ := exists_extended hagent howner
    obtain ⟨bytes', hdecode', hnew', hmade', -⟩ := exists_extended hagent' howner'
    have hwritten := Deployment.written_transformBy hagent hdir hnew
    have hwritten' := Deployment.written_transformBy hagent' hdir hnew'
    have hcopy' := hwritten.replaced hwritten' (writable _ howner) (writable _ howner') hsame
    refine ⟨bytes, bytes', _, _, hdecode, hdecode', rfl, rfl,
      hplace ▸ hwritten.copy (writable _ howner), hplace ▸ hcopy', fun heq => ?_⟩
    rw [← heq, hmade] at hmade'
    exact absurd (congrArg Artifact.name (Except.ok.inj hmade')) (by decide)

/-- The copy of `acme/Store` is written below the directory, to the file that that of `acme//Store`
shares, and apart from that of another store. -/
theorem copies_contained_shared : ∃ bytes left,
    deployment.transformBy 0 "acme/Store" bytes = left ∧ left.2 ≠ bytes ∧
      left.1.disk.file? shared = some left.2 ∧
        (∀ dir, Below (deployment.disk.locate (fileFor dir "acme/Store"))
          (deployment.disk.locate dir)) ∧
          deployment.disk.locate (fileFor "copies" "acme//Store") =
              deployment.disk.locate (fileFor "copies" "acme/Store") ∧
            deployment.disk.locate (fileFor "copies" "acme/Cache") ≠
              deployment.disk.locate (fileFor "copies" "acme/Store") := by
  have hagent : deployment.agent? 0 = some (.fresh config true) := rfl
  have hdir : (Agent.fresh config true).config.dumpDir = some "copies" := rfl
  have howner : "acme/Store" ∈ config.baseImplementations := by decide
  obtain ⟨bytes, -, hnew, -, -⟩ := exists_extended hagent howner
  have hplain : Plain "acme/Store" := by decide +kernel
  have hplain' : Plain "acme/Cache" := by decide +kernel
  have hcome : destination "acme//Store" = destination "acme/Store" := by decide +kernel
  have hstays' : Stays "acme//Store" := by
    rw [← destination_ne_none_iff, hcome, destination_ne_none_iff]
    exact hplain.stays
  have hplace : deployment.disk.locate (fileFor "copies" "acme/Store") = shared := by
    decide +kernel
  obtain ⟨hwritten, hbelow, hshared, happart⟩ :=
    Deployment.copies_contained hagent hdir hnew
  exact ⟨bytes, _, rfl, hnew, hplace ▸ hwritten.copy (writable _ howner),
    hbelow.2 ⟨hplain.isRooted_eq, hplain.stays⟩,
    (hshared hplain.isRooted_eq hplain.stays "acme//Store" rfl hstays').2 hcome,
    happart hplain "acme/Cache" hplain' (by decide)⟩

end Astray

end CallPatch
