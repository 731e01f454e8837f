import CallPatch.Proofs.Index.Content
/-!
# Entry indexes — the history of patches

An index that records patches remembers each one under the joined key of the entry.
That it does so, and that no member waits twice in the set of its owner, is true of it
from the start, and every call leaves it so (`TracksPatches`). The sets are sets at any
time, whichever threads are in their calls (`tracksPatches_of_reachable`).

When members of one owner are marked as patched, the history of each of them gains one
patch (`TracksPatches.patchCount_markPatched`), and no other history gains any
(`TracksPatches.patchCount_markPatched_of_ne`).
-/

namespace CallPatch

/-- Members of one owner have different joined keys. -/
theorem joinKey_injective (owner : String) : Function.Injective (joinKey owner) := by
  intro member member' h
  simpa [joinKey, EntryKey.joined] using h

namespace Timeline

/-- Recording an arrival does not change which records are kept. -/
theorem tracking_recordArrival (t : Timeline) (key : String) :
    (t.recordArrival key).tracking = t.tracking := by
  unfold recordArrival
  split <;> rfl

/-- The patches of members are recorded one behind the other. -/
theorem foldl_markPatched {t : Timeline} (h : t.tracking = .patches) (owner : String)
    (members : List String) :
    members.foldl (fun t member => t.markPatched (joinKey owner member)) t =
      { t with patches := t.patches ++ members.map (joinKey owner) } := by
  induction members generalizing t with
  | nil => rw [List.map_nil, List.append_nil, List.foldl_nil]
  | cons member members ih =>
    have hone : t.markPatched (joinKey owner member) =
        { t with patches := t.patches ++ [joinKey owner member] } := by
      rw [markPatched, h]
    have hrest := ih (t := { t with patches := t.patches ++ [joinKey owner member] }) h
    rw [List.foldl_cons, hone, hrest, List.append_assoc]
    rfl

end Timeline

/-- A member is inserted once. -/
theorem MemberSet.nodup_insert {s : MemberSet} (h : s.members.Nodup) (member : String) :
    (s.insert member).1.members.Nodup := by
  unfold MemberSet.insert
  split
  · exact h
  · next hnew =>
    have hmember : member ∉ s.members := fun hmem => hnew (List.contains_iff_mem.2 hmem)
    exact List.nodup_append'.2 ⟨h, List.nodup_singleton _, List.disjoint_singleton.2 hmember⟩

namespace EntryIndex

variable {ix : EntryIndex} {owner member joined : String} {members : List String}

/-! ## Indexes that record patches -/

/-- The index records patches, and each member waits once in the set of its owner. -/
structure TracksPatches (ix : EntryIndex) : Prop where
  tracking : ix.tracking = .patches
  sets : ∀ g ∈ ix.groups, g.members.Nodup

theorem tracksPatches_installed : installed.TracksPatches :=
  ⟨rfl, nofun⟩

theorem TracksPatches.place (h : ix.TracksPatches) (key : EntryKey) :
    (ix.place key).1.TracksPatches := by
  unfold EntryIndex.place
  split
  · refine ⟨h.tracking, List.forall_mem_append.2 ⟨h.sets, ?_⟩⟩
    exact List.forall_mem_singleton.2 (List.nodup_singleton _)
  · split
    · exact ⟨h.tracking, h.sets⟩
    · refine ⟨h.tracking, fun g hg => ?_⟩
      rcases mem_or_of_mem_modifyFirst hg with hold | ⟨g', hg', rfl⟩
      · exact h.sets g hold
      · exact MemberSet.nodup_insert (h.sets g' hg') _

/-- A report leaves it so. -/
theorem TracksPatches.report (h : ix.TracksPatches) (key : EntryKey) :
    (ix.report key).1.TracksPatches := by
  unfold EntryIndex.report
  split
  · exact ⟨h.tracking, h.sets⟩
  · have hadded : ({ ix with
        existence := ix.existence ++ [key.joined]
        timeline := ix.timeline.recordArrival key.joined } : EntryIndex).TracksPatches :=
      ⟨(Timeline.tracking_recordArrival ..).trans h.tracking, h.sets⟩
    exact hadded.place key

theorem TracksPatches.receive {state : EntryIndex × EntryIndex} (h : state.1.TracksPatches)
    (source : Timeline) (key : EntryKey) : (receive source state key).1.TracksPatches := by
  have hreported := h.report key
  rw [receive_eq]
  split
  · split
    · exact ⟨hreported.tracking, hreported.sets⟩
    · exact hreported
  · exact hreported

/-- So does whatever is received. -/
theorem TracksPatches.receiveAll (h : ix.TracksPatches) (source : Timeline)
    (keys : List EntryKey) : (receiveAll source ix keys).1.TracksPatches := by
  suffices hall : ∀ state : EntryIndex × EntryIndex, state.1.TracksPatches →
      (keys.foldl (EntryIndex.receive source) state).1.TracksPatches from hall (ix, staging) h
  induction keys with
  | nil => exact fun state hstate => hstate
  | cons key keys ih => exact fun state hstate => ih _ (hstate.receive source key)

/-- And what is marked. -/
theorem TracksPatches.markPatched (h : ix.TracksPatches) (owner : String)
    (members : List String) : (ix.markPatched owner members).TracksPatches := by
  refine ⟨?_, h.sets⟩
  show (members.foldl (fun t member => t.markPatched (joinKey owner member)) ix.timeline).tracking =
    .patches
  rw [Timeline.foldl_markPatched h.tracking]
  exact h.tracking

/-- Whichever threads are in their calls, each member waits once in the set of its owner. -/
theorem tracksPatches_of_reachable {s : System} (h : s.Reachable)
    (htracking : s.index.tracking = .patches) : s.index.TracksPatches := by
  refine ⟨htracking, fun g hg => ?_⟩
  have haccounted := System.accounted_of_reachable h
  obtain ⟨i, hi⟩ := List.mem_iff_getElem?.1 hg
  have hroom : s.index.Room [] := fun key => by
    have hbalanced := haccounted.balanced key
    rw [System.carriers, List.map_append, List.count_append] at hbalanced
    show 0 + s.index.waiting.count key ≤ _
    unfold waiting
    omega
  rw [← membersAt_eq hi]
  exact nodup_membersAt (hroom.nodup_waiting haccounted.nodup) i

/-- What is listed is listed once. -/
theorem TracksPatches.nodup_membersOf (h : ix.TracksPatches) (owner : String) :
    ((ix.membersOf? owner).getD []).Nodup := by
  unfold membersOf?
  rcases hg : ix.group? owner with - | g
  · exact List.nodup_nil
  · rw [Option.bind_some, MemberSet.snapshot?]
    split
    · exact List.nodup_nil
    · exact (List.mergeSort_perm _ _).nodup_iff.2 (h.sets g (List.mem_of_find?_eq_some hg))

/-! ## The history of an entry -/

/-- How many patches are recorded under the key. -/
def patchCount (ix : EntryIndex) (joined : String) : Nat :=
  ix.timeline.patches.count joined

/-- Marking counts a member as often as it is named. -/
theorem TracksPatches.patchCount_eq (h : ix.TracksPatches) (owner : String)
    (members : List String) (joined : String) :
    (ix.markPatched owner members).patchCount joined =
      ix.patchCount joined + (members.map (joinKey owner)).count joined := by
  rw [patchCount, EntryIndex.markPatched, Timeline.foldl_markPatched h.tracking, List.count_append]
  rfl

/-- **A member that is marked gains one patch.** -/
theorem TracksPatches.patchCount_markPatched (h : ix.TracksPatches) (hnodup : members.Nodup)
    (hmember : member ∈ members) :
    (ix.markPatched owner members).patchCount (joinKey owner member) =
      ix.patchCount (joinKey owner member) + 1 := by
  have honce : (members.map (joinKey owner)).count (joinKey owner member) = 1 :=
    List.count_eq_one_of_mem (hnodup.map (joinKey_injective owner)) (List.mem_map_of_mem hmember)
  rw [h.patchCount_eq, honce]

/-- **And no other gains any.** -/
theorem TracksPatches.patchCount_markPatched_of_ne (h : ix.TracksPatches)
    (hne : ∀ member ∈ members, joinKey owner member ≠ joined) :
    (ix.markPatched owner members).patchCount joined = ix.patchCount joined := by
  have hnone : joined ∉ members.map (joinKey owner) := by
    intro hmem
    obtain ⟨member, hmember, heq⟩ := List.mem_map.1 hmem
    exact hne member hmember heq
  rw [h.patchCount_eq, List.count_eq_zero_of_not_mem hnone, Nat.add_zero]

end EntryIndex

end CallPatch
