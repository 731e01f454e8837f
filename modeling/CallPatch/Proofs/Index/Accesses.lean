import CallPatch.Index.Transfer
/-!
# Entry indexes — single guarded accesses

An index is shared between threads, and what is atomic is one access under one
lock: a test-and-insert in the existence table, a look-up or an insertion in
the owner table, one change of a member set. Each access is an operation of
its own here. The owner table only ever grows at its end, so a place in it is
a lasting handle on a group.

What each access does to the *waiting* keys, the joined keys of the pending
entries, is stated by counting them.
-/

namespace CallPatch

/-- Takes one member out. -/
def MemberSet.remove (s : MemberSet) (member : String) : MemberSet :=
  { s with members := s.members.erase member }

/-- The joined keys of the members. -/
def MemberSet.joinedKeys (s : MemberSet) : List String :=
  s.members.map (joinKey s.owner)

namespace EntryIndex

/-! ## The accesses -/

/-- Inserts the key into the existence table. -/
def addKey (ix : EntryIndex) (key : EntryKey) : EntryIndex :=
  { ix with existence := ix.existence ++ [key.joined] }

/-- Removes the key from the existence table. -/
def takeKey (ix : EntryIndex) (key : EntryKey) : EntryIndex :=
  { ix with existence := ix.existence.filter fun joined => joined ≠ key.joined }

/-- Records that the key came in. -/
def noteArrival (ix : EntryIndex) (key : EntryKey) : EntryIndex :=
  { ix with timeline := ix.timeline.recordArrival key.joined }

/-- The place of the owner's group in the owner table. -/
def groupIndex? (ix : EntryIndex) (owner : String) : Option Nat :=
  ix.groups.findIdx? fun s => s.owner = owner

/-- Gives the owner a group without members. -/
def openGroup (ix : EntryIndex) (owner : String) : EntryIndex :=
  { ix with groups := ix.groups ++ [.empty owner] }

/-- Notes that a group was built for an owner that had one by then. -/
def groupRaced (ix : EntryIndex) : EntryIndex :=
  { ix with counters := { ix.counters with ownerGroupRaces := ix.counters.ownerGroupRaces + 1 } }

/-- Inserts the member into the group at the place. -/
def addMember (ix : EntryIndex) (g : Nat) (member : String) : EntryIndex :=
  { ix with groups := ix.groups.modify g fun s => (s.insert member).1 }

/-- Removes the member from the group at the place. -/
def takeMember (ix : EntryIndex) (g : Nat) (member : String) : EntryIndex :=
  { ix with groups := ix.groups.modify g fun s => s.remove member }

/-- The members of the group at the place. -/
def membersAt (ix : EntryIndex) (g : Nat) : List String :=
  (ix.groups[g]?.map MemberSet.members).getD []

/-- The owners in the owner table, in its order. -/
def owners (ix : EntryIndex) : List String :=
  ix.groups.map MemberSet.owner

/-- The group at the place is one of the owner. -/
def Belongs (ix : EntryIndex) (g : Nat) (owner : String) : Prop :=
  ix.owners[g]? = some owner

/-- The joined keys of the pending entries. -/
def waiting (ix : EntryIndex) : List String :=
  ix.pending.map EntryKey.joined

variable {ix ix' : EntryIndex} {key : EntryKey} {owner member joined : String} {g : Nat}

/-! ## The owner table -/

/-- A change to a group that leaves its owner leaves all owners. -/
theorem owners_modify (ix : EntryIndex) (g : Nat) {f : MemberSet → MemberSet}
    (hf : ∀ s, (f s).owner = s.owner) :
    (ix.groups.modify g f).map MemberSet.owner = ix.owners := by
  rw [owners]
  generalize ix.groups = groups
  induction groups generalizing g with
  | nil => cases g <;> rfl
  | cons s groups ih =>
    cases g with
    | zero => simp [hf]
    | succ g => simpa using ih g

theorem owner_insert (s : MemberSet) (member : String) : (s.insert member).1.owner = s.owner := by
  unfold MemberSet.insert
  split <;> rfl

/-- Members come and go, and the groups stay with their owners. -/
@[simp]
theorem owners_addMember (ix : EntryIndex) (g : Nat) (member : String) :
    (ix.addMember g member).owners = ix.owners :=
  owners_modify ix g fun s => owner_insert s member

@[simp]
theorem owners_takeMember (ix : EntryIndex) (g : Nat) (member : String) :
    (ix.takeMember g member).owners = ix.owners :=
  owners_modify ix g fun _ => rfl

/-- A new group comes behind the others. -/
@[simp]
theorem owners_openGroup (ix : EntryIndex) (owner : String) :
    (ix.openGroup owner).owners = ix.owners ++ [owner] := by
  simp [owners, openGroup, MemberSet.empty]

/-- The group found for an owner is one of that owner. -/
theorem belongs_of_groupIndex? (h : ix.groupIndex? owner = some g) : ix.Belongs g owner := by
  obtain ⟨hlt, hg, -⟩ := List.findIdx?_eq_some_iff_getElem.1 h
  simpa [Belongs, owners, hlt] using hg

/-- An owner that finds no group has none. -/
theorem notMem_owners_of_groupIndex? (h : ix.groupIndex? owner = none) : owner ∉ ix.owners := by
  intro hmem
  obtain ⟨s, hs, rfl⟩ := List.mem_map.1 hmem
  simpa using List.findIdx?_eq_none_iff.1 h s hs

/-- A group opened for an owner is the last one. -/
theorem belongs_openGroup (ix : EntryIndex) (owner : String) :
    (ix.openGroup owner).Belongs ix.groups.length owner := by
  simp [Belongs, owners, openGroup, MemberSet.empty]

theorem belongs_of_getElem? {s : MemberSet} (h : ix.groups[g]? = some s) :
    ix.Belongs g s.owner := by
  simp [Belongs, owners, h]

/-- A group stays the group of its owner while the owner table grows. -/
theorem Belongs.mono (h : ix.Belongs g owner) (hgrow : ix.owners <+: ix'.owners) :
    ix'.Belongs g owner := by
  obtain ⟨more, hmore⟩ := hgrow
  obtain ⟨hlt, -⟩ := List.getElem?_eq_some_iff.1 h
  unfold Belongs at h ⊢
  rw [← hmore, List.getElem?_append_left hlt, h]

/-- The group of an owner is there. -/
theorem Belongs.exists_group (h : ix.Belongs g owner) :
    ∃ s, ix.groups[g]? = some s ∧ s.owner = owner := by
  unfold Belongs owners at h
  rw [List.getElem?_map] at h
  exact Option.map_eq_some_iff.1 h

/-- **A handle is the owner's group.** Where each owner has one group, a group of the owner is the
one that the owner table holds for it. -/
theorem Belongs.group?_eq (h : ix.Belongs g owner) (hnodup : ix.owners.Nodup) :
    ix.group? owner = ix.groups[g]? := by
  obtain ⟨s, hs, hown⟩ := h.exists_group
  obtain ⟨hlt, hg⟩ := List.getElem?_eq_some_iff.1 hs
  rw [hs]
  refine List.find?_eq_some_iff_getElem.2 ⟨by simpa using hown, g, hlt, hg, fun j hj => ?_⟩
  -- an earlier group of this owner would repeat it in the table
  have hne := (List.pairwise_iff_getElem.1 hnodup) j g (by simp [owners]; omega)
    (by simpa [owners] using hlt) hj
  have hj' : (ix.groups[j]).owner ≠ owner := by
    simpa [owners, hg, hown] using hne
  simp [hj']

/-! ## The waiting keys -/

/-- What waits is what the groups list. -/
theorem waiting_eq (ix : EntryIndex) : ix.waiting = ix.groups.flatMap MemberSet.joinedKeys := by
  simp only [waiting, pending, List.map_flatMap, List.map_map]
  rfl

theorem membersAt_eq {s : MemberSet} (h : ix.groups[g]? = some s) : ix.membersAt g = s.members := by
  simp [membersAt, h]

/-- What waits elsewhere is not touched by a change of one group. -/
theorem count_modify {groups : List MemberSet} {s : MemberSet} {f : MemberSet → MemberSet}
    (h : groups[g]? = some s) (joined : String) :
    ((groups.modify g f).flatMap MemberSet.joinedKeys).count joined + s.joinedKeys.count joined =
      (groups.flatMap MemberSet.joinedKeys).count joined + (f s).joinedKeys.count joined := by
  induction groups generalizing g with
  | nil => cases h
  | cons t groups ih =>
    -- the group that changes is the first one, or one behind it
    cases g with
    | zero =>
      obtain rfl : t = s := by simpa using h
      simp only [List.modify_zero_cons, List.flatMap_cons, List.count_append]
      omega
    | succ g =>
      have := ih (by simpa using h)
      simp only [List.modify_succ_cons, List.flatMap_cons, List.count_append]
      omega

/-- A new group lists nothing. -/
@[simp]
theorem waiting_openGroup (ix : EntryIndex) (owner : String) :
    (ix.openGroup owner).waiting = ix.waiting := by
  simp [waiting_eq, openGroup, MemberSet.joinedKeys, MemberSet.empty]

/-- A member that is inserted waits once more than before. -/
theorem count_waiting_addMember (h : ix.Belongs g owner) (hm : member ∉ ix.membersAt g)
    (joined : String) :
    (ix.addMember g member).waiting.count joined =
      ix.waiting.count joined + [joinKey owner member].count joined := by
  obtain ⟨s, hs, rfl⟩ := h.exists_group
  rw [membersAt_eq hs] at hm
  have hchange := count_modify (f := fun s => (s.insert member).1) hs joined
  have hins : (s.insert member).1.joinedKeys = s.joinedKeys ++ [joinKey s.owner member] := by
    simp [MemberSet.insert, MemberSet.contains, hm, MemberSet.joinedKeys]
  rw [hins, List.count_append] at hchange
  rw [waiting_eq, waiting_eq, addMember]
  dsimp only
  omega

/-- A member that is removed waited once more before. -/
theorem count_waiting_takeMember (h : ix.Belongs g owner) (hm : member ∈ ix.membersAt g)
    (joined : String) :
    (ix.takeMember g member).waiting.count joined + [joinKey owner member].count joined =
      ix.waiting.count joined := by
  obtain ⟨s, hs, rfl⟩ := h.exists_group
  rw [membersAt_eq hs] at hm
  have hchange := count_modify (f := fun s => s.remove member) hs joined
  have hperm : s.joinedKeys.Perm (joinKey s.owner member :: (s.remove member).joinedKeys) :=
    (List.perm_cons_erase hm).map (joinKey s.owner)
  have hcount := hperm.count_eq joined
  rw [← List.singleton_append, List.count_append] at hcount
  rw [waiting_eq, waiting_eq, takeMember]
  dsimp only
  omega

/-- A member of a group waits under its joined key. -/
theorem mem_waiting (h : ix.Belongs g owner) (hm : member ∈ ix.membersAt g) :
    joinKey owner member ∈ ix.waiting := by
  obtain ⟨s, hs, rfl⟩ := h.exists_group
  rw [membersAt_eq hs] at hm
  rw [waiting_eq]
  exact List.mem_flatMap.2 ⟨s, List.mem_of_getElem? hs, List.mem_map_of_mem hm⟩

/-- In a group nothing is listed twice, if nothing is anywhere. -/
theorem nodup_membersAt (h : ix.waiting.Nodup) (g : Nat) : (ix.membersAt g).Nodup := by
  rcases hs : ix.groups[g]? with - | s
  · simp [membersAt, hs]
  · -- a member that stood there twice would wait twice
    rw [waiting_eq] at h
    have hkeys : s.joinedKeys.Nodup := (List.pairwise_flatMap.1 h).1 s (List.mem_of_getElem? hs)
    rw [membersAt_eq hs]
    exact List.Pairwise.of_map (joinKey s.owner) (fun _ _ hne heq => hne (heq ▸ rfl)) hkeys

/-- What is left in a group was there before, and is not the member that was taken out of it. -/
theorem mem_membersAt_takeMember (hnodup : (ix.membersAt g).Nodup) {g' : Nat} {member' : String}
    (h : member' ∈ (ix.takeMember g member).membersAt g') :
    member' ∈ ix.membersAt g' ∧ (g' = g → member' ≠ member) := by
  by_cases hg : g' = g
  · subst hg
    have herase : (ix.takeMember g' member).membersAt g' = (ix.membersAt g').erase member := by
      rcases hs : ix.groups[g']? with - | s <;>
        simp [membersAt, takeMember, hs, MemberSet.remove]
    rw [herase, hnodup.mem_erase_iff] at h
    exact ⟨h.2, fun _ => h.1⟩
  · have hsame : (ix.takeMember g member).membersAt g' = ix.membersAt g' := by
      simp [membersAt, takeMember, Ne.symm hg]
    exact ⟨hsame ▸ h, fun heq => absurd heq hg⟩

/-! ## The existence table -/

/-- A key that is new does not come twice. -/
theorem nodup_addKey (h : ix.existence.Nodup) (hkey : key.joined ∉ ix.existence) :
    (ix.addKey key).existence.Nodup := by
  refine List.nodup_append.2 ⟨h, by simp, ?_⟩
  intro joined hjoined joined' hjoined' heq
  obtain rfl : joined' = key.joined := by simpa using hjoined'
  exact hkey (heq ▸ hjoined)

/-- A key that is removed was there once. -/
theorem count_takeKey (h : ix.existence.Nodup) (hkey : key.joined ∈ ix.existence)
    (joined : String) :
    (ix.takeKey key).existence.count joined + [key.joined].count joined =
      ix.existence.count joined := by
  -- in a list without repeats, leaving the key out is erasing it
  have herase : (ix.takeKey key).existence = ix.existence.erase key.joined := by
    rw [h.erase_eq_filter]
    refine List.filter_congr fun other _ => ?_
    by_cases heq : other = key.joined <;> simp [heq]
  have hcount := (List.perm_cons_erase hkey).count_eq joined
  rw [← List.singleton_append, List.count_append] at hcount
  rw [herase]
  omega

/-! ## Carrying entries -/

/-- The existence table has room for the entries carried beside those that wait. -/
def Room (ix : EntryIndex) (carried : List EntryKey) : Prop :=
  ∀ joined, (carried.map EntryKey.joined).count joined + ix.waiting.count joined ≤
    ix.existence.count joined

/-- The key of an entry that is carried is there. -/
theorem Room.mem_existence {carried : List EntryKey} (h : ix.Room carried) (hkey : key ∈ carried) :
    key.joined ∈ ix.existence := by
  have hmem : key.joined ∈ carried.map EntryKey.joined := List.mem_map_of_mem hkey
  have hcarried := List.count_pos_iff.2 hmem
  have := h key.joined
  exact List.count_pos_iff.1 (by omega)

/-- No entry waits twice. -/
theorem Room.nodup_waiting {carried : List EntryKey} (h : ix.Room carried)
    (hnodup : ix.existence.Nodup) : ix.waiting.Nodup := by
  refine List.nodup_iff_count.2 fun joined => ?_
  have honce := List.nodup_iff_count.1 hnodup joined
  have := h joined
  omega

/-- An entry that is carried is not in its member set as well: its key would be there twice. -/
theorem Room.notMem_membersAt (h : ix.Room [key]) (hnodup : ix.existence.Nodup)
    (hg : ix.Belongs g key.owner) : key.member ∉ ix.membersAt g := by
  intro hm
  -- one for the member in its set, one for the entry that is carried
  have hwaits : 0 < ix.waiting.count key.joined := List.count_pos_iff.2 (mem_waiting hg hm)
  have honce : ix.existence.count key.joined ≤ 1 := List.nodup_iff_count.1 hnodup key.joined
  have hcarried : (([key].map EntryKey.joined).count key.joined) = 1 := List.count_singleton_self
  have := h key.joined
  omega

end EntryIndex

end CallPatch
