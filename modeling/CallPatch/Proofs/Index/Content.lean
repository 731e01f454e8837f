import CallPatch.Proofs.Index.Receipt
import Mathlib.Data.List.Nodup
/-!
# Entry indexes — what waits

What a report and a transfer between two indexes at rest do to the entries that
wait in them, as sets. A transfer leaves nothing waiting behind it
(`Moved.source_pending`); what waits at its target is what waited there before
and what waits in the difference (`Moved.mem_pending`). So an owner whose
waiting members changed is one of the difference (`Moved.members_unchanged`).
-/

namespace CallPatch

namespace EntryIndex

variable {ix : EntryIndex} {key k : EntryKey} {owner member : String}

/-! ## Reports -/

theorem mem_pending :
    k ∈ ix.pending ↔ ∃ g ∈ ix.groups, g.owner = k.owner ∧ k.member ∈ g.members := by
  obtain ⟨owner, member⟩ := k
  simp only [pending, List.mem_flatMap, List.mem_map, EntryKey.mk.injEq]
  constructor
  · rintro ⟨g, hg, m, hm, rfl, rfl⟩
    exact ⟨g, hg, rfl, hm⟩
  · rintro ⟨g, hg, rfl, hm⟩
    exact ⟨g, hg, member, hm, rfl, rfl⟩

/-- A member that is placed waits from then on, and nothing else changes. -/
theorem mem_pending_place : k ∈ (ix.place key).1.pending ↔ k ∈ ix.pending ∨ k = key := by
  obtain ⟨owner, member⟩ := key
  unfold place
  split
  · -- the member opens the group of its owner
    simp [pending, List.flatMap_append]
  · next g hg =>
    obtain ⟨hown, before, after, hgroups, hbefore⟩ := List.find?_eq_some_iff_append.1 hg
    replace hown : g.owner = owner := by simpa using hown
    split
    · next hmember =>
      have hkey : { owner, member } ∈ ix.pending :=
        mem_pending.2 ⟨g, by simp [hgroups], hown, List.contains_iff_mem.1 hmember⟩
      exact ⟨.inl, fun hor => hor.elim id fun heq => heq ▸ hkey⟩
    · next hmember =>
      have hinsert : (g.insert member).1 = { g with members := g.members ++ [member] } := by
        rw [MemberSet.insert, if_neg hmember]
      have hplaced : modifyFirst (fun g => decide (g.owner = owner))
          (fun g => (g.insert member).1) ix.groups =
            before ++ { g with members := g.members ++ [member] } :: after := by
        rw [hgroups, modifyFirst_append_cons (fun b hb => by simpa using hbefore b hb)
          (by simpa using hown), hinsert]
      dsimp only [pending]
      rw [hplaced, hgroups]
      simp only [List.flatMap_append, List.flatMap_cons, List.map_append, List.mem_append,
        List.map_cons, List.map_nil, List.mem_singleton, hown]
      -- the new entry stands in the middle of one side and at the end of the other
      simp only [or_assoc, or_comm, or_left_comm]

/-- A report adds its entry where the joined key is not there. -/
theorem mem_pending_report :
    k ∈ (ix.report key).1.pending ↔ k ∈ ix.pending ∨ key.joined ∉ ix.existence ∧ k = key := by
  by_cases h : key.joined ∈ ix.existence
  · rw [report_of_mem h]
    simp only [h, not_true_eq_false, false_and, or_false]
    rfl
  · rw [report_of_notMem h, mem_pending_place]
    simp only [h, not_false_eq_true, true_and]
    rfl

/-! ## Indexes that are only reported to -/

/-- No group of the index is empty. -/
def Populated (ix : EntryIndex) : Prop :=
  ∀ g ∈ ix.groups, g.members ≠ []

theorem populated_empty (tracking : Tracking) : (empty tracking).Populated :=
  nofun

theorem Populated.place (h : ix.Populated) (key : EntryKey) : (ix.place key).1.Populated := by
  unfold EntryIndex.place
  split
  · intro g hg
    rcases List.mem_append.1 hg with hold | hnew
    · exact h g hold
    · rw [List.mem_singleton.1 hnew]
      exact List.cons_ne_nil _ _
  · split
    · exact h
    · intro g hg
      rcases mem_or_of_mem_modifyFirst hg with hold | ⟨g', hg', rfl⟩
      · exact h g hold
      · -- a set does not shrink by an insertion
        unfold MemberSet.insert
        split
        · exact h g' hg'
        · simp

/-- A report empties no group. -/
theorem Populated.report (h : ix.Populated) (key : EntryKey) : (ix.report key).1.Populated := by
  by_cases hmem : key.joined ∈ ix.existence
  · rw [report_of_mem hmem]
    exact h
  · have hadded : ({ ix with
        existence := ix.existence ++ [key.joined]
        timeline := ix.timeline.recordArrival key.joined } : EntryIndex).Populated := h
    rw [report_of_notMem hmem]
    exact hadded.place key

/-- The index has come about by reports, and by staged times that were copied in. -/
inductive Collected : EntryIndex → Prop where
  | staging : Collected .staging
  | report {ix : EntryIndex} (h : Collected ix) (key : EntryKey) : Collected (ix.report key).1
  | setStaged {ix : EntryIndex} (h : Collected ix) (joined : String) :
      Collected (ix.setStaged joined)

theorem Collected.atRest (h : ix.Collected) : ix.AtRest := by
  induction h with
  | staging => exact atRest_empty .staged
  | report _ key ih => exact ih.report key
  | setStaged _ joined ih => exact ih.annotate _

theorem Collected.populated (h : ix.Collected) : ix.Populated := by
  induction h with
  | staging => exact populated_empty .staged
  | report _ key ih => exact ih.report key
  | setStaged _ joined ih => exact ih

/-- Whoever is listed has an entry that waits. -/
theorem Populated.exists_pending (h : ix.Populated) (howner : owner ∈ ix.ownerNames?.getD []) :
    ∃ k ∈ ix.pending, k.owner = owner := by
  unfold ownerNames? at howner
  split at howner
  · cases howner
  · obtain ⟨g, hg, rfl⟩ := List.mem_map.1 (List.mem_mergeSort.1 howner)
    obtain ⟨member, hmember⟩ := List.exists_mem_of_ne_nil _ (h g hg)
    exact ⟨⟨g.owner, member⟩, mem_pending.2 ⟨g, hg, rfl, hmember⟩, rfl⟩

/-! ## At rest -/

/-- The members listed for an owner are those that wait. -/
theorem AtRest.mem_membersOf (h : ix.AtRest) :
    member ∈ (ix.membersOf? owner).getD [] ↔ ⟨owner, member⟩ ∈ ix.pending := by
  obtain ⟨s, hreach, -, rfl⟩ := h
  have hacc := System.accounted_of_reachable hreach
  have hlisted (g : MemberSet) : member ∈ (g.snapshot?).getD [] ↔ member ∈ g.members := by
    unfold MemberSet.snapshot?
    split
    · next hnone => simp [hnone]
    · exact List.mem_mergeSort
  constructor
  · intro hmember
    rcases hgroup : s.index.group? owner with - | g
    · simp [membersOf?, hgroup] at hmember
    · rw [membersOf?, hgroup, Option.bind_some, hlisted] at hmember
      exact mem_pending.2 ⟨g, List.mem_of_find?_eq_some hgroup,
        by simpa using List.find?_some hgroup, hmember⟩
  · intro hpending
    obtain ⟨g, hgroup, hmember⟩ := hacc.group?_of_pending hpending
    rw [membersOf?, hgroup, Option.bind_some, hlisted]
    exact hmember

/-- The owner of an entry that waits is listed. -/
theorem AtRest.mem_ownerNames (h : ix.AtRest) (hk : k ∈ ix.pending) :
    k.owner ∈ ix.ownerNames?.getD [] := by
  have hkey : k.joined ∈ ix.existence := h.perm.mem_iff.1 (List.mem_map_of_mem hk)
  have hsome : ix.isEmpty = false := by
    rw [isEmpty, List.isEmpty_eq_false_iff]
    exact List.ne_nil_of_mem hkey
  obtain ⟨g, hg, hown, -⟩ := mem_pending.1 hk
  rw [ownerNames?, hsome, if_neg Bool.false_ne_true, Option.getD_some, ← hown]
  exact List.mem_mergeSort.2 (List.mem_map_of_mem hg)

/-- Whatever is there has an entry that waits. -/
theorem AtRest.exists_pending (h : ix.AtRest) {joined : String} (hjoined : joined ∈ ix.existence) :
    ∃ k ∈ ix.pending, k.joined = joined :=
  List.mem_map.1 (h.perm.mem_iff.2 hjoined)

/-- Nothing waits in an empty index. -/
theorem AtRest.pending_of_isEmpty (h : ix.AtRest) (hempty : ix.isEmpty = true) :
    ix.pending = [] := by
  refine List.eq_nil_iff_forall_not_mem.2 fun k hk => ?_
  have hkey : k.joined ∈ ix.existence := h.perm.mem_iff.1 (List.mem_map_of_mem hk)
  rw [List.isEmpty_iff.1 hempty] at hkey
  cases hkey

theorem AtRest.isEmpty_of_pending (h : ix.AtRest) (hnone : ix.pending = []) :
    ix.isEmpty = true := by
  refine List.isEmpty_iff.2 (List.eq_nil_iff_forall_not_mem.2 fun joined hjoined => ?_)
  obtain ⟨k, hk, -⟩ := h.exists_pending hjoined
  rw [hnone] at hk
  cases hk

/-- The joined key tells the entries that wait apart. -/
theorem AtRest.eq_of_joined_eq (h : ix.AtRest) (hkey : key ∈ ix.pending) (hk : k ∈ ix.pending)
    (hjoined : key.joined = k.joined) : key = k := by
  have hnodup : ix.waiting.Nodup := h.perm.nodup_iff.2 h.nodup
  exact List.inj_on_of_nodup_map hnodup hkey hk hjoined

/-- What is there is what waits under its joined key. -/
theorem AtRest.mem_existence (h : ix.AtRest) {joined : String} :
    joined ∈ ix.existence ↔ ∃ k ∈ ix.pending, k.joined = joined := by
  refine ⟨h.exists_pending, ?_⟩
  rintro ⟨k, hk, rfl⟩
  exact h.perm.mem_iff.1 (List.mem_map_of_mem hk)

/-! ## Transfers -/

theorem pending_takeAll (ix : EntryIndex) : ix.takeAll.1.pending = [] := by
  simp [takeAll, pending, MemberSet.drain, MemberSet.empty]

/-- What has been received so far: what waits at the target waited there before, or is one of the
entries taken out and waits in the difference too. -/
structure Received (before : EntryIndex) (keys : List EntryKey) (state : EntryIndex × EntryIndex) :
    Prop where
  target : state.1.AtRest
  difference : state.2.AtRest
  within : state.2.existence ⊆ state.1.existence
  mem_pending : ∀ k, k ∈ state.1.pending ↔ k ∈ before.pending ∨ k ∈ state.2.pending
  taken : ∀ k ∈ state.2.pending, k ∈ keys
  arrived : ∀ k ∈ keys, k.joined ∈ state.1.existence

variable {before source target : EntryIndex} {keys : List EntryKey}
variable {state : EntryIndex × EntryIndex} {t : Transferred}

theorem received_nil (h : target.AtRest) : Received target [] (target, staging) where
  target := h
  difference := atRest_empty _
  within := nofun
  mem_pending := by simp [pending, staging, empty]
  taken := by simp [pending, staging, empty]
  arrived := nofun

/-- One more entry is received. -/
theorem Received.receive (h : Received before keys state) (source : Timeline) (key : EntryKey) :
    Received before (keys ++ [key]) (receive source state key) := by
  obtain ⟨target, difference⟩ := state
  obtain ⟨htarget, hdifference⟩ := h.target.receive h.difference source key
  by_cases hkey : key.joined ∈ target.existence
  · -- a repeat changes nothing that waits
    rw [receive_of_mem hkey] at htarget hdifference ⊢
    refine ⟨htarget, hdifference, h.within, h.mem_pending,
      fun k hk => List.mem_append_left _ (h.taken k hk), fun k hk => ?_⟩
    rcases List.mem_append.1 hk with hk | hk
    · exact h.arrived k hk
    · rwa [List.mem_singleton.1 hk]
  · have hkey' : key.joined ∉ difference.existence := fun hmem => hkey (h.within hmem)
    obtain ⟨hexists, hexists', -⟩ := receive_of_notMem source h.target h.difference hkey hkey'
    obtain ⟨hpending, hpending'⟩ :
        (∀ k, k ∈ (EntryIndex.receive source (target, difference) key).1.pending ↔
            k ∈ target.pending ∨ k = key) ∧
          ∀ k, k ∈ (EntryIndex.receive source (target, difference) key).2.pending ↔
            k ∈ difference.pending ∨ k = key := by
      have hplaced (k : EntryKey) :
          k ∈ (target.report key).1.pending ↔ k ∈ target.pending ∨ k = key := by
        rw [mem_pending_report, and_iff_right hkey]
      have hplaced' (k : EntryKey) :
          k ∈ (difference.report key).1.pending ↔ k ∈ difference.pending ∨ k = key := by
        rw [mem_pending_report, and_iff_right hkey']
      rw [receive_eq, if_pos (h.target.report_of_notMem hkey).2.2]
      split <;> exact ⟨hplaced, hplaced'⟩
    refine ⟨htarget, hdifference, ?_, fun k => ?_, fun k hk => ?_, fun k hk => ?_⟩
    · rw [hexists, hexists']
      exact List.append_subset.2 ⟨fun j hj => List.mem_append_left _ (h.within hj),
        List.subset_append_right _ _⟩
    · rw [hpending, hpending', h.mem_pending, or_assoc]
    · rcases (hpending' k).1 hk with hk | rfl
      · exact List.mem_append_left _ (h.taken k hk)
      · exact List.mem_append_right _ List.mem_cons_self
    · rw [hexists]
      rcases List.mem_append.1 hk with hk | hk
      · exact List.mem_append_left _ (h.arrived k hk)
      · rw [List.mem_singleton.1 hk]
        exact List.mem_append_right _ List.mem_cons_self

theorem received_receiveAll (h : target.AtRest) (source : Timeline) (keys : List EntryKey) :
    Received target keys (receiveAll source target keys) := by
  suffices hall : ∀ (done : List EntryKey) (state : EntryIndex × EntryIndex),
      Received target done state →
        Received target (done ++ keys) (keys.foldl (EntryIndex.receive source) state) from
    hall [] _ (received_nil h)
  induction keys with
  | nil =>
    intro done state hstate
    rwa [List.append_nil]
  | cons key keys ih =>
    intro done state hstate
    rw [List.append_cons]
    exact ih _ _ (hstate.receive source key)

/-- The difference of a transfer comes about so. -/
theorem collected_receiveAll (source : Timeline) (target : EntryIndex) (keys : List EntryKey) :
    (receiveAll source target keys).2.Collected := by
  have hreceive (state : EntryIndex × EntryIndex) (key : EntryKey) (h : state.2.Collected) :
      (receive source state key).2.Collected := by
    rw [receive_eq]
    split
    · split
      · exact (h.report key).setStaged key.joined
      · exact h.report key
    · exact h
  suffices hall : ∀ state : EntryIndex × EntryIndex, state.2.Collected →
      (keys.foldl (receive source) state).2.Collected from hall _ .staging
  induction keys with
  | nil => exact fun state h => h
  | cons key keys ih => exact fun state h => ih _ (hreceive state key h)

/-- What a transfer between two indexes at rest leaves behind. -/
structure Moved (source target : EntryIndex) (t : Transferred) : Prop where
  source_atRest : t.source.AtRest
  source_pending : t.source.pending = []
  target_atRest : t.target.AtRest
  difference_atRest : t.difference.AtRest
  mem_pending : ∀ k, k ∈ t.target.pending ↔ k ∈ target.pending ∨ k ∈ t.difference.pending
  taken : ∀ k ∈ t.difference.pending, k ∈ source.pending
  arrived : ∀ k ∈ source.pending, k.joined ∈ t.target.existence

/-- **What a transfer moves.** -/
theorem AtRest.transfer (hs : source.AtRest) (ht : target.AtRest) :
    Moved source target (source.transfer target) := by
  have hreceived := received_receiveAll ht source.takeAll.1.timeline source.pending
  exact ⟨hs.takeAll, pending_takeAll source, hreceived.target, hreceived.difference,
    hreceived.mem_pending, hreceived.taken, hreceived.arrived⟩

/-- **A transfer adds what is new by its joined key.** -/
theorem Moved.mem_target (h : Moved source target t) (hs : source.AtRest) (ht : target.AtRest) :
    k ∈ t.target.pending ↔
      k ∈ target.pending ∨ k ∈ source.pending ∧ k.joined ∉ target.existence := by
  rw [h.mem_pending]
  refine or_congr_right' fun hnot => ⟨fun hk => ⟨h.taken k hk, fun hthere => ?_⟩, ?_⟩
  · -- an entry that waited at the target under this joined key would be this one
    obtain ⟨k', hk', hjoined⟩ := ht.exists_pending hthere
    have hsame : k' = k := h.target_atRest.eq_of_joined_eq ((h.mem_pending k').2 (.inl hk'))
      ((h.mem_pending k).2 (.inr hk)) hjoined
    exact hnot (hsame ▸ hk')
  · rintro ⟨hk, hnew⟩
    obtain ⟨k', hk', hjoined⟩ := h.target_atRest.exists_pending (h.arrived k hk)
    have harrived : k' ∈ t.difference.pending := by
      refine ((h.mem_pending k').1 hk').resolve_left fun hold => hnew ?_
      exact ht.mem_existence.2 ⟨k', hold, hjoined⟩
    obtain rfl : k' = k := hs.eq_of_joined_eq (h.taken k' harrived) hk hjoined
    exact harrived

/-- An owner that is not one of the difference has the members it had. -/
theorem Moved.members_unchanged (h : Moved source target t) (ht : target.AtRest)
    (howner : owner ∉ t.difference.ownerNames?.getD []) :
    member ∈ (t.target.membersOf? owner).getD [] ↔ member ∈ (target.membersOf? owner).getD [] := by
  rw [h.target_atRest.mem_membersOf, ht.mem_membersOf, h.mem_pending, or_iff_left]
  exact fun hk => howner (h.difference_atRest.mem_ownerNames hk)

end EntryIndex

end CallPatch
