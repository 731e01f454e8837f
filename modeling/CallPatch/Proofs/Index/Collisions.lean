import CallPatch.Proofs.Index.Lifecycle
import Mathlib.Data.Set.Function
/-!
# Joined keys — which entries share one

A joined text may hold the separator more than once, and does not say where the owner
ends. Two entries share it just when they are one, or when the owner of one runs on
past that of the other (`EntryKey.joined_eq_iff`): over a separator, and the rest of it
opens the member of the other. So no two entries share a joined key in a family whose
owners lack the separator, and none in one whose members do.

Indexes look at joined keys only. What they answer and show of an entry of such a
family is what they would, had the calls named no other entry (`agree_run`). What is
compared is each index after the calls with the same index after those parts of the
calls that are about the entry.
-/

namespace CallPatch

namespace EntryKey

variable {a b : EntryKey} {family : Set EntryKey}

/-- The owner of the first runs on past that of the second over a separator, and the rest of it
opens the member of the second. -/
def RunsPast (a b : EntryKey) : Prop :=
  ∃ rest, a.owner = b.owner ++ separator ++ rest ∧ b.member = rest ++ separator ++ a.member

/-- Two texts that are cut at a character somewhere are one: they are cut at one place, or one of
them is cut first. -/
theorem append_cons_eq_append_cons_iff {α : Type} {c : α} {xs ys xs' ys' : List α} :
    xs ++ c :: ys = xs' ++ c :: ys' ↔
      xs = xs' ∧ ys = ys' ∨
        (∃ rest, xs = xs' ++ c :: rest ∧ ys' = rest ++ c :: ys) ∨
        ∃ rest, xs' = xs ++ c :: rest ∧ ys = rest ++ c :: ys' := by
  constructor
  · intro h
    rcases List.append_eq_append_iff.1 h with ⟨between, hxs', hys⟩ | ⟨between, hxs, hys'⟩
    · cases between with
      | nil =>
        rw [List.append_nil] at hxs'
        exact .inl ⟨hxs'.symm, (List.cons.inj hys).2⟩
      | cons c' rest =>
        obtain ⟨rfl, htail⟩ := List.cons.inj hys
        exact .inr (.inr ⟨rest, hxs', htail⟩)
    · cases between with
      | nil =>
        rw [List.append_nil] at hxs
        exact .inl ⟨hxs, (List.cons.inj hys').2.symm⟩
      | cons c' rest =>
        obtain ⟨rfl, htail⟩ := List.cons.inj hys'
        exact .inr (.inl ⟨rest, hxs, htail⟩)
  · rintro (⟨rfl, rfl⟩ | ⟨rest, rfl, rfl⟩ | ⟨rest, rfl, rfl⟩)
    · rfl
    all_goals rw [List.append_assoc, List.cons_append]

theorem toList_joined (a : EntryKey) :
    a.joined.toList = a.owner.toList ++ '#' :: a.member.toList := by
  rw [joined, String.toList_append, String.toList_append, List.append_assoc]
  rfl

theorem runsPast_iff :
    a.RunsPast b ↔ ∃ rest, a.owner.toList = b.owner.toList ++ '#' :: rest ∧
      b.member.toList = rest ++ '#' :: a.member.toList := by
  have hcut (s t rest : String) : s = t ++ separator ++ rest ↔
      s.toList = t.toList ++ '#' :: rest.toList := by
    rw [← String.toList_inj, String.toList_append, String.toList_append, List.append_assoc]
    rfl
  constructor
  · rintro ⟨rest, howner, hmember⟩
    exact ⟨rest.toList, (hcut ..).1 howner, (hcut ..).1 hmember⟩
  · rintro ⟨rest, howner, hmember⟩
    refine ⟨.ofList rest, (hcut ..).2 ?_, (hcut ..).2 ?_⟩
    · rwa [String.toList_ofList]
    · rwa [String.toList_ofList]

/-- **Two entries share their joined key** if they are one, or if the owner of one runs on past that
of the other. -/
theorem joined_eq_iff : a.joined = b.joined ↔ a = b ∨ a.RunsPast b ∨ b.RunsPast a := by
  have hsame : a = b ↔ a.owner.toList = b.owner.toList ∧ a.member.toList = b.member.toList := by
    rw [String.toList_inj, String.toList_inj]
    exact ⟨fun h => h ▸ ⟨rfl, rfl⟩, fun ⟨howner, hmember⟩ => congr (congrArg mk howner) hmember⟩
  rw [← String.toList_inj, toList_joined, toList_joined, append_cons_eq_append_cons_iff,
    runsPast_iff, runsPast_iff, hsame]

/-- Both the owner that runs on and the member it opens hold a separator. -/
theorem RunsPast.mem (h : a.RunsPast b) : '#' ∈ a.owner.toList ∧ '#' ∈ b.member.toList := by
  obtain ⟨rest, howner, hmember⟩ := runsPast_iff.1 h
  rw [howner, hmember]
  exact ⟨List.mem_append_right _ List.mem_cons_self, List.mem_append_right _ List.mem_cons_self⟩

theorem injOn_joined
    (h : (∀ key ∈ family, '#' ∉ key.owner.toList) ∨ ∀ key ∈ family, '#' ∉ key.member.toList) :
    Set.InjOn joined family := by
  intro a ha b hb hjoined
  rcases joined_eq_iff.1 hjoined with heq | hpast | hpast
  · exact heq
  · exact h.elim (fun howners => absurd hpast.mem.1 (howners a ha))
      fun hmembers => absurd hpast.mem.2 (hmembers b hb)
  · exact h.elim (fun howners => absurd hpast.mem.1 (howners b hb))
      fun hmembers => absurd hpast.mem.2 (hmembers a ha)

end EntryKey

namespace Indexes

open EntryIndex

variable {key k : EntryKey} {ix ix' source source' target target' : EntryIndex}
  {indexes indexes' : List EntryIndex} {owner joined : String} {members members' : List String}
  {c : Call} {i j : Nat}

/-! ## Calls about one entry -/

/-- The entries that the call names. -/
def Call.entries : Call → List EntryKey
  | .report _ key => [key]
  | .markPatched _ owner members => members.map (EntryKey.mk owner)
  | .transfer _ _ => []

/-- What is left of the call when it is to name no entry but this one. -/
def Call.about? (key : EntryKey) : Call → Option Call
  | .report i reported => if reported = key then some (.report i reported) else none
  | .markPatched i owner members =>
    some (.markPatched i owner (members.filter fun member => EntryKey.mk owner member = key))
  | .transfer i j => some (.transfer i j)

/-- Two indexes give the same account of the entry: a look and a report get the same answer, and
the snapshots show the same under its joined key. -/
structure SameAccount (key : EntryKey) (ix ix' : EntryIndex) : Prop where
  contains : ix'.contains key = ix.contains key
  answer : (ix'.report key).2 = (ix.report key).2
  shown : ∀ timing, (⟨key.joined, timing⟩ : EntrySnapshot) ∈ ix'.stats.entries ↔
    ⟨key.joined, timing⟩ ∈ ix.stats.entries

/-- Two indexes between calls hold the same of the entry. Of staged times only those copied into an
index that records patches are compared: a staging index knows that of every entry in it. -/
structure Agree (key : EntryKey) (ix ix' : EntryIndex) : Prop where
  atRest : ix.AtRest ∧ ix'.AtRest
  recorded : ix.Recorded ∧ ix'.Recorded
  tracking : ix'.tracking = ix.tracking
  present : key.joined ∈ ix'.existence ↔ key.joined ∈ ix.existence
  records : ix.tracking = .patches →
    (key.joined ∈ ix'.timeline.staged ↔ key.joined ∈ ix.timeline.staged) ∧
      ix'.timeline.patches.count key.joined = ix.timeline.patches.count key.joined

theorem agree_empty (key : EntryKey) (tracking : Tracking) :
    Agree key (empty tracking) (empty tracking) :=
  ⟨⟨atRest_empty _, atRest_empty _⟩, ⟨recorded_empty _, recorded_empty _⟩, rfl, Iff.rfl,
    fun _ => ⟨Iff.rfl, rfl⟩⟩

theorem Agree.report (h : Agree key ix ix') : Agree key (ix.report key).1 (ix'.report key).1 := by
  have htracking := tracking_report ix key
  refine ⟨⟨h.atRest.1.report key, h.atRest.2.report key⟩,
    ⟨h.recorded.1.report key, h.recorded.2.report key⟩, ?_, ?_, fun hp => ?_⟩
  · rw [tracking_report, htracking, h.tracking]
  · rw [mem_existence_report, mem_existence_report, h.present]
  · rw [htracking] at hp
    rw [staged_report hp, staged_report (h.tracking.trans hp), patches_report, patches_report]
    exact h.records hp

/-- A report of an entry with another joined key makes no difference. -/
theorem Agree.report_of_ne (h : Agree key ix ix') (hne : k.joined ≠ key.joined) :
    Agree key (ix.report k).1 ix' := by
  have htracking := tracking_report ix k
  refine ⟨⟨h.atRest.1.report k, h.atRest.2⟩, ⟨h.recorded.1.report k, h.recorded.2⟩, ?_, ?_,
    fun hp => ?_⟩
  · rw [htracking, h.tracking]
  · rw [mem_existence_report, h.present]
    exact ⟨.inr, fun hor => hor.resolve_left hne.symm⟩
  · rw [htracking] at hp
    rw [staged_report hp, patches_report]
    exact h.records hp

/-- Marks make no difference if they name the key as often. -/
theorem Agree.markPatched (h : Agree key ix ix')
    (hcount : (members'.map (joinKey owner)).count key.joined =
      (members.map (joinKey owner)).count key.joined) :
    Agree key (ix.markPatched owner members) (ix'.markPatched owner members') := by
  have htracking := tracking_markPatched ix owner members
  refine ⟨⟨h.atRest.1.annotate _, h.atRest.2.annotate _⟩,
    ⟨h.recorded.1.markPatched owner members, h.recorded.2.markPatched owner members'⟩, ?_,
    h.present, fun hp => ?_⟩
  · rw [tracking_markPatched, htracking, h.tracking]
  · rw [htracking] at hp
    obtain ⟨hstaged, hpatches⟩ := h.records hp
    rw [timeline_markPatched, timeline_markPatched, h.tracking, hp]
    refine ⟨hstaged, ?_⟩
    rw [List.count_append, List.count_append, hpatches, hcount]

theorem Agree.takeAll (h : Agree key ix ix') : Agree key ix.takeAll.1 ix'.takeAll.1 := by
  refine ⟨⟨h.atRest.1.takeAll, h.atRest.2.takeAll⟩, ⟨h.recorded.1.takeAll, h.recorded.2.takeAll⟩,
    h.tracking, ?_, h.records⟩
  rw [h.atRest.1.takeAll_fst, h.atRest.2.takeAll_fst]

/-- Both know of the entry, or neither does, that it was staged. -/
theorem Agree.isStaged (h : Agree key ix ix') (hpresent : key.joined ∈ ix.existence) :
    ix'.timeline.isStaged key.joined = ix.timeline.isStaged key.joined := by
  rw [Bool.eq_iff_iff, Timeline.isStaged, Timeline.isStaged, List.contains_iff_mem,
    List.contains_iff_mem]
  rcases htracking : ix.tracking with - | -
  · have harrived := h.recorded.1 _ hpresent
    have harrived' := h.recorded.2 _ (h.present.2 hpresent)
    rw [Timeline.arrivals, show ix.timeline.tracking = .staged from htracking] at harrived
    rw [Timeline.arrivals,
      show ix'.timeline.tracking = .staged from h.tracking.trans htracking] at harrived'
    exact iff_of_true harrived' harrived
  · exact (h.records htracking).1

/-- What is new to one target is new to the other. -/
theorem Agree.missing (hs : Agree key source source') (ht : Agree key target target') :
    key.joined ∈ target'.missing source'.pending ↔ key.joined ∈ target.missing source.pending := by
  rw [hs.atRest.2.mem_missing_iff, hs.atRest.1.mem_missing_iff, hs.present, ht.present]

/-- A transfer leaves two targets that agree, if they and the sources did. -/
theorem Agree.filled (hs : Agree key source source') (ht : Agree key target target') :
    Agree key (received source target).1 (received source' target').1 := by
  have hdated := ht.atRest.1.dated_receiveAll source.timeline source.pending
  have hdated' := ht.atRest.2.dated_receiveAll source'.timeline source'.pending
  have hmissing := hs.missing ht
  have hreceived := received_receiveAll ht.atRest.1 source.timeline source.pending
  have hreceived' := received_receiveAll ht.atRest.2 source'.timeline source'.pending
  refine ⟨⟨hreceived.target, hreceived'.target⟩,
    ⟨hdated.recorded ht.recorded.1, hdated'.recorded ht.recorded.2⟩, ?_, ?_, fun hp => ⟨?_, ?_⟩⟩
  · exact hdated'.tracking.trans (ht.tracking.trans hdated.tracking.symm)
  · rw [existence_received hs.atRest.1 ht.atRest.1, existence_received hs.atRest.2 ht.atRest.2,
      List.mem_append, List.mem_append, ht.present, hmissing]
  all_goals
    replace hp : target.tracking = .patches := hdated.tracking.symm.trans hp
    obtain ⟨hstaged, hpatches⟩ := ht.records hp
  · refine (hdated'.staged (ht.tracking.trans hp) _).trans (Iff.trans ?_ (hdated.staged hp _).symm)
    rw [hstaged, hmissing]
    refine or_congr_right (and_congr_right fun hnew => ?_)
    rw [hs.isStaged (hs.atRest.1.mem_missing_iff.1 hnew).1]
  · exact (congrArg _ hdated'.patches).trans (hpatches.trans (congrArg _ hdated.patches.symm))

/-- And it returns two differences that do. -/
theorem Agree.returned (hs : Agree key source source') (ht : Agree key target target') :
    Agree key (received source target).2 (received source' target').2 := by
  have hmerged := merged_receiveAll ht.atRest.1 source.timeline
    (hs.atRest.1.perm.nodup_iff.2 hs.atRest.1.nodup)
  have hmerged' := merged_receiveAll ht.atRest.2 source'.timeline
    (hs.atRest.2.perm.nodup_iff.2 hs.atRest.2.nodup)
  have hstaging : (received source target).2.Staging := staging_receiveAll ..
  have hstaging' : (received source' target').2.Staging := staging_receiveAll ..
  have huntracked : (received source target).2.tracking ≠ .patches := by
    rw [hstaging.tracking]
    exact nofun
  refine ⟨⟨hmerged.difference, hmerged'.difference⟩, ⟨hstaging.recorded, hstaging'.recorded⟩,
    hstaging'.tracking.trans hstaging.tracking.symm, ?_, fun hp => absurd hp huntracked⟩
  rw [received, received, hmerged.added, hmerged'.added, hs.missing ht]

/-! ## Runs -/

section Lists

variable {α β : Type} {R : α → β → Prop} {as : List α} {bs : List β}

theorem forall₂_modify {f : α → α} {g : β → β} (h : List.Forall₂ R as bs)
    (hfg : ∀ a b, R a b → R (f a) (g b)) (i : Nat) :
    List.Forall₂ R (as.modify i f) (bs.modify i g) := by
  induction h generalizing i with
  | nil =>
    rw [List.modify_nil, List.modify_nil]
    exact .nil
  | cons hab hrest ih =>
    cases i with
    | zero => exact .cons (hfg _ _ hab) hrest
    | succ i => exact .cons hab (ih i)

theorem forall₂_set {a : α} {b : β} (h : List.Forall₂ R as bs) (hab : R a b) (i : Nat) :
    List.Forall₂ R (as.set i a) (bs.set i b) := by
  induction h generalizing i with
  | nil => exact .nil
  | cons hold hrest ih =>
    cases i with
    | zero => exact .cons hab hrest
    | succ i => exact .cons hold (ih i)

theorem exists_getElem?_of_forall₂ {a : α} {i : Nat} (h : List.Forall₂ R as bs)
    (ha : as[i]? = some a) : ∃ b, bs[i]? = some b ∧ R a b := by
  induction h generalizing i with
  | nil => cases ha
  | cons hab _ ih =>
    cases i with
    | zero => exact ⟨_, rfl, Option.some.inj ha ▸ hab⟩
    | succ i => exact ih ha

end Lists

theorem exists_finds_iff :
    (∃ source target, Finds indexes i j source target) ↔
      i < indexes.length ∧ j < indexes.length := by
  constructor
  · rintro ⟨source, target, hs, ht⟩
    have hj := (List.getElem?_eq_some_iff.1 ht).1
    rw [List.length_set] at hj
    exact ⟨(List.getElem?_eq_some_iff.1 hs).1, hj⟩
  · rintro ⟨hi, hj⟩
    rw [← List.length_set (i := i) (a := indexes[i].takeAll.1)] at hj
    exact ⟨_, _, List.getElem?_eq_getElem hi, List.getElem?_eq_getElem hj⟩

/-- Two rows of indexes that agree do so after a transfer. -/
theorem agree_transfer (h : List.Forall₂ (Agree key) indexes indexes') (i j : Nat) :
    List.Forall₂ (Agree key) (call indexes (.transfer i j)) (call indexes' (.transfer i j)) := by
  by_cases hfinds : ∃ source target, Finds indexes i j source target
  · obtain ⟨source, target, hfinds⟩ := hfinds
    obtain ⟨source', hsource', hs⟩ := exists_getElem?_of_forall₂ h hfinds.source_found
    have hdrained := forall₂_set h hs.takeAll i
    obtain ⟨target', htarget', ht⟩ := exists_getElem?_of_forall₂ hdrained hfinds.target_found
    rw [call_transfer hfinds, call_transfer ⟨hsource', htarget'⟩]
    exact List.rel_append (forall₂_set hdrained (hs.filled ht) j) (.cons (hs.returned ht) .nil)
  · have hnone : ¬∃ source target, Finds indexes' i j source target := by
      rwa [exists_finds_iff, ← h.length_eq, ← exists_finds_iff]
    rwa [call_transfer_of_not fun s t hst => hfinds ⟨s, t, hst⟩,
      call_transfer_of_not fun s t hst => hnone ⟨s, t, hst⟩]

/-- The part of a mark that is about the entry names its joined key as often as the whole. -/
theorem count_about
    (h : ∀ k ∈ members.map (EntryKey.mk owner), k.joined = key.joined → k = key) :
    ((members.filter fun member => EntryKey.mk owner member = key).map (joinKey owner)).count
        key.joined = (members.map (joinKey owner)).count key.joined := by
  simp only [List.count, List.countP_map, List.countP_filter]
  refine List.countP_congr fun member hmember => ?_
  have hsame : joinKey owner member = key.joined → EntryKey.mk owner member = key :=
    h _ (List.mem_map_of_mem hmember)
  simpa using hsame

/-- Of the entries named in a call the others make no difference, if their joined keys are other
ones. -/
theorem agree_call (h : List.Forall₂ (Agree key) indexes indexes') (c : Call)
    (hc : ∀ k ∈ c.entries, k.joined = key.joined → k = key) :
    List.Forall₂ (Agree key) (call indexes c) ((c.about? key).elim indexes' (call indexes')) := by
  cases c with
  | report i reported =>
    rw [Call.about?]
    by_cases hkey : reported = key
    · subst hkey
      rw [if_pos rfl]
      exact forall₂_modify h (fun _ _ hab => hab.report) i
    · rw [if_neg hkey]
      have hne : reported.joined ≠ key.joined := fun heq => hkey (hc _ List.mem_cons_self heq)
      have hidle : indexes'.modify i id = indexes' := List.modify_id ..
      rw [Option.elim_none, ← hidle]
      exact forall₂_modify h (fun _ _ hab => hab.report_of_ne hne) i
  | markPatched i owner members =>
    exact forall₂_modify h (fun _ _ hab => hab.markPatched (count_about hc)) i
  | transfer i j => exact agree_transfer h i j

/-- **Calls on other entries make no difference.** -/
theorem agree_run (trackings : List Tracking) (calls : List Call)
    (hcalls : ∀ c ∈ calls, ∀ k ∈ c.entries, k.joined = key.joined → k = key) :
    List.Forall₂ (Agree key) (run trackings calls)
      (run trackings (calls.filterMap (Call.about? key))) := by
  induction calls using List.reverseRecOn with
  | nil =>
    refine List.forall₂_same.2 fun ix hix => ?_
    obtain ⟨tracking, -, rfl⟩ := List.mem_map.1 hix
    exact agree_empty key tracking
  | append_singleton calls c ih =>
    have hbefore := ih fun c' hc' => hcalls c' (List.mem_append_left _ hc')
    have hstep := agree_call hbefore c (hcalls c (List.mem_append_right _ List.mem_cons_self))
    have hrun : run trackings ((calls ++ [c]).filterMap (Call.about? key)) =
        (c.about? key).elim (run trackings (calls.filterMap (Call.about? key)))
          (call (run trackings (calls.filterMap (Call.about? key)))) := by
      rw [List.filterMap_append]
      cases habout : c.about? key with
      | none => simp [habout]
      | some c' => simp [habout, run_append]
    rw [run_append, hrun]
    exact hstep

theorem Agree.status (h : Agree key ix ix') (hpresent : key.joined ∈ ix.existence) :
    ix'.timeline.status? key.joined = ix.timeline.status? key.joined := by
  have hstaged := h.isStaged hpresent
  have harrived := h.recorded.1 _ hpresent
  have harrived' := h.recorded.2 _ (h.present.2 hpresent)
  have htracking : ix'.timeline.tracking = ix.timeline.tracking := h.tracking
  rw [Timeline.status?, Timeline.status?, htracking]
  rcases hp : ix.timeline.tracking with - | -
  · rfl
  · rw [Timeline.arrivals, hp] at harrived
    rw [Timeline.arrivals, htracking, hp] at harrived'
    dsimp only [Timeline.isStaged] at hstaged ⊢
    rw [hstaged, List.contains_iff_mem.2 harrived, List.contains_iff_mem.2 harrived',
      (h.records hp).2]

/-- Indexes that hold the same of an entry give the same account of it. -/
theorem Agree.sameAccount (h : Agree key ix ix') : SameAccount key ix ix' := by
  refine ⟨?_, ?_, fun timing => ?_⟩
  · rw [Bool.eq_iff_iff, contains_iff, contains_iff, h.present]
  · by_cases hpresent : key.joined ∈ ix.existence
    · rw [report_of_mem hpresent, report_of_mem (h.present.2 hpresent)]
    · rw [(h.atRest.1.report_of_notMem hpresent).2.2,
        (h.atRest.2.report_of_notMem (mt h.present.1 hpresent)).2.2]
  · rw [mem_stats, mem_stats, h.present]
    exact and_congr_right fun hpresent => by rw [h.status hpresent]

/-- **Which entries share a joined key, exactly.** They have one owner and one member, or the owner
of one is that of the other with a separator and a text behind it, and that text and a separator
open the other's member. So a family has a joined key for each entry if its owners lack the
separator, and if its members do. Where a family has that, calls on any number of indexes that name
only entries of it leave each index to give the same account of an entry as the calls about that
entry alone. -/
theorem collisions_exact :
    (∀ o₁ m₁ o₂ m₂ : String, joinKey o₁ m₁ = joinKey o₂ m₂ ↔
      o₁ = o₂ ∧ m₁ = m₂ ∨
        (∃ x, o₁ = o₂ ++ "#" ++ x ∧ m₂ = x ++ "#" ++ m₁) ∨
        ∃ x, o₂ = o₁ ++ "#" ++ x ∧ m₁ = x ++ "#" ++ m₂) ∧
      (∀ family : Set EntryKey, (∀ key ∈ family, '#' ∉ key.owner.toList) →
        Set.InjOn EntryKey.joined family) ∧
      (∀ family : Set EntryKey, (∀ key ∈ family, '#' ∉ key.member.toList) →
        Set.InjOn EntryKey.joined family) ∧
      ∀ family : Set EntryKey, Set.InjOn EntryKey.joined family →
        ∀ trackings calls, (∀ c ∈ calls, ∀ key ∈ c.entries, key ∈ family) →
          ∀ key ∈ family, List.Forall₂ (SameAccount key) (run trackings calls)
            (run trackings (calls.filterMap (Call.about? key))) := by
  refine ⟨fun o₁ m₁ o₂ m₂ => ?_, fun family howners => EntryKey.injOn_joined (.inl howners),
    fun family hmembers => EntryKey.injOn_joined (.inr hmembers), ?_⟩
  · have hjoined := EntryKey.joined_eq_iff (a := ⟨o₁, m₁⟩) (b := ⟨o₂, m₂⟩)
    rwa [EntryKey.mk.injEq] at hjoined
  · intro family hinj trackings calls hcalls key hkey
    have halone : ∀ c ∈ calls, ∀ k ∈ c.entries, k.joined = key.joined → k = key :=
      fun c hc k hk hjoined => hinj (hcalls c hc k hk) hkey hjoined
    exact (agree_run trackings calls halone).imp fun _ _ hab => hab.sameAccount

/-! ## Members with a separator -/

namespace Separated

/-- The entries whose owners lack the separator. -/
def family : Set EntryKey :=
  { key | '#' ∉ key.owner.toList }

/-- Two members of `a`, one of them with a separator, are reported, handed on and patched. The other
one is reported and handed on once more. -/
def history : List Call :=
  [.report 0 ⟨"a", "b#c"⟩, .report 0 ⟨"a", "c"⟩, .transfer 0 1, .markPatched 1 "a" ["c", "b#c"],
    .report 0 ⟨"a", "c"⟩, .transfer 0 1]

/-- What of it is about the member `b#c`. -/
def own : List Call :=
  [.report 0 ⟨"a", "b#c"⟩, .transfer 0 1, .markPatched 1 "a" ["b#c"], .transfer 0 1]

/-- A member of `a#b` would be taken for `b#c` of `a`. In a family without such owners the calls on
`c` leave no trace in what is shown of `b#c`. -/
theorem collisions_exact_separated :
    joinKey "a#b" "c" = joinKey "a" "b#c" ∧ joinKey "a" "c" ≠ joinKey "a" "b#c" ∧
      history.filterMap (Call.about? ⟨"a", "b#c"⟩) = own ∧
      List.Forall₂ (SameAccount ⟨"a", "b#c"⟩) (run [.staged, .patches] history)
        (run [.staged, .patches] own) := by
  obtain ⟨hjoined, howners, -, haccount⟩ := collisions_exact
  have hinj : Set.InjOn EntryKey.joined family := howners family fun _ => id
  have hcalls : ∀ c ∈ history, ∀ key ∈ c.entries, '#' ∉ key.owner.toList := by decide +kernel
  have hown : history.filterMap (Call.about? ⟨"a", "b#c"⟩) = own := by decide +kernel
  have hkey (member : String) : (⟨"a", member⟩ : EntryKey) ∈ family :=
    show '#' ∉ "a".toList by decide +kernel
  refine ⟨(hjoined ..).2 (.inr (.inl ⟨"b", by decide +kernel, by decide +kernel⟩)), ?_, hown,
    hown ▸ haccount family hinj _ history hcalls _ (hkey "b#c")⟩
  intro hsame
  have hmember := (EntryKey.mk.inj (hinj (hkey "c") (hkey "b#c") hsame)).2
  exact absurd hmember (by decide +kernel)

end Separated

end Indexes

end CallPatch
