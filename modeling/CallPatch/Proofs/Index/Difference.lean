import CallPatch.Proofs.Index.Content
import Mathlib.Data.List.Induction
/-!
# Entry indexes — union and difference

What a transfer between two of any number of indexes comes to, when calls run
one at a time. The table of the target becomes the union of the two tables, the
table of the difference is what was in the source's and not in the target's, and
the source keeps its groups without their members. The entries listed in the
difference are those of the source whose joined key the target did not have, so
an entry can be passed over for another one that shares its joined key.

First the tables and the counters of the receiving index are told entry by entry
(`Merged`). That the entries a source lists are those of its table is known of
every index that calls can leave behind (`Indexes.atRest_run`).
-/

namespace CallPatch

namespace EntryIndex

variable {ix before source target : EntryIndex} {key k : EntryKey} {owner member joined : String}

/-! ## Counters -/

/-- A member that is new to its set raises no counter. -/
theorem counters_place (h : (ix.place key).2 = true) :
    (ix.place key).1.counters = ix.counters := by
  unfold place at h ⊢
  split
  · rfl
  · next g hg =>
    split
    · next hmember =>
      rw [hg] at h
      dsimp only at h
      rw [if_pos hmember] at h
      cases h
    · rfl

/-- Nor does a report of a key that is not there. -/
theorem AtRest.counters_report (h : ix.AtRest) (hkey : key.joined ∉ ix.existence) :
    (ix.report key).1.counters = ix.counters := by
  have hfresh := (h.report_of_notMem hkey).2.2
  rw [EntryIndex.report_of_notMem hkey] at hfresh ⊢
  exact counters_place hfresh

theorem counters_receive {difference : EntryIndex} (history : Timeline) (htarget : target.AtRest)
    (hdifference : difference.AtRest) (h : key.joined ∉ target.existence)
    (h' : key.joined ∉ difference.existence) :
    (receive history (target, difference) key).1.counters = target.counters ∧
      (receive history (target, difference) key).2.counters = difference.counters := by
  rw [receive_eq, if_pos (htarget.report_of_notMem h).2.2]
  split <;> exact ⟨htarget.counters_report h, hdifference.counters_report h'⟩

/-! ## Receiving -/

theorem contains_iff : ix.contains key = true ↔ key.joined ∈ ix.existence :=
  List.contains_iff_mem

/-- The joined keys of those entries that the index does not contain. -/
def missing (ix : EntryIndex) (keys : List EntryKey) : List String :=
  (keys.filter fun key => !ix.contains key).map EntryKey.joined

theorem mem_missing {keys : List EntryKey} :
    joined ∈ ix.missing keys ↔ joined ∈ keys.map EntryKey.joined ∧ joined ∉ ix.existence := by
  simp only [missing, List.mem_map, List.mem_filter, Bool.not_eq_true', ← Bool.not_eq_true,
    contains_iff]
  constructor
  · rintro ⟨key, ⟨hkey, hnew⟩, rfl⟩
    exact ⟨⟨key, hkey, rfl⟩, hnew⟩
  · rintro ⟨⟨key, hkey, rfl⟩, hnew⟩
    exact ⟨key, ⟨hkey, hnew⟩, rfl⟩

/-- The tables and counters when some entries with different joined keys have been received. -/
structure Merged (before : EntryIndex) (keys : List EntryKey) (state : EntryIndex × EntryIndex) :
    Prop extends Received before keys state where
  union : state.1.existence = before.existence ++ before.missing keys
  added : state.2.existence = before.missing keys
  counted : state.1.counters =
    { before.counters with
      renotifications := before.counters.renotifications + keys.countP before.contains }
  uncounted : state.2.counters = .zero

variable {keys : List EntryKey} {state : EntryIndex × EntryIndex}

theorem merged_nil (h : target.AtRest) : Merged target [] (target, staging) where
  toReceived := received_nil h
  union := (List.append_nil _).symm
  added := rfl
  counted := rfl
  uncounted := rfl

/-- One more entry is received. -/
theorem Merged.receive (h : Merged before keys state) (history : Timeline)
    (hkey : key.joined ∉ keys.map EntryKey.joined) :
    Merged before (keys ++ [key]) (receive history state key) := by
  have hreceived := h.toReceived.receive history key
  obtain ⟨target, difference⟩ := state
  by_cases hold : before.contains key = true
  · have hthere : key.joined ∈ target.existence := by
      rw [h.union]
      exact List.mem_append_left _ (contains_iff.1 hold)
    have hsame : before.missing (keys ++ [key]) = before.missing keys := by
      simp [missing, hold]
    rw [receive_of_mem hthere] at hreceived ⊢
    refine ⟨hreceived, hsame ▸ h.union, hsame ▸ h.added, ?_, h.uncounted⟩
    have hcounters : target.renotified.counters =
        { target.counters with
          renotifications := target.counters.renotifications + 1 } := rfl
    rw [hcounters, h.counted]
    simp [List.countP_append, hold, Nat.add_assoc]
  · have hnew : key.joined ∉ before.missing keys := fun hmem => hkey (mem_missing.1 hmem).1
    have hthere : key.joined ∉ target.existence := by
      rw [h.union, List.mem_append, not_or]
      exact ⟨fun hmem => hold (contains_iff.2 hmem), hnew⟩
    have hthere' : key.joined ∉ difference.existence := by
      rw [h.added]
      exact hnew
    obtain ⟨hunion, hadded, -⟩ :=
      receive_of_notMem history h.target h.difference hthere hthere'
    obtain ⟨hcounted, huncounted⟩ :=
      counters_receive history h.target h.difference hthere hthere'
    have hmore : before.missing (keys ++ [key]) = before.missing keys ++ [key.joined] := by
      simp [missing, hold]
    refine ⟨hreceived, ?_, ?_, ?_, huncounted.trans h.uncounted⟩
    · rw [hunion, h.union, hmore, List.append_assoc]
    · rw [hadded, h.added, hmore]
    · rw [hcounted, h.counted]
      simp [List.countP_append, hold]

theorem merged_receiveAll (h : target.AtRest) (history : Timeline)
    (hnodup : (keys.map EntryKey.joined).Nodup) :
    Merged target keys (receiveAll history target keys) := by
  suffices hall : ∀ (done : List EntryKey) (state : EntryIndex × EntryIndex),
      ((done ++ keys).map EntryKey.joined).Nodup → Merged target done state →
        Merged target (done ++ keys) (keys.foldl (EntryIndex.receive history) state) from
    hall [] _ hnodup (merged_nil h)
  clear hnodup
  induction keys with
  | nil =>
    intro done state _ hstate
    rwa [List.append_nil]
  | cons key keys ih =>
    intro done state hnodup hstate
    have hkey : key.joined ∉ done.map EntryKey.joined := by
      rw [List.map_append, List.nodup_append] at hnodup
      exact fun hmem => hnodup.2.2 _ hmem _ List.mem_cons_self rfl
    rw [List.append_cons] at hnodup ⊢
    exact ih _ _ hnodup (hstate.receive history hkey)

/-! ## Transfers -/

/-- The entry is listed among the members of its owner. -/
def Lists (ix : EntryIndex) (key : EntryKey) : Prop :=
  key.member ∈ (ix.membersOf? key.owner).getD []

theorem AtRest.lists_iff (h : ix.AtRest) : ix.Lists k ↔ k ∈ ix.pending :=
  h.mem_membersOf

theorem AtRest.owners_nodup (h : ix.AtRest) : ix.owners.Nodup := by
  obtain ⟨s, hreach, -, rfl⟩ := h
  exact (System.accounted_of_reachable hreach).owners

/-- What is taken out of an index is all of its table. -/
theorem AtRest.takeAll_fst (h : ix.AtRest) :
    ix.takeAll.1 = { ix with existence := [], groups := ix.owners.map MemberSet.empty } := by
  have hnone : ix.existence.filter (fun key => !(ix.pending.map EntryKey.joined).contains key) =
      [] := by
    refine List.filter_eq_nil_iff.2 fun joined hjoined => ?_
    simpa using h.exists_pending hjoined
  have hgroups : ix.groups.map (fun g => g.drain.1) = ix.owners.map MemberSet.empty := by
    rw [owners, List.map_map]
    rfl
  rw [EntryIndex.takeAll, hnone, hgroups]

/-- The index lists these owners: none if there is no entry, and otherwise each owner of an entry
once. -/
def ListsOwnersOf (ix : EntryIndex) (listed : EntryKey → Prop) : Prop :=
  ((∀ k, ¬listed k) → ix.ownerNames? = none) ∧
    ((∃ k, listed k) → ∃ names, ix.ownerNames? = some names ∧ names.Nodup ∧
      ∀ owner, owner ∈ names ↔ ∃ member, listed ⟨owner, member⟩)

/-- An index that is only reported to lists the owners of what waits in it. -/
theorem AtRest.listsOwnersOf (h : ix.AtRest) (hpopulated : ix.Populated) :
    ix.ListsOwnersOf (· ∈ ix.pending) := by
  constructor
  · intro hnone
    have hempty : ix.isEmpty = true :=
      h.isEmpty_of_pending (List.eq_nil_iff_forall_not_mem.2 hnone)
    rw [ownerNames?, if_pos hempty]
  · rintro ⟨k, hk⟩
    rcases hnames : ix.ownerNames? with - | names
    · have hlisted := h.mem_ownerNames hk
      rw [hnames] at hlisted
      cases hlisted
    · refine ⟨names, rfl, ?_, fun owner => ?_⟩
      · rw [ownerNames?] at hnames
        split at hnames
        · cases hnames
        · obtain rfl := Option.some.inj hnames
          exact (List.mergeSort_perm _ _).nodup_iff.2 h.owners_nodup
      · constructor
        · intro howner
          obtain ⟨k, hk, rfl⟩ := hpopulated.exists_pending (by rwa [hnames])
          exact ⟨k.member, hk⟩
        · rintro ⟨member, hmember⟩
          have hlisted := h.mem_ownerNames hmember
          rwa [hnames] at hlisted

/-- So it lists the owner of every entry once, and nobody else. -/
theorem Collected.ownerNames (h : ix.Collected) :
    (ix.ownerNames?.getD []).Nodup ∧
      ∀ owner, owner ∈ ix.ownerNames?.getD [] ↔ ∃ member, ⟨owner, member⟩ ∈ ix.pending := by
  obtain ⟨hempty, hlisted⟩ := h.atRest.listsOwnersOf h.populated
  by_cases hsome : ∃ k, k ∈ ix.pending
  · obtain ⟨names, hnames, hnodup, hmem⟩ := hlisted hsome
    rw [hnames]
    exact ⟨hnodup, hmem⟩
  · rw [hempty (not_exists.1 hsome)]
    refine ⟨List.nodup_nil, fun owner => ⟨fun howner => absurd howner List.not_mem_nil, ?_⟩⟩
    rintro ⟨member, hmember⟩
    exact absurd ⟨_, hmember⟩ hsome

/-- The entry is new to the target: the source lists it, and the target does not contain it. -/
def New (source target : EntryIndex) (key : EntryKey) : Prop :=
  source.Lists key ∧ target.contains key = false

instance (ix : EntryIndex) (key : EntryKey) : Decidable (ix.Lists key) :=
  inferInstanceAs (Decidable (_ ∈ _))

instance (source target : EntryIndex) (key : EntryKey) : Decidable (New source target key) :=
  inferInstanceAs (Decidable (_ ∧ _))

/-- The target holds the union and the difference the difference. -/
structure UnionAndDifference (source target : EntryIndex) (t : Transferred) : Prop where
  /-- Only the groups are left of the source's entries. -/
  emptied : t.source =
    { source with existence := [], groups := source.owners.map MemberSet.empty }
  union : t.target.existence.Nodup ∧
    ∀ joined, joined ∈ t.target.existence ↔ joined ∈ target.existence ∨ joined ∈ source.existence
  difference : t.difference.existence.Nodup ∧
    ∀ joined, joined ∈ t.difference.existence ↔
      joined ∈ source.existence ∧ joined ∉ target.existence
  target_lists : ∀ k, t.target.Lists k ↔ target.Lists k ∨ New source target k
  difference_lists : ∀ k, t.difference.Lists k ↔ New source target k
  owners : t.difference.ListsOwnersOf (New source target)
  /-- What both have counts as reported again. -/
  counted : t.target.counters =
    { target.counters with
      renotifications := target.counters.renotifications +
        source.existence.countP target.existence.contains }
  uncounted : t.difference.counters = .zero

/-- A transfer receives what waits at the source. -/
theorem AtRest.merged_transfer (hs : source.AtRest) (ht : target.AtRest) :
    Merged target source.pending
      ((source.transfer target).target, (source.transfer target).difference) :=
  merged_receiveAll ht source.takeAll.1.timeline (hs.perm.nodup_iff.2 hs.nodup)

/-- The target misses what is in the table of the source and not in its own. -/
theorem AtRest.mem_missing_iff (hs : source.AtRest) :
    joined ∈ target.missing source.pending ↔
      joined ∈ source.existence ∧ joined ∉ target.existence := by
  rw [mem_missing]
  exact and_congr_left' hs.perm.mem_iff

theorem AtRest.mem_difference (hs : source.AtRest) (ht : target.AtRest) :
    joined ∈ (source.transfer target).difference.existence ↔
      joined ∈ source.existence ∧ joined ∉ target.existence := by
  rw [(hs.merged_transfer ht).added, hs.mem_missing_iff]

/-- What waits in the difference is what is new, and not another entry with its joined key. -/
theorem AtRest.mem_difference_pending (hs : source.AtRest) (ht : target.AtRest) :
    k ∈ (source.transfer target).difference.pending ↔ New source target k := by
  have hmoved := hs.transfer ht
  rw [New, hs.lists_iff, ← Bool.not_eq_true, contains_iff]
  constructor
  · intro hk
    have hjoined := hmoved.difference_atRest.mem_existence.2 ⟨k, hk, rfl⟩
    exact ⟨hmoved.taken k hk, ((hs.mem_difference ht).1 hjoined).2⟩
  · rintro ⟨hk, hnew⟩
    have hjoined := (hs.mem_difference ht).2 ⟨hs.mem_existence.2 ⟨k, hk, rfl⟩, hnew⟩
    obtain ⟨k', hk', hsame⟩ := hmoved.difference_atRest.exists_pending hjoined
    rwa [← hs.eq_of_joined_eq (hmoved.taken k' hk') hk hsame]

/-- **A transfer between two indexes computes union and difference.** -/
theorem AtRest.unionAndDifference (hs : source.AtRest) (ht : target.AtRest) :
    UnionAndDifference source target (source.transfer target) := by
  have hmoved := hs.transfer ht
  have hmerged := hs.merged_transfer ht
  have hpopulated : (source.transfer target).difference.Populated :=
    (collected_receiveAll source.takeAll.1.timeline target source.pending).populated
  have howners := hmoved.difference_atRest.listsOwnersOf hpopulated
  simp only [hs.mem_difference_pending ht] at howners
  refine ⟨hs.takeAll_fst, ⟨hmoved.target_atRest.nodup, fun joined => ?_⟩,
    ⟨hmoved.difference_atRest.nodup, fun joined => hs.mem_difference ht⟩, fun k => ?_,
    fun k => ?_, howners, ?_, hmerged.uncounted⟩
  · rw [hmerged.union, List.mem_append, ← hmerged.added, hs.mem_difference ht]
    exact ⟨Or.imp_right And.left, fun h => or_iff_not_imp_left.2 fun hnot =>
      ⟨h.resolve_left hnot, hnot⟩⟩
  · rw [hmoved.target_atRest.lists_iff, ht.lists_iff, hmoved.mem_pending,
      hs.mem_difference_pending ht]
  · rw [hmoved.difference_atRest.lists_iff, hs.mem_difference_pending ht]
  · have hoverlap : source.pending.countP target.contains =
        source.existence.countP target.existence.contains := by
      rw [← hs.perm.countP_eq, waiting, List.countP_map]
      rfl
    rw [hmerged.counted, hoverlap]

end EntryIndex

/-! ## Any number of indexes -/

namespace Indexes

open EntryIndex

/-- What is asked of a list of indexes. -/
inductive Call where
  | report (i : Nat) (key : EntryKey)
  | markPatched (i : Nat) (owner : String) (members : List String)
  /-- The difference becomes the last index of the list. -/
  | transfer (i j : Nat)
  deriving DecidableEq, Repr

/-- One call. Where there is no index of that number it does nothing. -/
def call (indexes : List EntryIndex) : Call → List EntryIndex
  | .report i key => indexes.modify i fun ix => (ix.report key).1
  | .markPatched i owner members => indexes.modify i fun ix => ix.markPatched owner members
  | .transfer i j => (transferAmong indexes i j).getD indexes

/-- One call after another, from indexes without entries. -/
def run (trackings : List Tracking) (calls : List Call) : List EntryIndex :=
  calls.foldl call (trackings.map EntryIndex.empty)

variable {indexes : List EntryIndex} {trackings : List Tracking} {calls : List Call}
variable {source target : EntryIndex} {i j : Nat}

theorem forall_mem_modify {α : Type} {P : α → Prop} {f : α → α} {as : List α}
    (h : ∀ a ∈ as, P a) (hf : ∀ a, P a → P (f a)) (i : Nat) : ∀ a ∈ as.modify i f, P a := by
  intro a ha
  obtain ⟨n, hn, rfl⟩ := List.mem_iff_getElem.1 ha
  rw [List.getElem_modify]
  have hmem := h _ (List.getElem_mem (List.length_modify .. ▸ hn))
  split
  · exact hf _ hmem
  · exact hmem

theorem forall_mem_set {α : Type} {P : α → Prop} {as : List α} {a : α} (h : ∀ b ∈ as, P b)
    (ha : P a) (i : Nat) : ∀ b ∈ as.set i a, P b := by
  intro b hb
  rcases List.mem_or_eq_of_mem_set hb with hb | rfl
  · exact h b hb
  · exact ha

theorem transferAmong_of_ne (hne : i ≠ j) (hs : indexes[i]? = some source)
    (ht : indexes[j]? = some target) :
    transferAmong indexes i j = some
      ((indexes.set i (source.transfer target).source).set j (source.transfer target).target ++
        [(source.transfer target).difference]) := by
  simp only [transferAmong, hs, ht, if_neg hne, bind, Option.bind, pure]

/-- Calls leave indexes at rest. -/
theorem atRest_call (h : ∀ ix ∈ indexes, ix.AtRest) (c : Call) :
    ∀ ix ∈ call indexes c, ix.AtRest := by
  cases c with
  | report i key => exact forall_mem_modify h (fun ix hix => hix.report key) i
  | markPatched i owner members =>
    exact forall_mem_modify h (fun ix hix => hix.annotate _) i
  | transfer i j =>
    rw [call]
    rcases hs : indexes[i]? with - | source
    · simpa [transferAmong, hs] using h
    · have hsource := h source (List.mem_of_getElem? hs)
      by_cases hij : i = j
      · have hreceived := received_receiveAll hsource.takeAll source.takeAll.1.timeline
          source.pending
        have hrecycled : transferAmong indexes i j =
            some (indexes.set i source.recycle.1 ++ [source.recycle.2]) := by
          simp only [transferAmong, hs, if_pos hij, bind, Option.bind, pure]
        rw [hrecycled, Option.getD_some]
        exact List.forall_mem_append.2 ⟨forall_mem_set h hreceived.target i,
          List.forall_mem_singleton.2 hreceived.difference⟩
      · rcases ht : indexes[j]? with - | target
        · simpa [transferAmong, hs, hij, ht] using h
        · have hmoved := hsource.transfer (h target (List.mem_of_getElem? ht))
          rw [transferAmong_of_ne hij hs ht, Option.getD_some]
          exact List.forall_mem_append.2
            ⟨forall_mem_set (forall_mem_set h hmoved.source_atRest i) hmoved.target_atRest j,
              List.forall_mem_singleton.2 hmoved.difference_atRest⟩

theorem atRest_run (trackings : List Tracking) (calls : List Call) :
    ∀ ix ∈ run trackings calls, ix.AtRest := by
  induction calls using List.reverseRecOn with
  | nil =>
    intro ix hix
    obtain ⟨tracking, -, rfl⟩ := List.mem_map.1 hix
    exact atRest_empty tracking
  | append_singleton calls c ih =>
    rw [run, List.foldl_append]
    exact atRest_call ih c

/-- **A transfer between two of any number of indexes computes union and difference**, whatever
calls have come before it. -/
theorem transfer_unionAndDifference (hne : i ≠ j)
    (hs : (run trackings calls)[i]? = some source) (ht : (run trackings calls)[j]? = some target) :
    ∃ t, run trackings (calls ++ [.transfer i j]) =
        ((run trackings calls).set i t.source).set j t.target ++ [t.difference] ∧
      UnionAndDifference source target t := by
  have hsource := atRest_run trackings calls source (List.mem_of_getElem? hs)
  have htarget := atRest_run trackings calls target (List.mem_of_getElem? ht)
  refine ⟨source.transfer target, ?_, hsource.unionAndDifference htarget⟩
  rw [run, List.foldl_append]
  show (transferAmong (run trackings calls) i j).getD (run trackings calls) = _
  rw [transferAmong_of_ne hne hs ht, Option.getD_some]

/-! ## Two entries with one joined key -/

namespace Shared

/-- The member `b#c` of `a` is transferred and patched. Then the member `c` of `a#b` is reported,
which has the same joined key, and a member of `d`. -/
def history : List Call :=
  [.report 0 ⟨"a", "b#c"⟩, .transfer 0 1, .markPatched 1 "a" ["b#c"], .report 0 ⟨"a#b", "c"⟩,
    .report 0 ⟨"d", "e"⟩]

/-- What these calls leave behind. -/
def before : List EntryIndex :=
  run [.staged, .patches] history

def staging : EntryIndex :=
  before[0]?.getD .staging

def installed : EntryIndex :=
  before[1]?.getD .installed

/-- The next transfer counts the first as reported again, and lists the second. -/
theorem transfer_unionAndDifference_shared : ∃ t : Transferred,
    run [.staged, .patches] (history ++ [.transfer 0 1]) =
        (before.set 0 t.source).set 1 t.target ++ [t.difference] ∧
      t.target.counters.renotifications = 1 ∧ ¬t.target.Lists ⟨"a#b", "c"⟩ ∧
        t.difference.Lists ⟨"d", "e"⟩ ∧ ∃ names, t.difference.ownerNames? = some names ∧
          "d" ∈ names ∧ "a#b" ∉ names := by
  have hs : before[0]? = some staging := by decide +kernel
  have ht : before[1]? = some installed := by decide +kernel
  obtain ⟨t, hrun, hmoved⟩ := transfer_unionAndDifference Nat.zero_ne_one hs ht
  have hnew : New staging installed ⟨"d", "e"⟩ := by decide +kernel
  have hold (member : String) : ¬New staging installed ⟨"a#b", member⟩ := by
    rintro ⟨hlisted, hnew⟩
    have hmembers : (staging.membersOf? "a#b").getD [] = ["c"] := by decide +kernel
    rw [EntryIndex.Lists, hmembers, List.mem_singleton] at hlisted
    obtain rfl : member = "c" := hlisted
    exact absurd hnew (by decide +kernel)
  obtain ⟨names, hnames, -, howners⟩ := hmoved.owners.2 ⟨_, hnew⟩
  refine ⟨t, hrun, ?_, ?_, (hmoved.difference_lists _).2 hnew, names, hnames,
    (howners _).2 ⟨_, hnew⟩, fun hmem => ?_⟩
  · rw [hmoved.counted]
    decide +kernel
  · rw [hmoved.target_lists, not_or]
    exact ⟨by decide +kernel, hold _⟩
  · obtain ⟨member, hmember⟩ := (howners _).1 hmem
    exact hold member hmember

end Shared

end Indexes

end CallPatch
