import CallPatch.Proofs.Index.Records
/-!
# Entry indexes — how far an entry has come

What an index that records patches shows of an entry is read off its three
records of the joined key. Each record holds what the calls say, in whatever
order they came (`Told`, kept by every call): a staged time is known just when a
transfer has copied it in (`Copied`), and there are as many patches as the calls
name (`marks`).

No record is ever dropped, also not when the index is emptied itself. So an entry
never goes back, and an index that only takes in what staging indexes hand on
shows every entry with its staged time (`lifecycle_exact`).
-/

namespace CallPatch

namespace Indexes

open EntryIndex

variable {indexes : List EntryIndex} {trackings : List Tracking} {calls : List Call} {c : Call}
  {ix source target : EntryIndex} {i j : Nat} {joined : String}

/-- A transfer finds the source, empties it, and then finds the target. Of an index that is
transferred to itself the emptied one is the target. -/
structure Finds (indexes : List EntryIndex) (i j : Nat) (source target : EntryIndex) : Prop where
  source_found : indexes[i]? = some source
  target_found : (indexes.set i source.takeAll.1)[j]? = some target

/-- The target is the emptied source or an index of its own. -/
theorem Finds.target_cases (h : Finds indexes i j source target) :
    i = j ∧ target = source.takeAll.1 ∨ i ≠ j ∧ indexes[j]? = some target := by
  obtain ⟨hs, ht⟩ := h
  by_cases hij : i = j
  · subst hij
    rw [List.getElem?_set_self (List.getElem?_eq_some_iff.1 hs).1] at ht
    exact .inl ⟨rfl, (Option.some.inj ht).symm⟩
  · rw [List.getElem?_set_ne hij] at ht
    exact .inr ⟨hij, ht⟩

/-- What the target and the difference become. -/
def received (source target : EntryIndex) : EntryIndex × EntryIndex :=
  receiveAll source.timeline target source.pending

/-- A transfer that finds both empties the one, fills the other and adds the difference. -/
theorem call_transfer (h : Finds indexes i j source target) :
    call indexes (.transfer i j) =
      (indexes.set i source.takeAll.1).set j (received source target).1 ++
        [(received source target).2] := by
  rcases h.target_cases with ⟨rfl, rfl⟩ | ⟨hij, ht⟩
  · have hrecycled : transferAmong indexes i i =
        some (indexes.set i source.recycle.1 ++ [source.recycle.2]) := by
      simp only [transferAmong, h.source_found, bind, Option.bind, pure, if_true]
    rw [call, hrecycled, Option.getD_some, List.set_set]
    rfl
  · rw [call, transferAmong_of_ne hij h.source_found ht, Option.getD_some]
    rfl

/-- A transfer that does not find both does nothing. -/
theorem call_transfer_of_not (h : ∀ source target, ¬Finds indexes i j source target) :
    call indexes (.transfer i j) = indexes := by
  rcases hs : indexes[i]? with - | source
  · simp [call, transferAmong, hs]
  · rcases ht : (indexes.set i source.takeAll.1)[j]? with - | target
    · have hij : i ≠ j := by
        rintro rfl
        obtain ⟨hi, -⟩ := List.getElem?_eq_some_iff.1 hs
        rw [List.getElem?_set_self hi] at ht
        cases ht
      rw [List.getElem?_set_ne hij] at ht
      simp [call, transferAmong, hs, ht, hij]
    · exact absurd ⟨hs, ht⟩ (h source target)

/-- What the call leaves of the index of a number. -/
inductive Became (indexes : List EntryIndex) : Call → Nat → EntryIndex → Prop where
  | reported {ix : EntryIndex} {i : Nat} (found : indexes[i]? = some ix) (key : EntryKey) :
      Became indexes (.report i key) i (ix.report key).1
  | marked {ix : EntryIndex} {i : Nat} (found : indexes[i]? = some ix) (owner : String)
      (members : List String) :
      Became indexes (.markPatched i owner members) i (ix.markPatched owner members)
  | drained {source target : EntryIndex} {i j : Nat} (finds : Finds indexes i j source target)
      (others : i ≠ j) : Became indexes (.transfer i j) i source.takeAll.1
  | filled {source target : EntryIndex} {i j : Nat} (finds : Finds indexes i j source target) :
      Became indexes (.transfer i j) j (received source target).1
  /-- The difference is a new index. -/
  | returned {source target : EntryIndex} {i j : Nat} (finds : Finds indexes i j source target) :
      Became indexes (.transfer i j) indexes.length (received source target).2
  | untouched {ix : EntryIndex} {c : Call} {i : Nat} (found : indexes[i]? = some ix)
      (unmarked : ∀ owner members, c ≠ .markPatched i owner members)
      (unfilled : ∀ k source target, c = .transfer k i → ¬Finds indexes k i source target) :
      Became indexes c i ix

/-- After a transfer that finds both, every index was emptied, filled, returned or left alone. -/
theorem became_transfer (h : Finds indexes i j source target) {n : Nat}
    (hn : (call indexes (.transfer i j))[n]? = some ix) : Became indexes (.transfer i j) n ix := by
  rw [call_transfer h] at hn
  -- the target was put in place last, so the question is asked of it first: it may be the source
  have hj : j < indexes.length := by
    obtain ⟨hj, -⟩ := List.getElem?_eq_some_iff.1 h.target_found
    rwa [List.length_set] at hj
  have hi : i < indexes.length := (List.getElem?_eq_some_iff.1 h.source_found).1
  rcases Nat.lt_trichotomy n indexes.length with hlt | rfl | hgt
  · rw [List.getElem?_append_left (by rwa [List.length_set, List.length_set])] at hn
    by_cases hnj : j = n
    · subst hnj
      rw [List.getElem?_set_self (by rwa [List.length_set])] at hn
      obtain rfl := Option.some.inj hn
      exact .filled h
    · rw [List.getElem?_set_ne hnj] at hn
      by_cases hni : i = n
      · subst hni
        rw [List.getElem?_set_self hi] at hn
        obtain rfl := Option.some.inj hn
        exact .drained h fun heq => hnj heq.symm
      · rw [List.getElem?_set_ne hni] at hn
        refine .untouched hn (by simp) fun k _ _ hc => ?_
        obtain ⟨-, rfl⟩ := Call.transfer.inj hc
        exact absurd rfl hnj
  · have hlength : ((indexes.set i source.takeAll.1).set j (received source target).1).length =
        indexes.length := by rw [List.length_set, List.length_set]
    rw [← hlength, List.getElem?_concat_length] at hn
    obtain rfl := Option.some.inj hn
    exact .returned h
  · rw [List.getElem?_eq_none] at hn
    · cases hn
    · rw [List.length_append, List.length_set, List.length_set]
      exact hgt

/-- Each call makes of an index one of these. -/
theorem became_of_call (h : (call indexes c)[i]? = some ix) : Became indexes c i ix := by
  cases c with
  | report k key =>
    rw [call, List.getElem?_modify] at h
    obtain ⟨ix, hix, rfl⟩ := Option.map_eq_some_iff.1 h
    by_cases hki : k = i
    · subst hki
      rw [if_pos rfl]
      exact .reported hix key
    · rw [if_neg hki]
      exact .untouched hix (by simp) (by simp)
  | markPatched k owner members =>
    rw [call, List.getElem?_modify] at h
    obtain ⟨ix, hix, rfl⟩ := Option.map_eq_some_iff.1 h
    by_cases hki : k = i
    · subst hki
      rw [if_pos rfl]
      exact .marked hix owner members
    · rw [if_neg hki]
      refine .untouched hix (fun _ _ hc => hki ?_) (by simp)
      exact (Call.markPatched.inj hc).1
  | transfer k j =>
    by_cases hfinds : ∃ source target, Finds indexes k j source target
    · obtain ⟨source, target, hfinds⟩ := hfinds
      exact became_transfer hfinds h
    · have hnone : ∀ source target, ¬Finds indexes k j source target :=
        fun source target hfound => hfinds ⟨source, target, hfound⟩
      rw [call_transfer_of_not hnone] at h
      refine .untouched h (by simp) fun k' source target hc => ?_
      obtain ⟨rfl, rfl⟩ := Call.transfer.inj hc
      exact hnone source target

/-! ## The history -/

/-- What the index of that number records. The differences behind the indexes at the start are
staging indexes. -/
def trackingOf (trackings : List Tracking) (i : Nat) : Tracking :=
  trackings[i]?.getD .staged

/-- The joined keys that the call names as patched in the index. -/
def Call.named (i : Nat) : Call → List String
  | .markPatched k owner members => if k = i then members.map (joinKey owner) else []
  | _ => []

/-- How often the calls name the key, repeats in one call counted. -/
def marks (calls : List Call) (i : Nat) (joined : String) : Nat :=
  (calls.flatMap (Call.named i)).count joined

/-- A transfer has copied a staged time of the key into the index. It does so with an entry that is
new to the index, and the source knows a staged time of everything that was staged in it, or that
had been copied into it. -/
inductive Copied (trackings : List Tracking) : List Call → Nat → String → Prop where
  | staged {calls : List Call} {i j : Nat} {source target : EntryIndex} {key : EntryKey}
      (finds : Finds (run trackings calls) i j source target) (fresh : New source target key)
      (tracking : trackingOf trackings i = .staged) :
      Copied trackings (calls ++ [.transfer i j]) j key.joined
  | relayed {calls : List Call} {i j : Nat} {source target : EntryIndex} {key : EntryKey}
      (finds : Finds (run trackings calls) i j source target) (fresh : New source target key)
      (copied : Copied trackings calls i key.joined) :
      Copied trackings (calls ++ [.transfer i j]) j key.joined
  | later {calls : List Call} {i : Nat} {joined : String} (c : Call)
      (copied : Copied trackings calls i joined) : Copied trackings (calls ++ [c]) i joined

theorem run_append (trackings : List Tracking) (calls : List Call) (c : Call) :
    run trackings (calls ++ [c]) = call (run trackings calls) c := by
  rw [run, List.foldl_append]
  rfl

/-- Patches are counted call by call. -/
theorem marks_append (calls more : List Call) (i : Nat) (joined : String) :
    marks (calls ++ more) i joined = marks calls i joined + marks more i joined := by
  rw [marks, List.flatMap_append, List.count_append]
  rfl

/-- What has been copied stays copied. -/
theorem Copied.append (h : Copied trackings calls i joined) (more : List Call) :
    Copied trackings (calls ++ more) i joined := by
  induction more using List.reverseRecOn with
  | nil => rwa [List.append_nil]
  | append_singleton more c ih =>
    rw [← List.append_assoc]
    exact ih.later c

/-- What the last call copies. -/
theorem copied_append_iff :
    Copied trackings (calls ++ [c]) j joined ↔
      Copied trackings calls j joined ∨ ∃ i source target key, c = .transfer i j ∧
        Finds (run trackings calls) i j source target ∧ New source target key ∧
          key.joined = joined ∧
            (trackingOf trackings i = .staged ∨ Copied trackings calls i joined) := by
  constructor
  · intro h
    generalize hall : calls ++ [c] = all at h
    cases h with
    | staged finds fresh tracking =>
      obtain ⟨rfl, hc⟩ := List.append_inj' hall rfl
      obtain rfl := List.singleton_inj.1 hc
      exact .inr ⟨_, _, _, _, rfl, finds, fresh, rfl, .inl tracking⟩
    | relayed finds fresh copied =>
      obtain ⟨rfl, hc⟩ := List.append_inj' hall rfl
      obtain rfl := List.singleton_inj.1 hc
      exact .inr ⟨_, _, _, _, rfl, finds, fresh, rfl, .inr copied⟩
    | later c' copied =>
      obtain ⟨rfl, -⟩ := List.append_inj' hall rfl
      exact .inl copied
  · rintro (copied | ⟨i, source, target, key, rfl, finds, fresh, rfl, tracking | copied⟩)
    · exact copied.later c
    · exact .staged finds fresh tracking
    · exact .relayed finds fresh copied

/-- A call that does not fill an index copies nothing into it. -/
theorem copied_append_of_unfilled
    (h : ∀ k source target, c = .transfer k i → ¬Finds (run trackings calls) k i source target) :
    Copied trackings (calls ++ [c]) i joined ↔ Copied trackings calls i joined := by
  rw [copied_append_iff]
  refine ⟨fun hor => hor.elim id ?_, .inl⟩
  rintro ⟨k, source, target, -, hc, finds, -⟩
  exact absurd finds (h k source target hc)

/-- A call that marks nothing in an index leaves the counts there. -/
theorem marks_append_of_unmarked (h : ∀ owner members, c ≠ .markPatched i owner members) :
    marks (calls ++ [c]) i joined = marks calls i joined := by
  rw [marks_append]
  cases c with
  | report k key => rfl
  | markPatched k owner members =>
    have hki : k ≠ i := fun hki => h owner members (hki ▸ rfl)
    simp [marks, Call.named, hki]
  | transfer k j => rfl

/-! ## The records of an index -/

/-- The records of the index hold what the calls say. -/
structure Told (trackings : List Tracking) (calls : List Call) (i : Nat) (ix : EntryIndex) :
    Prop where
  recorded : ix.Recorded
  tracking : ix.tracking = trackingOf trackings i
  staged : ix.tracking = .patches →
    ∀ joined, joined ∈ ix.timeline.staged ↔ Copied trackings calls i joined
  patches : ix.tracking = .patches →
    ∀ joined, ix.timeline.patches.count joined = marks calls i joined

/-- Emptying an index takes no record away. -/
theorem Told.takeAll (h : Told trackings calls i ix) : Told trackings calls i ix.takeAll.1 :=
  ⟨h.recorded.takeAll, h.tracking, h.staged, h.patches⟩

/-- A call that neither fills the index nor marks anything in it changes what is recorded of
arrivals at most. -/
theorem Told.unfilled (h : Told trackings calls i ix) {ix' : EntryIndex} (hrecorded : ix'.Recorded)
    (htracking : ix'.tracking = ix.tracking)
    (hstaged : ix.tracking = .patches → ix'.timeline.staged = ix.timeline.staged)
    (hpatches : ix'.timeline.patches = ix.timeline.patches)
    (unmarked : ∀ owner members, c ≠ .markPatched i owner members)
    (unfilled : ∀ k source target, c = .transfer k i →
      ¬Finds (run trackings calls) k i source target) :
    Told trackings (calls ++ [c]) i ix' := by
  refine ⟨hrecorded, htracking.trans h.tracking, fun hp joined => ?_, fun hp joined => ?_⟩
  · rw [copied_append_of_unfilled unfilled, hstaged (htracking.symm.trans hp)]
    exact h.staged (htracking.symm.trans hp) joined
  · rw [marks_append_of_unmarked unmarked, hpatches]
    exact h.patches (htracking.symm.trans hp) joined

/-- Each patch is counted where it is named. -/
theorem Told.marked (h : Told trackings calls i ix) (owner : String) (members : List String) :
    Told trackings (calls ++ [.markPatched i owner members]) i (ix.markPatched owner members) := by
  have htracking := tracking_markPatched ix owner members
  refine ⟨h.recorded.markPatched owner members, htracking.trans h.tracking,
    fun hp joined => ?_, fun hp joined => ?_⟩
  all_goals
    rw [htracking] at hp
    rw [timeline_markPatched, hp]
  · exact (h.staged hp joined).trans (copied_append_of_unfilled (by simp)).symm
  · have hone : marks [.markPatched i owner members] i joined =
        (members.map (joinKey owner)).count joined := by
      simp [marks, Call.named]
    rw [marks_append, hone, ← h.patches hp joined]
    exact List.count_append

/-- What the source knows of an entry it hands on. -/
theorem Told.isStaged_iff (h : Told trackings calls i source)
    (hjoined : joined ∈ source.existence) :
    source.timeline.isStaged joined = true ↔
      trackingOf trackings i = .staged ∨ Copied trackings calls i joined := by
  rw [Timeline.isStaged, List.contains_iff_mem, ← h.tracking]
  have harrived := h.recorded joined hjoined
  unfold Timeline.arrivals at harrived
  rcases htracking : source.tracking with - | -
  · rw [show source.timeline.tracking = .staged from htracking] at harrived
    exact ⟨fun _ => .inl rfl, fun _ => harrived⟩
  · rw [h.staged htracking]
    exact ⟨.inr, fun hor => hor.resolve_left nofun⟩

/-- The target holds what the calls say also where it is the emptied source. -/
theorem Finds.told (finds : Finds (run trackings calls) i j source target)
    (h : ∀ k ix, (run trackings calls)[k]? = some ix → Told trackings calls k ix) :
    Told trackings calls j target := by
  rcases finds.target_cases with ⟨rfl, rfl⟩ | ⟨-, ht⟩
  · exact (h i source finds.source_found).takeAll
  · exact h j target ht

theorem Finds.atRest (finds : Finds (run trackings calls) i j source target) :
    source.AtRest ∧ target.AtRest := by
  have hrest := atRest_run trackings calls
  have hs := hrest source (List.mem_of_getElem? finds.source_found)
  exact ⟨hs, forall_mem_set hrest hs.takeAll i target (List.mem_of_getElem? finds.target_found)⟩

/-- What fills an index brings its staged time with it, if the source knows one. -/
theorem Told.filled (h : Told trackings calls j target) (hs : Told trackings calls i source)
    (finds : Finds (run trackings calls) i j source target) :
    Told trackings (calls ++ [.transfer i j]) j (received source target).1 := by
  obtain ⟨hsource, htarget⟩ := finds.atRest
  have hdated := htarget.dated_receiveAll source.timeline source.pending
  refine ⟨hdated.recorded h.recorded, hdated.tracking.trans h.tracking, fun hp joined => ?_,
    fun hp joined => ?_⟩
  · have htracking := hdated.tracking.symm.trans hp
    have hjoined {key : EntryKey} (hnew : New source target key) :
        key.joined ∈ source.existence :=
      hsource.mem_existence.2 ⟨key, hsource.lists_iff.1 hnew.1, rfl⟩
    show joined ∈ (receiveAll source.timeline target source.pending).1.timeline.staged ↔ _
    rw [hdated.staged htracking, h.staged htracking, hsource.mem_missing_pending, copied_append_iff]
    refine or_congr_right ⟨?_, ?_⟩
    -- what the source knows is itself what the calls say, by the same invariant
    · rintro ⟨⟨key, hnew, rfl⟩, hstaged⟩
      exact ⟨i, source, target, key, rfl, finds, hnew, rfl,
        (hs.isStaged_iff (hjoined hnew)).1 hstaged⟩
    · rintro ⟨k, source', target', key, hc, finds', hnew, rfl, hknown⟩
      obtain ⟨rfl, -⟩ := Call.transfer.inj hc
      obtain rfl := Option.some.inj (finds.source_found.symm.trans finds'.source_found)
      obtain rfl := Option.some.inj (finds.target_found.symm.trans finds'.target_found)
      exact ⟨⟨key, hnew, rfl⟩, (hs.isStaged_iff (hjoined hnew)).2 hknown⟩
  · have hsame : marks (calls ++ [.transfer i j]) j joined = marks calls j joined :=
      marks_append_of_unmarked (by simp)
    show (receiveAll source.timeline target source.pending).1.timeline.patches.count joined = _
    rw [hdated.patches, hsame]
    exact h.patches (hdated.tracking.symm.trans hp) joined

/-- No index is ever dropped. -/
theorem length_le_call (indexes : List EntryIndex) (c : Call) :
    indexes.length ≤ (call indexes c).length := by
  cases c with
  | report k key => exact Nat.le_of_eq (List.length_modify ..).symm
  | markPatched k owner members => exact Nat.le_of_eq (List.length_modify ..).symm
  | transfer k j =>
    by_cases hfinds : ∃ source target, Finds indexes k j source target
    · obtain ⟨source, target, hfinds⟩ := hfinds
      rw [call_transfer hfinds, List.length_append, List.length_set, List.length_set]
      exact Nat.le_add_right _ _
    · have hsame := call_transfer_of_not fun source target hfound =>
        hfinds ⟨source, target, hfound⟩
      exact Nat.le_of_eq (congrArg List.length hsame.symm)

theorem length_le_run (trackings : List Tracking) (calls : List Call) :
    trackings.length ≤ (run trackings calls).length := by
  induction calls using List.reverseRecOn with
  | nil => exact Nat.le_of_eq (List.length_map EntryIndex.empty).symm
  | append_singleton calls c ih =>
    rw [run_append]
    exact Nat.le_trans ih (length_le_call _ c)

/-- A difference is behind all the indexes that there were at the start. -/
theorem told_received (trackings : List Tracking) (calls : List Call) (c : Call)
    (source target : EntryIndex) :
    Told trackings (calls ++ [c]) (run trackings calls).length (received source target).2 := by
  have hstaging : (received source target).2.Staging := staging_receiveAll ..
  have hbeyond : trackingOf trackings (run trackings calls).length = .staged := by
    rw [trackingOf, List.getElem?_eq_none (length_le_run trackings calls), Option.getD_none]
  refine ⟨hstaging.recorded, hstaging.tracking.trans hbeyond.symm, ?_, ?_⟩
  all_goals
    intro hp
    rw [hstaging.tracking] at hp
    cases hp

/-- Before the first call nothing has been copied. -/
theorem not_copied_nil : ¬Copied trackings [] i joined := by
  intro h
  generalize hall : ([] : List Call) = all at h
  cases h <;> exact absurd hall.symm (List.append_ne_nil_of_right_ne_nil _ (List.cons_ne_nil _ _))

/-- **The records hold what the calls say**, whichever came first. -/
theorem told_run (trackings : List Tracking) (calls : List Call) :
    ∀ i ix, (run trackings calls)[i]? = some ix → Told trackings calls i ix := by
  induction calls using List.reverseRecOn with
  | nil =>
    intro i ix h
    rw [run, List.foldl_nil, List.getElem?_map] at h
    obtain ⟨tracking, htracking, rfl⟩ := Option.map_eq_some_iff.1 h
    refine ⟨recorded_empty tracking, ?_, fun _ joined => ?_, fun _ joined => rfl⟩
    · rw [trackingOf, htracking]
      rfl
    · exact iff_of_false List.not_mem_nil not_copied_nil
  | append_singleton calls c ih =>
    intro i ix h
    rw [run_append] at h
    cases became_of_call h with
    | reported found key =>
      exact (ih i _ found).unfilled ((ih i _ found).recorded.report key) (tracking_report _ key)
        (fun hp => staged_report hp key) (patches_report _ key) (by simp) (by simp)
    | marked found owner members => exact (ih i _ found).marked owner members
    | drained finds others =>
      refine (ih i _ finds.source_found).takeAll.unfilled ?_ rfl (fun _ => rfl) rfl
        (by simp) fun k _ _ hc => ?_
      · exact (ih i _ finds.source_found).recorded.takeAll
      · exact absurd (Call.transfer.inj hc).2.symm others
    | filled finds => exact (finds.told ih).filled (ih _ _ finds.source_found) finds
    | returned => exact told_received ..
    | untouched found unmarked unfilled =>
      exact (ih i _ found).unfilled (ih i _ found).recorded rfl (fun _ => rfl) rfl unmarked
        unfilled

/-! ## What is shown -/

/-- What an index that records patches shows of a key after the calls. -/
inductive Shown (trackings : List Tracking) (calls : List Call) (i : Nat) (joined : String) :
    EntryTiming → Prop where
  | transferring (uncopied : ¬Copied trackings calls i joined) :
      Shown trackings calls i joined .transferring
  | observed (copied : Copied trackings calls i joined) (unmarked : marks calls i joined = 0) :
      Shown trackings calls i joined (.observed 0 0)
  | patched (copied : Copied trackings calls i joined) (marked : 0 < marks calls i joined) :
      Shown trackings calls i joined (.patched 0 (List.replicate (marks calls i joined) 0))

variable {t t' : EntryTiming} {e : EntrySnapshot}

/-- What is shown is one thing. -/
theorem Shown.unique (h : Shown trackings calls i joined t)
    (h' : Shown trackings calls i joined t') : t = t' := by
  cases h with
  | transferring uncopied => cases h' with
    | transferring => rfl
    | observed copied => exact absurd copied uncopied
    | patched copied => exact absurd copied uncopied
  | observed copied unmarked => cases h' with
    | transferring uncopied => exact absurd copied uncopied
    | observed => rfl
    | patched _ marked => exact absurd unmarked (Nat.ne_of_gt marked)
  | patched copied marked => cases h' with
    | transferring uncopied => exact absurd copied uncopied
    | observed _ unmarked => exact absurd unmarked (Nat.ne_of_gt marked)
    | patched => rfl

/-- The records of a key that is there are read as the history is. -/
theorem Told.shown (h : Told trackings calls i ix) (hp : ix.tracking = .patches)
    (hjoined : joined ∈ ix.existence) :
    ∃ t, (ix.timeline.status? joined).map EntryStatus.timing = some t ∧
      Shown trackings calls i joined t := by
  have hobserved : ix.timeline.observed.contains joined = true := by
    have harrived := h.recorded joined hjoined
    rw [Timeline.arrivals, show ix.timeline.tracking = .patches from hp] at harrived
    exact List.contains_iff_mem.2 harrived
  have hcount := h.patches hp joined
  rw [Timeline.status?, show ix.timeline.tracking = .patches from hp]
  dsimp only
  rw [hobserved, Bool.and_true, hcount]
  by_cases hcopied : Copied trackings calls i joined
  · rw [List.contains_iff_mem.2 ((h.staged hp joined).2 hcopied)]
    by_cases hmarks : marks calls i joined = 0
    · simp only [Bool.not_true, Bool.false_eq_true, if_false, hmarks, if_true]
      exact ⟨_, rfl, .observed hcopied hmarks⟩
    · simp only [Bool.not_true, Bool.false_eq_true, if_false, hmarks]
      exact ⟨_, rfl, .patched hcopied (Nat.pos_of_ne_zero hmarks)⟩
  · have hstaged : ix.timeline.staged.contains joined = false := by
      rw [Bool.eq_false_iff, Ne, List.contains_iff_mem, h.staged hp joined]
      exact hcopied
    rw [hstaged]
    exact ⟨_, rfl, .transferring hcopied⟩

/-- How far a timing is: each patch is a stage more. -/
def stage : EntryTiming → Nat
  | .transferring => 0
  | .observed _ _ => 1
  | .patched _ times => 1 + times.length

/-- More calls take an entry no stage back. -/
theorem Shown.stage_le {more : List Call} (h : Shown trackings calls i joined t)
    (h' : Shown trackings (calls ++ more) i joined t') : stage t ≤ stage t' := by
  have hmarks := marks_append calls more i joined
  cases h with
  | transferring => exact Nat.zero_le _
  | observed copied =>
    cases h' with
    | transferring uncopied => exact absurd (copied.append more) uncopied
    | observed => exact Nat.le_refl _
    | patched => exact Nat.le_add_right _ _
  | patched copied marked =>
    cases h' with
    | transferring uncopied => exact absurd (copied.append more) uncopied
    | observed _ unmarked => omega
    | patched =>
      simp only [stage, List.length_replicate]
      omega

/-- Nothing enters the index but what staging indexes hand on. -/
def FedByStaging (trackings : List Tracking) (calls : List Call) (i : Nat) : Prop :=
  ∀ c ∈ calls, (∀ key, c ≠ .report i key) ∧
    ∀ k, c = .transfer k i → trackingOf trackings k = .staged

theorem FedByStaging.of_append (h : FedByStaging trackings (calls ++ [c]) i) :
    FedByStaging trackings calls i :=
  fun c' hc' => h c' (List.mem_append_left _ hc')

/-- Emptying the source adds nothing to the target. -/
theorem Finds.existed (finds : Finds indexes i j source target) :
    ∃ before, indexes[j]? = some before ∧
      ∀ joined ∈ target.existence, joined ∈ before.existence := by
  rcases finds.target_cases with ⟨rfl, rfl⟩ | ⟨-, ht⟩
  · exact ⟨source, finds.source_found, fun joined hjoined => List.mem_of_mem_filter hjoined⟩
  · exact ⟨target, ht, fun joined => id⟩

/-- What is new comes behind what was there. -/
theorem existence_received (hs : source.AtRest) (ht : target.AtRest) :
    (received source target).1.existence = target.existence ++ target.missing source.pending :=
  (merged_receiveAll ht source.timeline (hs.perm.nodup_iff.2 hs.nodup)).union

/-- What is in such an index has been copied into it. -/
theorem FedByStaging.copied (hfed : FedByStaging trackings calls i)
    (hi : trackingOf trackings i = .patches) (h : (run trackings calls)[i]? = some ix)
    (hjoined : joined ∈ ix.existence) : Copied trackings calls i joined := by
  induction calls using List.reverseRecOn generalizing ix joined with
  | nil =>
    rw [run, List.foldl_nil, List.getElem?_map] at h
    obtain ⟨tracking, -, rfl⟩ := Option.map_eq_some_iff.1 h
    cases hjoined
  | append_singleton calls c ih =>
    have hbefore := hfed.of_append
    obtain ⟨hunreported, hsources⟩ := hfed c (List.mem_append_right _ List.mem_cons_self)
    rw [run_append] at h
    cases became_of_call h with
    | reported found key => exact absurd rfl (hunreported key)
    | marked found owner members => exact (ih hbefore found hjoined).later _
    | drained finds others =>
      exact (ih hbefore finds.source_found (List.mem_of_mem_filter hjoined)).later _
    | filled finds =>
      obtain ⟨hsource, htarget⟩ := finds.atRest
      -- what was there before the transfer had been copied by then, what it adds is staged
      rw [existence_received hsource htarget, List.mem_append] at hjoined
      rcases hjoined with hold | hnew
      · obtain ⟨before, found, hexisted⟩ := finds.existed
        exact (ih hbefore found (hexisted joined hold)).later _
      · obtain ⟨key, fresh, rfl⟩ := hsource.mem_missing_pending.1 hnew
        exact .staged finds fresh (hsources _ rfl)
    | returned finds =>
      rw [trackingOf, List.getElem?_eq_none (length_le_run trackings calls)] at hi
      cases hi
    | untouched found => exact (ih hbefore found hjoined).later _

/-- What an index shows of an entry, read off the calls. -/
theorem mem_stats_run (h : (run trackings calls)[i]? = some ix)
    (hi : trackingOf trackings i = .patches) :
    e ∈ ix.stats.entries ↔
      e.key ∈ ix.existence ∧ ∃ t, e.timing = some t ∧ Shown trackings calls i e.key t := by
  have htold := told_run trackings calls i ix h
  rw [mem_stats]
  refine and_congr_right fun hkey => ?_
  obtain ⟨t, ht, hshown⟩ := htold.shown (htold.tracking.trans hi) hkey
  rw [ht]
  constructor
  · intro htiming
    exact ⟨t, htiming, hshown⟩
  · rintro ⟨t', htiming, hshown'⟩
    rw [htiming, hshown.unique hshown']

/-- **What is shown of an entry is exact, and only moves forward**: after any calls on any number of
indexes. A staging index shows no timing. An index that records patches shows of each key in it what
the calls say (`Shown`), and after more calls no less of it. If only transfers from staging indexes
have filled it, it shows no entry as transferring. -/
theorem lifecycle_exact (trackings : List Tracking) (calls : List Call) {i : Nat} {ix : EntryIndex}
    (h : (run trackings calls)[i]? = some ix) :
    (trackingOf trackings i = .staged → ∀ e ∈ ix.stats.entries, e.timing = none) ∧
      (trackingOf trackings i = .patches →
        (∀ e, e ∈ ix.stats.entries ↔
          e.key ∈ ix.existence ∧ ∃ t, e.timing = some t ∧ Shown trackings calls i e.key t) ∧
        (∀ more ix', (run trackings (calls ++ more))[i]? = some ix' →
          ∀ e ∈ ix.stats.entries, ∀ e' ∈ ix'.stats.entries, e'.key = e.key →
            ∃ t t', e.timing = some t ∧ e'.timing = some t' ∧ stage t ≤ stage t') ∧
        (FedByStaging trackings calls i →
          ∀ e ∈ ix.stats.entries, e.timing ≠ some .transferring)) := by
  refine ⟨fun hi e he => ?_, fun hi => ⟨fun e => mem_stats_run h hi, ?_, ?_⟩⟩
  · have htracking := (told_run trackings calls i ix h).tracking.trans hi
    rw [(mem_stats.1 he).2, Timeline.status?, show ix.timeline.tracking = .staged from htracking]
    rfl
  · intro more ix' h' e he e' he' hkey
    obtain ⟨-, t, ht, hshown⟩ := (mem_stats_run h hi).1 he
    obtain ⟨-, t', ht', hmore⟩ := (mem_stats_run h' hi).1 he'
    rw [hkey] at hmore
    exact ⟨t, t', ht, ht', hshown.stage_le hmore⟩
  · intro hfed e he htransferring
    obtain ⟨hjoined, t, ht, hshown⟩ := (mem_stats_run h hi).1 he
    obtain rfl := Option.some.inj (ht.symm.trans htransferring)
    cases hshown with
    | transferring uncopied => exact uncopied (hfed.copied hi h hjoined)

/-! ## Marked before it comes, and drained again -/

namespace Drained

/-- A staging index and two that record patches. -/
def records : List Tracking :=
  [.staged, .patches, .patches]

/-- The member `m` is marked twice in the first of the two before it gets there. -/
def early : List Call :=
  [.markPatched 1 "a" ["m", "m"], .report 0 ⟨"a", "m"⟩]

/-- Then that index is drained into the second, where `n` was reported directly, and `m` is reported
and transferred once more. -/
def history : List Call :=
  early ++ [.transfer 0 1] ++
    [.report 2 ⟨"a", "n"⟩, .transfer 1 2, .report 0 ⟨"a", "m"⟩, .transfer 0 1]

def before (i : Nat) : EntryIndex :=
  (run records early)[i]?.getD .staging

def after (i : Nat) : EntryIndex :=
  (run records history)[i]?.getD .staging

/-- The first index shows `m` with both patches, and the second `n` as transferring. -/
theorem lifecycle_exact_drained :
    (run records history)[1]? = some (after 1) ∧
      (⟨"a#m", some (.patched 0 [0, 0])⟩ : EntrySnapshot) ∈ (after 1).stats.entries ∧
      FedByStaging records history 1 ∧
      (∀ e ∈ (after 1).stats.entries, e.timing ≠ some .transferring) ∧
      (run records history)[2]? = some (after 2) ∧
      Shown records history 2 "a#n" .transferring ∧
      Shown records history 2 "a#m" (.observed 0 0) := by
  have hfirst : (run records history)[1]? = some (after 1) := by decide +kernel
  have hsecond : (run records history)[2]? = some (after 2) := by decide +kernel
  have hfed : FedByStaging records history 1 := by
    simp [FedByStaging, history, early, records, trackingOf]
  have hcopied : Copied records (early ++ [.transfer 0 1]) 1 "a#m" := by
    have hfinds : Finds (run records early) 0 1 (before 0) (before 1) :=
      ⟨by decide +kernel, by decide +kernel⟩
    have hnew : New (before 0) (before 1) ⟨"a", "m"⟩ := by decide +kernel
    exact .staged hfinds hnew rfl
  have hmarks : marks history 1 "a#m" = 2 := by decide +kernel
  obtain ⟨hentries, -, hnone⟩ := (lifecycle_exact records history hfirst).2 rfl
  obtain ⟨hentries', -⟩ := (lifecycle_exact records history hsecond).2 rfl
  refine ⟨hfirst, (hentries _).2 ⟨by decide +kernel, _, rfl, ?_⟩, hfed, hnone hfed, hsecond, ?_, ?_⟩
  · have hshown := Shown.patched (hcopied.append _) (hmarks ▸ Nat.zero_lt_two)
    rwa [← history, hmarks] at hshown
  · have he : (⟨"a#n", some .transferring⟩ : EntrySnapshot) ∈ (after 2).stats.entries :=
      mem_stats.2 ⟨by decide +kernel, by decide +kernel⟩
    obtain ⟨-, t, ht, hshown⟩ := (hentries' _).1 he
    exact Option.some.inj ht ▸ hshown
  · have he : (⟨"a#m", some (.observed 0 0)⟩ : EntrySnapshot) ∈ (after 2).stats.entries :=
      mem_stats.2 ⟨by decide +kernel, by decide +kernel⟩
    obtain ⟨-, t, ht, hshown⟩ := (hentries' _).1 he
    exact Option.some.inj ht ▸ hshown

end Drained

end Indexes

end CallPatch
