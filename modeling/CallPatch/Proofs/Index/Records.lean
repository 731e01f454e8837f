import CallPatch.Proofs.Index.Difference
import CallPatch.Proofs.Index.Patches
/-!
# Entry indexes — the records of a key

An index that records patches keeps three records of a joined key, and each of
them is written by another kind of call: that the key arrived by a report, its
staged time by a transfer, its patches by being marked. A staging index records
the staged time instead of the arrival, and no patches.

Whatever is in an index has its arrival recorded (`Recorded`), which each call
keeps. Entries that are received bring their staged times with them, where these
are known, and change no other record (`AtRest.dated_receiveAll`).
-/

namespace CallPatch

namespace Timeline

variable {t : Timeline} {key joined : String}

/-- The keys whose arrival is recorded. -/
def arrivals (t : Timeline) : List String :=
  match t.tracking with
  | .staged => t.staged
  | .patches => t.observed

/-- Recording an arrival adds its key and forgets none. -/
theorem mem_arrivals_recordArrival :
    joined ∈ (t.recordArrival key).arrivals ↔ joined = key ∨ joined ∈ t.arrivals := by
  obtain ⟨tracking, staged, observed, patches⟩ := t
  cases tracking <;> exact List.mem_insert_iff

/-- A staged time forgets no arrival, and for a staging index it is one. -/
theorem mem_arrivals_setStaged (h : joined ∈ t.arrivals) : joined ∈ (t.setStaged key).arrivals := by
  obtain ⟨tracking, staged, observed, patches⟩ := t
  cases tracking with
  | staged => exact List.mem_insert_of_mem h
  | patches => exact h

/-- Where patches are recorded, an arrival is not a staged time. -/
theorem staged_recordArrival (h : t.tracking = .patches) (key : String) :
    (t.recordArrival key).staged = t.staged := by
  rw [recordArrival, h]

/-- An arrival is not a patch either. -/
theorem patches_recordArrival (t : Timeline) (key : String) :
    (t.recordArrival key).patches = t.patches := by
  unfold recordArrival
  split <;> rfl

/-- A staging index records no patches. -/
theorem foldl_markPatched_staged (h : t.tracking = .staged) (owner : String)
    (members : List String) :
    members.foldl (fun t member => t.markPatched (joinKey owner member)) t = t := by
  induction members with
  | nil => rfl
  | cons member members ih =>
    have hone : t.markPatched (joinKey owner member) = t := by rw [markPatched, h]
    rw [List.foldl_cons, hone, ih]

end Timeline

namespace EntryIndex

variable {ix target difference : EntryIndex} {history : Timeline} {key : EntryKey} {joined : String}
  {keys : List EntryKey}

/-! ## Records -/

/-- Placing a member records nothing. -/
theorem timeline_place (ix : EntryIndex) (key : EntryKey) :
    (ix.place key).1.timeline = ix.timeline := by
  unfold place
  split
  · rfl
  · split <;> rfl

/-- Only the first report of a key is recorded. -/
theorem timeline_report (ix : EntryIndex) (key : EntryKey) :
    (ix.report key).1.timeline =
      if key.joined ∈ ix.existence then ix.timeline else ix.timeline.recordArrival key.joined := by
  split
  · next h =>
    rw [report_of_mem h]
    rfl
  · next h =>
    rw [report_of_notMem h, timeline_place]
    rfl

/-- After a report its key is there, and so is everything that was. -/
theorem mem_existence_report :
    joined ∈ (ix.report key).1.existence ↔ joined = key.joined ∨ joined ∈ ix.existence := by
  by_cases h : key.joined ∈ ix.existence
  · rw [report_of_mem h]
    exact ⟨.inr, fun hor => hor.elim (fun heq => heq ▸ h) id⟩
  · rw [report_of_notMem h, existence_place]
    show joined ∈ ix.existence ++ [key.joined] ↔ _
    rw [List.mem_append, List.mem_singleton, or_comm]

/-- A report does not change which records an index keeps. -/
theorem tracking_report (ix : EntryIndex) (key : EntryKey) :
    (ix.report key).1.tracking = ix.tracking := by
  rw [tracking, timeline_report]
  split
  · rfl
  · exact Timeline.tracking_recordArrival ..

/-- A report records no patch. -/
theorem patches_report (ix : EntryIndex) (key : EntryKey) :
    (ix.report key).1.timeline.patches = ix.timeline.patches := by
  rw [timeline_report]
  split
  · rfl
  · exact Timeline.patches_recordArrival ..

/-- And no staged time where patches are recorded. -/
theorem staged_report (h : ix.tracking = .patches) (key : EntryKey) :
    (ix.report key).1.timeline.staged = ix.timeline.staged := by
  rw [timeline_report]
  split
  · rfl
  · exact Timeline.staged_recordArrival h _

/-- The arrival of everything that is there is recorded. -/
def Recorded (ix : EntryIndex) : Prop :=
  ∀ joined ∈ ix.existence, joined ∈ ix.timeline.arrivals

theorem recorded_empty (tracking : Tracking) : (empty tracking).Recorded :=
  nofun

/-- A report that is not the first finds its arrival recorded already. -/
theorem Recorded.report (h : ix.Recorded) (key : EntryKey) : (ix.report key).1.Recorded := by
  intro joined hjoined
  rw [mem_existence_report] at hjoined
  rw [timeline_report]
  split
  · next hkey => exact h joined (hjoined.elim (fun heq => heq ▸ hkey) id)
  · exact Timeline.mem_arrivals_recordArrival.2 (hjoined.imp_right (h joined))

theorem Recorded.setStaged (h : ix.Recorded) (key : String) : (ix.setStaged key).Recorded :=
  fun joined hjoined => Timeline.mem_arrivals_setStaged (h joined hjoined)

/-- Marking adds one patch for each member, in order, to an index that records patches. -/
theorem timeline_markPatched (ix : EntryIndex) (owner : String) (members : List String) :
    (ix.markPatched owner members).timeline =
      match ix.tracking with
      | .staged => ix.timeline
      | .patches =>
        { ix.timeline with
          patches := ix.timeline.patches ++ members.map (joinKey owner) } := by
  split
  · next h => exact Timeline.foldl_markPatched_staged h owner members
  · next h => exact Timeline.foldl_markPatched h owner members

theorem tracking_markPatched (ix : EntryIndex) (owner : String) (members : List String) :
    (ix.markPatched owner members).tracking = ix.tracking := by
  rw [tracking, timeline_markPatched]
  split <;> rfl

/-- Marking brings nothing into an index, and leaves the arrivals. -/
theorem Recorded.markPatched (h : ix.Recorded) (owner : String) (members : List String) :
    (ix.markPatched owner members).Recorded := by
  intro joined hjoined
  have hbefore := h joined hjoined
  rw [timeline_markPatched]
  split
  · exact hbefore
  · exact hbefore

/-- What is taken out leaves its records behind. -/
theorem Recorded.takeAll (h : ix.Recorded) : ix.takeAll.1.Recorded :=
  fun joined hjoined => h joined (List.mem_of_mem_filter hjoined)

/-! ## Records of what is received -/

/-- What receiving an entry does to the target. -/
theorem AtRest.receive_fst (h : target.AtRest) (history : Timeline) (difference : EntryIndex)
    (key : EntryKey) :
    (EntryIndex.receive history (target, difference) key).1 =
      if key.joined ∉ target.existence ∧ history.isStaged key.joined then
        (target.report key).1.setStaged key.joined
      else (target.report key).1 := by
  by_cases hkey : key.joined ∈ target.existence
  · rw [receive_of_mem hkey, if_neg fun hnew => hnew.1 hkey, report_of_mem hkey]
  · rw [receive_eq, if_pos (h.report_of_notMem hkey).2.2]
    by_cases hstaged : history.isStaged key.joined = true
    · rw [if_pos hstaged, if_pos ⟨hkey, hstaged⟩]
    · rw [if_neg hstaged, if_neg fun hnew => hstaged hnew.2]

/-- What has become of the records of an index that some entries have been handed to. -/
structure Dated (history : Timeline) (before : EntryIndex) (keys : List EntryKey)
    (after : EntryIndex) : Prop where
  recorded : before.Recorded → after.Recorded
  tracking : after.tracking = before.tracking
  patches : after.timeline.patches = before.timeline.patches
  /-- A staged time comes with an entry that is new here. -/
  staged : before.tracking = .patches → ∀ joined, joined ∈ after.timeline.staged ↔
    joined ∈ before.timeline.staged ∨
      joined ∈ before.missing keys ∧ history.isStaged joined = true

/-- An entry that is new here brings its staged time with it, if the source knows one. -/
theorem AtRest.dated_receive (h : target.AtRest) (history : Timeline) (difference : EntryIndex)
    (key : EntryKey) :
    Dated history target [key] (EntryIndex.receive history (target, difference) key).1 := by
  rw [h.receive_fst]
  have hmissing (joined : String) : joined ∈ target.missing [key] ↔
      joined = key.joined ∧ joined ∉ target.existence := by
    rw [mem_missing, List.map_singleton, List.mem_singleton]
  split
  -- the entry is new and has a staged time: the one record that it adds
  · next hnew =>
    refine ⟨fun hrecorded => (hrecorded.report key).setStaged _, tracking_report target key,
      patches_report target key, fun htracking joined => ?_⟩
    show joined ∈ (target.report key).1.timeline.staged.insert key.joined ↔ _
    rw [List.mem_insert_iff, staged_report htracking, hmissing]
    constructor
    · rintro (rfl | hold)
      · exact .inr ⟨⟨rfl, hnew.1⟩, hnew.2⟩
      · exact .inl hold
    · rintro (hold | ⟨⟨rfl, -⟩, -⟩)
      · exact .inr hold
      · exact .inl rfl
  -- it is here already, or was never staged
  · next hnot =>
    refine ⟨fun hrecorded => hrecorded.report key, tracking_report target key,
      patches_report target key, fun htracking joined => ?_⟩
    rw [staged_report htracking, hmissing]
    refine ⟨.inl, fun hor => hor.elim id ?_⟩
    rintro ⟨⟨rfl, hthere⟩, hstaged⟩
    exact absurd ⟨hthere, hstaged⟩ hnot

/-- One entry, then the others. -/
theorem Dated.trans {before between after : EntryIndex} (h : Dated history before [key] between)
    (h' : Dated history between keys after)
    (hbetween : ∀ joined, joined ∈ between.existence ↔
      joined = key.joined ∨ joined ∈ before.existence) :
    Dated history before (key :: keys) after := by
  refine ⟨h'.recorded ∘ h.recorded, h'.tracking.trans h.tracking, h'.patches.trans h.patches,
    fun htracking joined => ?_⟩
  rw [h'.staged (h.tracking.trans htracking), h.staged htracking]
  simp only [mem_missing, List.map_cons, List.map_nil, List.mem_cons, List.not_mem_nil, or_false,
    hbetween]
  by_cases hkey : joined = key.joined
  · simp [hkey]
  · simp [hkey]

/-- **What receiving entries does to the records.** The induction is on the entries, over any target
and difference at rest, since each entry finds the ones before it already there. -/
theorem AtRest.dated_receiveAll (h : target.AtRest) (history : Timeline) (keys : List EntryKey) :
    Dated history target keys (receiveAll history target keys).1 := by
  suffices hall : ∀ (target difference : EntryIndex), target.AtRest → difference.AtRest →
      Dated history target keys (keys.foldl (EntryIndex.receive history) (target, difference)).1
    from hall target .staging h (atRest_empty .staged)
  clear h
  induction keys with
  | nil =>
    intro target difference _ _
    exact ⟨id, rfl, rfl, fun _ joined => by simp [missing]⟩
  | cons key keys ih =>
    intro target difference h hdifference
    obtain ⟨htarget', hdifference'⟩ := h.receive hdifference history key
    refine (h.dated_receive history difference key).trans (ih _ _ htarget' hdifference')
      fun joined => ?_
    rw [h.receive_fst]
    split <;> exact mem_existence_report

/-- A staging index, with everything recorded that is in it. -/
structure Staging (ix : EntryIndex) : Prop where
  recorded : ix.Recorded
  tracking : ix.tracking = .staged

theorem Staging.report (h : ix.Staging) (key : EntryKey) : (ix.report key).1.Staging :=
  ⟨h.recorded.report key, (tracking_report ix key).trans h.tracking⟩

/-- A difference is a staging index, and records what it is given. -/
theorem Staging.receive {state : EntryIndex × EntryIndex} (h : state.2.Staging)
    (history : Timeline) (key : EntryKey) : (EntryIndex.receive history state key).2.Staging := by
  obtain ⟨target, difference⟩ := state
  have hreported := h.report key
  rw [receive_eq]
  split
  · split
    · exact ⟨hreported.recorded.setStaged _, hreported.tracking⟩
    · exact hreported
  · exact h

/-- So is every difference. -/
theorem staging_receiveAll (history : Timeline) (target : EntryIndex) (keys : List EntryKey) :
    (receiveAll history target keys).2.Staging := by
  suffices hall : ∀ state : EntryIndex × EntryIndex, state.2.Staging →
      (keys.foldl (EntryIndex.receive history) state).2.Staging from
    hall (target, .staging) ⟨recorded_empty .staged, rfl⟩
  induction keys with
  | nil => exact fun state h => h
  | cons key keys ih => exact fun state h => ih _ (h.receive history key)

/-- The keys that a transfer adds are those of the entries that are new. -/
theorem AtRest.mem_missing_pending {source : EntryIndex} (hs : source.AtRest) :
    joined ∈ target.missing source.pending ↔
      ∃ key, New source target key ∧ key.joined = joined := by
  rw [mem_missing, List.mem_map]
  constructor
  · rintro ⟨⟨key, hkey, rfl⟩, hnew⟩
    exact ⟨key, ⟨hs.lists_iff.2 hkey, Bool.eq_false_iff.2 fun hold => hnew (contains_iff.1 hold)⟩,
      rfl⟩
  · rintro ⟨key, ⟨hlists, hnew⟩, rfl⟩
    exact ⟨⟨key, hs.lists_iff.1 hlists, rfl⟩, fun hold =>
      absurd (contains_iff.2 hold) (Bool.eq_false_iff.1 hnew)⟩

/-! ## What is shown -/

/-- An entry is shown just when it is there, with the status of its records. -/
theorem mem_stats {e : EntrySnapshot} :
    e ∈ ix.stats.entries ↔
      e.key ∈ ix.existence ∧ e.timing = (ix.timeline.status? e.key).map EntryStatus.timing := by
  have hsorted (joined : String) : joined ∈ Text.sort ix.existence ↔ joined ∈ ix.existence :=
    (List.mergeSort_perm _ _).mem_iff
  show e ∈ (Text.sort ix.existence).map _ ↔ _
  rw [List.mem_map]
  constructor
  · rintro ⟨joined, hjoined, rfl⟩
    exact ⟨(hsorted joined).1 hjoined, rfl⟩
  · rintro ⟨hkey, htiming⟩
    exact ⟨e.key, (hsorted _).2 hkey, by rw [← htiming]⟩

end EntryIndex

end CallPatch
