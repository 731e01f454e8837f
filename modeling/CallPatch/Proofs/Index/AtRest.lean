import CallPatch.Proofs.Index.Alone
import CallPatch.Proofs.Index.Carriers
/-!
# Entry indexes — at rest

An index is at rest if threads can have left it so, all of them being out of
their calls. An index that is changed by one whole call at a time is at rest
between the calls, since a call that nothing comes between is one of the ways
in which threads interleave. What is known of every interleaving is known of it
then: its pending entries are those of its existence table (`AtRest.perm`), and
a report of a new key succeeds (`AtRest.report_of_notMem`).
-/

namespace CallPatch

namespace System

variable {s t : System} {trace : List Event}

/-- A run goes on from what is reached. -/
theorem Reachable.run (h : s.Reachable) (hrun : Runs Step s trace t) : t.Reachable :=
  hrun.invariant (fun hstep hs => hs.step hstep) h

/-- A reporter that is left alone is one that the other threads do not come between. -/
theorem runs_reporter {ix ix' : EntryIndex} {r r' : Reporter}
    (h : Runs (Alone Reporter.Step) (ix, r) trace (ix', r')) (reporters : List Reporter)
    (movers : List Mover) :
    Runs Step ⟨ix, r :: reporters, movers⟩ trace ⟨ix', r' :: reporters, movers⟩ := by
  let f : EntryIndex × Reporter → System := fun p => ⟨p.1, p.2 :: reporters, movers⟩
  refine h.map f ?_
  rintro _ _ _ ⟨access⟩
  exact .report [] reporters access

/-- A transfer by itself may have anybody beside it, as long as they rest. -/
theorem runs_mover {ix ix' : EntryIndex} {m m' : Mover}
    (h : Runs (Alone Mover.Step) (ix, m) trace (ix', m')) (reporters : List Reporter)
    (movers : List Mover) :
    Runs Step ⟨ix, reporters, m :: movers⟩ trace ⟨ix', reporters, m' :: movers⟩ := by
  let f : EntryIndex × Mover → System := fun p => ⟨p.1, reporters, p.2 :: movers⟩
  refine h.map f ?_
  rintro _ _ _ ⟨access⟩
  exact .move [] movers access

/-- The threads may have been one reporter more. -/
theorem Reachable.spareReporter (h : s.Reachable) :
    Reachable { s with reporters := .idle :: s.reporters } := by
  obtain ⟨tracking, reporters, movers, trace, hrun⟩ := h
  refine ⟨tracking, reporters + 1, movers, trace, ?_⟩
  refine hrun.map (fun s => { s with reporters := .idle :: s.reporters }) fun hstep => ?_
  cases hstep with
  | report before after access => exact .report (.idle :: before) after access
  | move before after access => exact .move before after access
  | annotate s timeline => exact .annotate _ timeline

/-- The threads may have been one transfer more. -/
theorem Reachable.spareMover (h : s.Reachable) :
    Reachable { s with movers := .idle :: s.movers } := by
  obtain ⟨tracking, reporters, movers, trace, hrun⟩ := h
  refine ⟨tracking, reporters, movers + 1, trace, ?_⟩
  refine hrun.map (fun s => { s with movers := .idle :: s.movers }) fun hstep => ?_
  cases hstep with
  | report before after access => exact .report before after access
  | move before after access => exact .move (.idle :: before) after access
  | annotate s timeline => exact .annotate _ timeline

/-- One more reporter at rest makes no noise. -/
theorem Quiet.spareReporter (h : s.Quiet) : Quiet { s with reporters := .idle :: s.reporters } :=
  ⟨List.forall_mem_cons.2 ⟨rfl, h.1⟩, h.2⟩

theorem Quiet.spareMover (h : s.Quiet) : Quiet { s with movers := .idle :: s.movers } :=
  ⟨h.1, List.forall_mem_cons.2 ⟨rfl, h.2⟩⟩

end System

namespace EntryIndex

variable {ix : EntryIndex} {key : EntryKey}

/-! ## At rest -/

/-- Threads can leave the index behind when they are all out of their calls. -/
def AtRest (ix : EntryIndex) : Prop :=
  ∃ s : System, s.Reachable ∧ s.Quiet ∧ s.index = ix

theorem atRest_empty (tracking : Tracking) : (empty tracking).AtRest :=
  ⟨.start tracking 0 0, System.reachable_start tracking 0 0, ⟨nofun, nofun⟩, rfl⟩

/-- A report of its own leaves an index at rest. -/
theorem AtRest.report (h : ix.AtRest) (key : EntryKey) : (ix.report key).1.AtRest := by
  obtain ⟨s, hreach, hquiet, rfl⟩ := h
  obtain ⟨n, hrun⟩ := Reporter.runs_report s.index key
  exact ⟨_, hreach.spareReporter.run (System.runs_reporter hrun s.reporters s.movers),
    hquiet.spareReporter, rfl⟩

/-- Taking everything out leaves an index at rest. -/
theorem AtRest.takeAll (h : ix.AtRest) : ix.takeAll.1.AtRest := by
  obtain ⟨s, hreach, hquiet, rfl⟩ := h
  obtain ⟨trace, hrun, -⟩ := Mover.runs_takeAll s.index
  exact ⟨_, hreach.spareMover.run (System.runs_mover hrun s.reporters s.movers),
    hquiet.spareMover, rfl⟩

/-- What is recorded of the entries has no part in where they are. -/
theorem AtRest.annotate (h : ix.AtRest) (timeline : Timeline) : AtRest { ix with timeline } := by
  obtain ⟨s, hreach, hquiet, rfl⟩ := h
  exact ⟨_, hreach.step (.annotate s timeline), hquiet, rfl⟩

/-- At rest what is pending is what is there. -/
theorem AtRest.perm (h : ix.AtRest) : ix.waiting.Perm ix.existence := by
  obtain ⟨s, hreach, hquiet, rfl⟩ := h
  have hacc := System.accounted_of_reachable hreach
  refine List.perm_iff_count.2 fun joined => ?_
  rw [← hacc.balanced, hquiet.carriers_eq]
  rfl

/-- At rest no key is there twice. -/
theorem AtRest.nodup (h : ix.AtRest) : ix.existence.Nodup := by
  obtain ⟨s, hreach, -, rfl⟩ := h
  exact (System.accounted_of_reachable hreach).nodup

/-! ## What a report says -/

/-- Placing a member brings no key. -/
theorem existence_place (ix : EntryIndex) (key : EntryKey) :
    (ix.place key).1.existence = ix.existence := by
  unfold place
  split
  · rfl
  · split <;> rfl

theorem renotifications_place (ix : EntryIndex) (key : EntryKey) :
    (ix.place key).1.counters.renotifications = ix.counters.renotifications := by
  unfold place
  split
  · rfl
  · split <;> rfl

/-- A member that does not wait is new to its set. -/
theorem place_fresh (h : key.joined ∉ ix.waiting) : (ix.place key).2 = true := by
  unfold place
  split
  · rfl
  · next s hs =>
    rw [if_neg]
    intro hmember
    obtain ⟨hmem, hown⟩ : s ∈ ix.groups ∧ s.owner = key.owner :=
      ⟨List.mem_of_find?_eq_some hs, by simpa using List.find?_some hs⟩
    obtain ⟨g, hg⟩ := List.mem_iff_getElem?.1 hmem
    have hat : key.member ∈ ix.membersAt g := by
      rw [membersAt_eq hg]
      exact List.contains_iff_mem.1 hmember
    exact h (mem_waiting (hown ▸ belongs_of_getElem? hg) hat)

/-- A report of a key that is not there adds it, and says so. -/
theorem AtRest.report_of_notMem (h : ix.AtRest) (hkey : key.joined ∉ ix.existence) :
    (ix.report key).1.existence = ix.existence ++ [key.joined] ∧
      (ix.report key).1.counters.renotifications = ix.counters.renotifications ∧
      (ix.report key).2 = true := by
  rw [EntryIndex.report_of_notMem hkey]
  refine ⟨existence_place .., renotifications_place .., place_fresh fun hwaits => hkey ?_⟩
  exact h.perm.mem_iff.1 hwaits

end EntryIndex

end CallPatch
