import CallPatch.Proofs.Agent.Pickup
import CallPatch.Proofs.Index.Pipeline
/-!
# Agents — what the history lists

The two indexes of an agent go through one call after another, whatever comes
between these: each report that is not turned down, and each transfer of the
coordinator. So what a run leaves listed can be read off its trace
(`listed_iff`). In particular the members that are reported for one owner are
listed in the end whichever steps came when (`listed_congr`).
-/

namespace CallPatch

/-- The two indexes of an agent. -/
def Agent.indexes (a : Agent) : Pipeline where
  staging := a.staging
  installed := a.installed

/-- The calls of the two indexes that a step makes. -/
def Rollout.Event.calls : Rollout.Event → List Pipeline.Call
  | .reported site => site.entries.map .report
  | .tookOn => [.transfer]
  | _ => []

namespace Pipeline

variable {calls : List Call} {keys : List EntryKey} {key : EntryKey} {p : Pipeline}

/-- When nothing is staged, all that was reported has been transferred. -/
theorem Kept.settled_eq (h : Kept calls p) (hempty : p.staging.isEmpty = true) :
    settled calls = reported calls := by
  have hnone : p.staging.pending = [] := h.staging.pending_of_isEmpty hempty
  have hrecent : recent calls = [] := by
    refine List.eq_nil_iff_forall_not_mem.2 fun k hk => ?_
    obtain ⟨k', hfirst, -⟩ := exists_isFirst_iff.2 ⟨k, hk, rfl⟩
    have hstaged : k' ∈ p.staging.pending := (h.staged k').2 hfirst
    rw [hnone] at hstaged
    cases hstaged
  rw [← settled_append_recent, hrecent, List.append_nil]

/-- Entries of one owner do not share joined keys. -/
theorem isFirst_iff_mem (howner : ∀ k ∈ keys, k.owner = key.owner) :
    IsFirst keys key ↔ key ∈ keys := by
  refine ⟨List.mem_of_find?_eq_some, fun hmem => ?_⟩
  obtain ⟨k, hfirst, hjoined⟩ := exists_isFirst_iff.2 ⟨key, hmem, rfl⟩
  have hown : k.owner = key.owner := howner k (List.mem_of_find?_eq_some hfirst)
  have hsame : k = key := by
    obtain ⟨owner, member⟩ := k
    obtain ⟨owner', member'⟩ := key
    obtain rfl : owner = owner' := hown
    simpa [EntryKey.joined] using hjoined
  rwa [hsame] at hfirst

end Pipeline

namespace Rollout

open Pipeline (Kept IsFirst reported)

variable {config : AgentConfig} {s t : Rollout} {e : Event} {trace : List Event}
variable {calls : List Pipeline.Call} {owner member : String}

theorem reported_calls (trace : List Event) :
    reported (trace.flatMap Event.calls) = trace.flatMap Event.reports := by
  have hone (e : Event) : reported e.calls = e.reports := by
    cases e with
    | reported site =>
      show (site.entries.map Pipeline.Call.report).filterMap Pipeline.Call.key? = site.entries
      rw [List.filterMap_map]
      exact List.filterMap_some
    | _ => rfl
  induction trace with
  | nil => rfl
  | cons e trace ih =>
    rw [List.flatMap_cons, List.flatMap_cons, Pipeline.reported_append, hone, ih]

theorem kept_annotates {a a' : Agent} (h : Kept calls a.indexes) (hnoted : a.Annotates a') :
    Kept calls a'.indexes := by
  obtain ⟨timeline, pipeline, rfl⟩ := hnoted
  exact ⟨h.staging, h.installed.annotate timeline, h.staged, h.listed⟩

/-- One step makes its calls. -/
theorem kept_step (h : Kept calls s.agent.indexes) (hstep : Step s e t) :
    Kept (calls ++ e.calls) t.agent.indexes := by
  cases hstep with
  | begin s owner bytes listed noted =>
    rw [show calls ++ Event.calls (.began owner) = calls from List.append_nil _]
    exact kept_annotates h noted
  | load before after d =>
    rw [show calls ++ Event.calls (.loaded d.owner) = calls from List.append_nil _]
    exact h
  | report s site =>
    rw [report_eq]
    show Kept (calls ++ site.entries.map .report) ⟨(s.agent.report site).1.staging, _⟩
    rcases staging_report s.agent site with ⟨hnone, hsame⟩ | ⟨hone, hstaged, -⟩
    · rw [hnone, hsame, List.map_nil, List.append_nil]
      exact h
    · rw [hone, hstaged]
      exact h.report site.key
  | takeOn host agent defining origins => exact h.transfer
  | look listed =>
    rw [show calls ++ Event.calls .looked = calls from List.append_nil _]
    exact h
  | @request host agent a' defining owner due names bytes origins defined listed noted =>
    rw [show calls ++ Event.calls (.retransformed owner) = calls from List.append_nil _]
    exact kept_annotates h noted
  | finish host agent defining origins =>
    rw [show calls ++ Event.calls .finished = calls from List.append_nil _]
    exact h

/-- And so does a run. -/
theorem kept_of_runs (h : Kept calls s.agent.indexes) (hrun : Runs Step s trace t) :
    Kept (calls ++ trace.flatMap Event.calls) t.agent.indexes := by
  induction hrun with
  | refl => rwa [List.flatMap_nil, List.append_nil]
  | @snoc t u trace e hrun hstep ih =>
    have hlast : [e].flatMap Event.calls = e.calls := List.append_nil _
    rw [List.flatMap_append, hlast, ← List.append_assoc]
    exact kept_step ih hstep

theorem kept_of_reachable (h : Reachable config s) : ∃ calls, Kept calls s.agent.indexes := by
  obtain ⟨host, sees, agent, trace, hstart, hrun⟩ := h
  obtain rfl := eq_fresh_of_start hstart
  exact ⟨_, kept_of_runs Pipeline.kept_fresh hrun⟩

/-- **What is listed when nothing is staged.** -/
theorem listed_iff (h : Kept calls s.agent.indexes) (hempty : s.agent.staging.isEmpty = true) :
    member ∈ s.agent.listed owner ↔ IsFirst (reported calls) ⟨owner, member⟩ := by
  rw [← h.settled_eq hempty]
  exact h.installed.mem_membersOf.trans (h.listed _)

/-- **The order of the steps does not matter to what is listed.** Two runs that report the same
members of one owner, and nothing else, end with the same members listed for it. -/
theorem listed_congr {t' : Rollout} {trace' : List Event} (h : Reachable config s)
    (hrun : Runs Step s trace t) (hrun' : Runs Step s trace' t')
    (hempty : t.agent.staging.isEmpty = true) (hempty' : t'.agent.staging.isEmpty = true)
    (howner : ∀ k ∈ trace.flatMap Event.reports, k.owner = owner)
    (hreports : ∀ k, k ∈ trace.flatMap Event.reports ↔ k ∈ trace'.flatMap Event.reports) :
    member ∈ t.agent.listed owner ↔ member ∈ t'.agent.listed owner := by
  obtain ⟨calls, hkept⟩ := kept_of_reachable h
  have hfirst : IsFirst (trace.flatMap Event.reports) ⟨owner, member⟩ ↔
      IsFirst (trace'.flatMap Event.reports) ⟨owner, member⟩ := by
    rw [Pipeline.isFirst_iff_mem fun k hk => howner k hk,
      Pipeline.isFirst_iff_mem fun k hk => howner k ((hreports k).2 hk), hreports]
  rw [listed_iff (kept_of_runs hkept hrun) hempty, listed_iff (kept_of_runs hkept hrun') hempty',
    Pipeline.reported_append, Pipeline.reported_append, reported_calls, reported_calls,
    Pipeline.isFirst_append, Pipeline.isFirst_append, hfirst]

end Rollout

end CallPatch
