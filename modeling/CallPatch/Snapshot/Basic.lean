/-!
# Snapshots — what an index and an agent show

Plain records for diagnosis, apart from the things they describe. Elapsed
times are whole milliseconds.
-/

namespace CallPatch

/-- Diagnostic counters of an index. -/
structure RaceCounters where
  /-- Reports of an entry that was there already. -/
  renotifications : Nat
  /-- Member sets built for an owner that had one by then. -/
  ownerGroupRaces : Nat
  /-- Members that were in their set already when a fresh report reached it. -/
  memberInsertRaces : Nat
  deriving DecidableEq, Repr

/-- Counters before anything happened. -/
def RaceCounters.zero : RaceCounters :=
  ⟨0, 0, 0⟩

/-- How far an entry has come, with elapsed times. -/
inductive EntryTiming where
  /-- Observed, but the time it was staged has not been copied over. -/
  | transferring
  /-- Observed by the coordinator; nothing patched yet. -/
  | observed (stageToObserve sinceObserved : Nat)
  /-- Patched; each time is counted from observation. -/
  | patched (stageToObserve : Nat) (observeToPatch : List Nat)
  deriving DecidableEq, Repr

/-- One entry of an index. -/
structure EntrySnapshot where
  /-- The joined key of the entry. -/
  key : String
  /-- Only indexes that track patches have one. -/
  timing : Option EntryTiming
  deriving DecidableEq, Repr

/-- One index: its owners and its entries in order, with their numbers. -/
structure IndexStats where
  ownerCount : Nat
  owners : List String
  entryCount : Nat
  entries : List EntrySnapshot
  counters : RaceCounters
  deriving DecidableEq, Repr

/-- Counters of what an agent has had patched. -/
structure PipelineCounters where
  /-- Requests the host refused or failed. -/
  requestFailures : Nat
  /-- Transformations that failed, so that the artifact was kept as it was. -/
  transformFailures : Nat
  /-- Transformations that found no call site. -/
  untransformed : Nat
  deriving DecidableEq, Repr

/-- Counters before anything happened. -/
def PipelineCounters.zero : PipelineCounters :=
  ⟨0, 0, 0⟩

/-- Both indexes of an agent and the counters of its work. -/
structure AgentStats where
  staging : IndexStats
  installed : IndexStats
  pipeline : PipelineCounters
  deriving DecidableEq, Repr

end CallPatch
