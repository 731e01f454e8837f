import CallPatch.Snapshot.Basic
/-!
# Timelines — how far each entry has come

An index remembers three things under the joined key of an entry: that its
staged time is known, that it was observed, and every patch of it. Nothing
is ever forgotten, also not when the entry leaves the index. Only the
statuses are kept, not the clock: every elapsed time shown is zero.
-/

namespace CallPatch

/-- What an index records when it first sees an entry. -/
inductive Tracking where
  /-- That the entry was staged. -/
  | staged
  /-- That the entry was observed; patches are recorded too, and staged times are copied in. -/
  | patches
  deriving DecidableEq, Repr

/-- How far an entry has come. -/
inductive EntryStatus where
  | transferring
  | observed
  | patched (times : Nat)
  deriving DecidableEq, Repr

/-- The timing with every elapsed time zero. -/
def EntryStatus.timing : EntryStatus → EntryTiming
  | .transferring => .transferring
  | .observed => .observed 0 0
  | .patched times => .patched 0 (List.replicate times 0)

/-- What an index remembers of its entries. -/
structure Timeline where
  tracking : Tracking
  /-- The keys whose staged time is known. -/
  staged : List String
  /-- The keys that were observed. -/
  observed : List String
  /-- One key for each patch, in order. -/
  patches : List String
  deriving DecidableEq, Repr

namespace Timeline

/-- Nothing is known yet. -/
def empty (tracking : Tracking) : Timeline :=
  { tracking, staged := [], observed := [], patches := [] }

/-- Whether the staged time of the key is known. -/
def isStaged (t : Timeline) (key : String) : Bool :=
  t.staged.contains key

/-- Notes that the staged time of the key is known. -/
def setStaged (t : Timeline) (key : String) : Timeline :=
  { t with staged := t.staged.insert key }

/-- Records that a key came into the index. -/
def recordArrival (t : Timeline) (key : String) : Timeline :=
  match t.tracking with
  | .staged => t.setStaged key
  | .patches => { t with observed := t.observed.insert key }

/-- Records a patch, in an index that tracks them. -/
def markPatched (t : Timeline) (key : String) : Timeline :=
  match t.tracking with
  | .staged => t
  | .patches => { t with patches := t.patches ++ [key] }

/-- How far the entry has come, in an index that tracks patches. -/
def status? (t : Timeline) (key : String) : Option EntryStatus :=
  match t.tracking with
  | .staged => none
  | .patches =>
    if !(t.staged.contains key && t.observed.contains key) then some .transferring
    else if t.patches.count key = 0 then some .observed
    else some (.patched (t.patches.count key))

end Timeline

end CallPatch
