import CallPatch.Index.Basic
/-!
# Transfer between indexes

A transfer takes every waiting entry out of one index and reports it to
another. The entries that are new to the receiving index make up the
*difference*, an index of its own; with each of them the staged time is
copied over. An index can also be transferred to itself: then its entries are
taken out and reported again.
-/

namespace CallPatch

namespace EntryIndex

/-- Takes out every waiting entry: its group is emptied and its key leaves the existence table. -/
def takeAll (ix : EntryIndex) : EntryIndex × List EntryKey :=
  let taken := ix.pending.map EntryKey.joined
  ({ ix with
      existence := ix.existence.filter fun key => !taken.contains key
      groups := ix.groups.map fun g => g.drain.1 },
    ix.pending)

/-- Notes that the staged time of the key is known. -/
def setStaged (ix : EntryIndex) (key : String) : EntryIndex :=
  { ix with timeline := ix.timeline.setStaged key }

/-- Reports an entry taken out elsewhere. If it is new it joins the difference, and its staged
time, if known at its source, is copied into both. -/
def receive (source : Timeline) (state : EntryIndex × EntryIndex) (key : EntryKey) :
    EntryIndex × EntryIndex :=
  let (target, difference) := state
  let (target, fresh) := target.report key
  if fresh then
    let (difference, _) := difference.report key
    if source.isStaged key.joined then
      (target.setStaged key.joined, difference.setStaged key.joined)
    else (target, difference)
  else (target, difference)

/-- Receives the entries in order. -/
def receiveAll (source : Timeline) (target : EntryIndex) (keys : List EntryKey) :
    EntryIndex × EntryIndex :=
  keys.foldl (receive source) (target, staging)

/-- The outcome of a transfer between two indexes. -/
structure Transferred where
  source : EntryIndex
  target : EntryIndex
  /-- The entries that were new to the target. -/
  difference : EntryIndex
  deriving DecidableEq, Repr

/-- Moves every waiting entry of one index to another. -/
def transfer (source target : EntryIndex) : Transferred :=
  let (source, keys) := source.takeAll
  let (target, difference) := receiveAll source.timeline target keys
  { source, target, difference }

/-- Transfers an index to itself. -/
def recycle (ix : EntryIndex) : EntryIndex × EntryIndex :=
  let (emptied, keys) := ix.takeAll
  receiveAll emptied.timeline emptied keys

end EntryIndex

/-- Transfers index number `i` of a list to index number `j`, and appends the difference. -/
def transferAmong (indexes : List EntryIndex) (i j : Nat) : Option (List EntryIndex) := do
  let source ← indexes[i]?
  if i = j then
    let (again, difference) := source.recycle
    return indexes.set i again ++ [difference]
  else
    let target ← indexes[j]?
    let moved := source.transfer target
    return (indexes.set i moved.source).set j moved.target ++ [moved.difference]

end CallPatch
