import CallPatch.EntryKey
import CallPatch.FirstMatch
import CallPatch.Index.MemberSet
import CallPatch.Index.Timeline
/-!
# The entry index

The reported call sites, in two tiers. The existence table holds the joined
key of every entry and alone decides whether a report is a first one. The
owner table groups the waiting members by owner; a group stays when it is
emptied. Two indexes make a pipeline: reports go into a *staging* index, and
an *installed* index receives what has been handed on.

The operations here run one at a time. `Transfer` moves entries from one
index to another.
-/

namespace CallPatch

/-- The reported call sites and what is known of them. -/
structure EntryIndex where
  /-- The joined keys present. -/
  existence : List String
  /-- The owners seen, each with its waiting members. -/
  groups : List MemberSet
  counters : RaceCounters
  timeline : Timeline
  deriving DecidableEq, Repr

namespace EntryIndex

/-- An index without entries. -/
def empty (tracking : Tracking) : EntryIndex :=
  { existence := [], groups := [], counters := .zero, timeline := .empty tracking }

/-- An index for fresh reports. -/
def staging : EntryIndex :=
  empty .staged

/-- An index for entries that have been handed on. -/
def installed : EntryIndex :=
  empty .patches

/-- What the index records of its entries. -/
def tracking (ix : EntryIndex) : Tracking :=
  ix.timeline.tracking

/-! ## Reporting -/

/-- The group of the owner. -/
def group? (ix : EntryIndex) (owner : String) : Option MemberSet :=
  ix.groups.find? fun g => g.owner = owner

/-- Notes a report of an entry that was there already. -/
def renotified (ix : EntryIndex) : EntryIndex :=
  { ix with counters := { ix.counters with renotifications := ix.counters.renotifications + 1 } }

/-- Notes a fresh report of a member that was in its set already. -/
def insertRaced (ix : EntryIndex) : EntryIndex :=
  { ix with
    counters := { ix.counters with memberInsertRaces := ix.counters.memberInsertRaces + 1 } }

/-- Puts the member into the group of its owner, and says whether it was new there. -/
def place (ix : EntryIndex) (key : EntryKey) : EntryIndex × Bool :=
  match ix.group? key.owner with
  | none => ({ ix with groups := ix.groups ++ [⟨key.owner, [key.member]⟩] }, true)
  | some g =>
    if g.contains key.member then (ix.insertRaced, false)
    else
      ({ ix with
          groups := modifyFirst (fun g => g.owner = key.owner) (fun g => (g.insert key.member).1)
            ix.groups },
        true)

/-- Records that the call site should be considered, and says whether this is the first report
of it. -/
def report (ix : EntryIndex) (key : EntryKey) : EntryIndex × Bool :=
  if ix.existence.contains key.joined then (ix.renotified, false)
  else
    ({ ix with
        existence := ix.existence ++ [key.joined]
        timeline := ix.timeline.recordArrival key.joined } : EntryIndex).place key

/-- Reports the entries in order, and counts the first reports. -/
def reportAll (ix : EntryIndex) (keys : List EntryKey) : EntryIndex × Nat :=
  keys.foldl
    (fun (ix, fresh) key =>
      let (ix, first) := ix.report key
      (ix, if first then fresh + 1 else fresh))
    (ix, 0)

/-- Records that each of the members was patched. -/
def markPatched (ix : EntryIndex) (owner : String) (members : List String) : EntryIndex :=
  { ix with
    timeline := members.foldl (fun t member => t.markPatched (joinKey owner member)) ix.timeline }

/-! ## Looking -/

/-- Whether the entry is present, by its joined key. -/
def contains (ix : EntryIndex) (key : EntryKey) : Bool :=
  ix.existence.contains key.joined

/-- How many entries are present. -/
def entryCount (ix : EntryIndex) : Nat :=
  ix.existence.length

/-- How many owners have been seen. -/
def ownerCount (ix : EntryIndex) : Nat :=
  ix.groups.length

/-- Whether no entry is present. -/
def isEmpty (ix : EntryIndex) : Bool :=
  ix.existence.isEmpty

/-- The owners in the owner table, emptied groups included. None when no entry is present. -/
def ownerNames? (ix : EntryIndex) : Option (List String) :=
  if ix.isEmpty then none else some (Text.sort (ix.groups.map MemberSet.owner))

/-- The members waiting for the owner, unless there are none. -/
def membersOf? (ix : EntryIndex) (owner : String) : Option (List String) :=
  (ix.group? owner).bind MemberSet.snapshot?

/-- Every waiting member with its owner. -/
def pending (ix : EntryIndex) : List EntryKey :=
  ix.groups.flatMap fun g => g.members.map fun member => { owner := g.owner, member }

/-- The joined keys of what is waiting, in order. -/
def pendingKeys (ix : EntryIndex) : List String :=
  Text.sort (ix.pending.map EntryKey.joined)

/-- What the index shows. -/
def stats (ix : EntryIndex) : IndexStats where
  ownerCount := ix.groups.length
  owners := Text.sort (ix.groups.map MemberSet.owner)
  entryCount := ix.existence.length
  entries := (Text.sort ix.existence).map fun key =>
    { key, timing := (ix.timeline.status? key).map EntryStatus.timing }
  counters := ix.counters

end EntryIndex

end CallPatch
