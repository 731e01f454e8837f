import CallPatch.Json.Printer
import CallPatch.Snapshot.Basic
/-!
# Snapshots — as a document

The JSON form. A timing without times is its name alone; the others are an
object under their name. An entry without a timing shows a null.
-/

namespace CallPatch

/-- The document of the counters. -/
def RaceCounters.toJson (c : RaceCounters) : Json :=
  .object [("renotifications", .ofNat c.renotifications),
    ("owner_group_races", .ofNat c.ownerGroupRaces),
    ("member_insert_races", .ofNat c.memberInsertRaces)]

/-- The document of a timing. -/
def EntryTiming.toJson : EntryTiming → Json
  | .transferring => .string "transferring"
  | .observed staged since =>
    .object [("observed", .object [("stage_to_observe_ms", .ofNat staged),
      ("since_observed_ms", .ofNat since)])]
  | .patched staged times =>
    .object [("rewritten", .object [("stage_to_observe_ms", .ofNat staged),
      ("observe_to_rewrite_ms", .array (times.map .ofNat))])]

/-- The document of an entry. -/
def EntrySnapshot.toJson (e : EntrySnapshot) : Json :=
  .object [("key", .string e.key), ("timing", (e.timing.map EntryTiming.toJson).getD .null)]

/-- The document of an index. -/
def IndexStats.toJson (s : IndexStats) : Json :=
  .object [("owner_count", .ofNat s.ownerCount), ("owners", .array (s.owners.map .string)),
    ("entry_count", .ofNat s.entryCount),
    ("entries", .array (s.entries.map EntrySnapshot.toJson)), ("counters", s.counters.toJson)]

/-- The document of an agent. -/
def AgentStats.toJson (s : AgentStats) : Json :=
  .object [("staging", s.staging.toJson), ("installed", s.installed.toJson),
    ("rewrite_request_failures", .ofNat s.pipeline.requestFailures),
    ("rewrite_failures", .ofNat s.pipeline.transformFailures),
    ("untransformed", .ofNat s.pipeline.untransformed)]

end CallPatch
