import CallPatch.Snapshot.Basic
/-!
# Snapshots — as text

The lines a person reads. An index without any timing lists its keys in one
line; one with a timing gives every entry a line of its own.
-/

namespace CallPatch

/-- The texts between brackets, separated by commas. -/
def bracketed (texts : List String) : String :=
  "[" ++ ", ".intercalate texts ++ "]"

namespace EntryTiming

/-- The timing in words, behind the key of its entry. -/
def text : EntryTiming → String
  | .transferring => "transferring"
  | .observed staged since => s!"staged {staged}ms observed {since}ms"
  | .patched staged times =>
    s!"staged {staged}ms observed" ++ String.join (times.map fun ms => s!" {ms}ms rewritten")

end EntryTiming

namespace EntrySnapshot

/-- The key of an entry, with its timing if it has one. -/
def text (e : EntrySnapshot) : String :=
  match e.timing with
  | none => e.key
  | some timing => e.key ++ " " ++ timing.text

end EntrySnapshot

namespace IndexStats

/-- The line or lines that list the entries. -/
def entryLines (s : IndexStats) : List String :=
  if s.entries.any fun e => e.timing.isSome then
    "  [" :: s.entries.map (fun e => "    " ++ e.text) ++ ["  ]"]
  else [bracketed (s.entries.map EntrySnapshot.key)]

/-- The lines about an index. -/
def lines (s : IndexStats) : List String :=
  [s!"owner count:         {s.ownerCount}", bracketed s.owners,
    s!"entry count:         {s.entryCount}"]
  ++ s.entryLines ++
  [s!"renotifications:     {s.counters.renotifications}",
    s!"owner group races:   {s.counters.ownerGroupRaces}",
    s!"member insert races: {s.counters.memberInsertRaces}"]

end IndexStats

/-- Every line with the newline that ends it. -/
def unlines (lines : List String) : String :=
  String.join (lines.map fun line => line ++ "\n")

namespace IndexStats

/-- The lines about an index, as one text. -/
def text (s : IndexStats) : String :=
  unlines s.lines

end IndexStats

namespace AgentStats

/-- The lines about an agent: staging, then what is installed, then the counters. -/
def lines (s : AgentStats) : List String :=
  "Staging" :: s.staging.lines ++ "Updates" :: s.installed.lines ++
  [s!"rewrite request failures: {s.pipeline.requestFailures}",
    s!"rewrite failures:         {s.pipeline.transformFailures}",
    s!"untransformed rewrites:   {s.pipeline.untransformed}"]

/-- The lines about an agent, as one text. -/
def text (s : AgentStats) : String :=
  unlines s.lines

end AgentStats

end CallPatch
