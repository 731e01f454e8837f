import CallPatch.Index.Transfer
import CallPatch.Text.Numeral
/-!
# Workloads on indexes

Rounds of reports by several reporters, with the figures that come out the
same however their steps interleave. Here the reporters run one after
another; where a consumer runs beside them, it transfers after every first
report.
-/

namespace CallPatch.Workload

open Numeral (numbered)

/-! ## One owner per round -/

/-- What one round leaves behind. -/
structure GroupRound where
  owners : Nat
  members : Option (List String)
  difference : Nat
  installed : Nat
  sourceEmpty : Bool
  deriving DecidableEq, Repr

/-- Each of the reporters reports a member of its own for the owner of the round, and everything is
transferred to an empty index. Also says how many reports were first ones. -/
def groupRound (reporters round : Nat) : GroupRound × Nat :=
  let owner := numbered "Fresh" round
  let keys := (List.range reporters).map fun t => { owner, member := numbered "m" t : EntryKey }
  let (staging, fresh) := EntryIndex.staging.reportAll keys
  let moved := staging.transfer .installed
  ({ owners := staging.ownerCount
     members := staging.membersOf? owner
     difference := moved.difference.entryCount
     installed := moved.target.entryCount
     sourceEmpty := moved.source.isEmpty },
    fresh)

/-- The first reports over all rounds, and what the rounds leave behind, each outcome once. -/
def groupRounds (reporters rounds : Nat) : Nat × List GroupRound :=
  let outcomes := (List.range rounds).map (groupRound reporters)
  ((outcomes.map Prod.snd).foldl (· + ·) 0, (outcomes.map Prod.fst).eraseDups)

/-! ## Many owners -/

/-- What reports for several owners come to. -/
structure OwnerTally where
  fresh : Nat
  repeats : Nat
  /-- The joined keys waiting before the transfer. -/
  grouped : List String
  difference : Nat
  installed : Nat
  sourceEmpty : Bool
  deriving DecidableEq, Repr

/-- The `i`-th report of reporter `t` goes to owner `(i + t) mod owners` and member
`i mod members`. -/
def ownerKeys (reporters reports owners members : Nat) : List EntryKey :=
  (List.range reporters).flatMap fun t => (List.range reports).map fun i =>
    { owner := numbered "owner" ((i + t) % owners), member := numbered "m" (i % members) }

/-- Stages every report, then transfers everything to an empty index. -/
def ownerTally (reporters reports owners members : Nat) : OwnerTally :=
  let (staging, fresh) :=
    EntryIndex.staging.reportAll (ownerKeys reporters reports owners members)
  let moved := staging.transfer .installed
  { fresh
    repeats := staging.counters.renotifications + staging.counters.memberInsertRaces
    grouped := staging.pendingKeys
    difference := moved.difference.entryCount
    installed := moved.target.entryCount
    sourceEmpty := moved.source.isEmpty }

/-! ## Reporters beside a consumer -/

/-- A staging index, the index its consumer fills, the first reports so far, and the entries the
consumer has moved. -/
structure Pipeline where
  staging : EntryIndex
  installed : EntryIndex
  fresh : Nat
  moved : Nat
  deriving DecidableEq, Repr

/-- Two empty indexes. -/
def Pipeline.start : Pipeline :=
  { staging := .staging, installed := .installed, fresh := 0, moved := 0 }

/-- The consumer transfers everything. -/
def Pipeline.transfer (p : Pipeline) : Pipeline :=
  let moved := p.staging.transfer p.installed
  { p with
    staging := moved.source
    installed := moved.target
    moved := p.moved + moved.difference.entryCount }

/-- A report; a first one wakes the consumer. -/
def Pipeline.report (p : Pipeline) (key : EntryKey) : Pipeline :=
  let (staging, first) := p.staging.report key
  if first then Pipeline.transfer { p with staging, fresh := p.fresh + 1 }
  else { p with staging }

/-- The entry that every reporter of a drain reports. -/
def drainKey : EntryKey := { owner := "Acme", member := "put" }

/-- What reports of one entry come to. -/
structure DrainTally where
  contained : Bool
  installed : Nat
  sourceEmpty : Bool
  nothingPending : Bool
  reports : Nat
  /-- Whether every first report was moved, once as new and else as a repeat. -/
  everyFreshReportMoved : Bool
  deriving DecidableEq, Repr

/-- Every reporter reports the same entry over and over. -/
def drainTally (reporters reports : Nat) : DrainTally :=
  let keys := List.replicate (reporters * reports) drainKey
  let p := (keys.foldl Pipeline.report Pipeline.start).transfer
  { contained := p.installed.contains drainKey
    installed := p.installed.entryCount
    sourceEmpty := p.staging.isEmpty
    nothingPending := (p.staging.membersOf? drainKey.owner).isNone
    reports := p.fresh + p.staging.counters.renotifications + p.staging.counters.memberInsertRaces
    everyFreshReportMoved := p.fresh = 1 + p.installed.counters.renotifications }

/-- What reports of different entries come to. -/
structure WaiterTally where
  moved : Nat
  installed : Nat
  sourceEmpty : Bool
  deriving DecidableEq, Repr

/-- The members are dealt out to the reporters in turn, and the consumer goes on until it has moved
all of them. -/
def waiterTally (reporters reports : Nat) : WaiterTally :=
  let turns := (List.range reporters).flatMap fun r =>
    (List.range reports).filter fun i => i % reporters = r
  let keys := turns.map fun i => { owner := "Acme", member := numbered "m" i : EntryKey }
  let p := keys.foldl Pipeline.report Pipeline.start
  { moved := p.moved, installed := p.installed.entryCount, sourceEmpty := p.staging.isEmpty }

end CallPatch.Workload
