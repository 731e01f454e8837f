import CallPatch.Proofs.Index.AtRest
/-!
# Entry indexes — the receiving side of transfers

A consumer transfers again and again into one installed index. What it is told
of is all that this side depends on: an entry handed on is reported to the
installed index and, if it is new there, to the difference of the transfer,
which is returned at the end.

The keys that are new to the installed index are cut up among the differences,
none twice (`Receipt.Sound`), and every entry handed on adds a key or counts as
a repeat (`Receipt.Sound.tally`).
-/

namespace CallPatch

/-- The entry whose key a step removes from the existence table. -/
def Event.removals : Event → List EntryKey
  | .removed key => [key]
  | _ => []

/-- The entry that a step hands on. -/
def Event.handovers : Event → List EntryKey
  | .handed key => [key]
  | _ => []

/-- The entry that a step begins to report. -/
def Event.reports : Event → List EntryKey
  | .began key => [key]
  | _ => []

section

variable {ix ix' : EntryIndex} {r r' : Reporter} {m m' : Mover} {e : Event}

theorem Reporter.Step.handovers (h : r.Step ix e ix' r') : e.handovers = [] := by
  cases h <;> rfl

theorem Reporter.Step.removals (h : r.Step ix e ix' r') : e.removals = [] := by
  cases h <;> rfl

theorem Mover.Step.reports (h : m.Step ix e ix' m') : e.reports = [] := by
  cases h <;> rfl

end

namespace EntryIndex

variable {source : Timeline} {target difference : EntryIndex} {key : EntryKey}

/-! ## Receiving one entry -/

theorem receive_eq (source : Timeline) (target difference : EntryIndex) (key : EntryKey) :
    receive source (target, difference) key =
      if (target.report key).2 then
        if source.isStaged key.joined then
          ((target.report key).1.setStaged key.joined,
            (difference.report key).1.setStaged key.joined)
        else ((target.report key).1, (difference.report key).1)
      else ((target.report key).1, difference) :=
  rfl

/-- A repeat is counted, and leaves the difference alone. -/
theorem receive_of_mem (h : key.joined ∈ target.existence) :
    receive source (target, difference) key = (target.renotified, difference) := by
  rw [receive_eq, report_of_mem h]
  rfl

/-- A new entry is added to both. -/
theorem receive_of_notMem (source : Timeline) (htarget : target.AtRest)
    (hdifference : difference.AtRest) (h : key.joined ∉ target.existence)
    (h' : key.joined ∉ difference.existence) :
    (receive source (target, difference) key).1.existence = target.existence ++ [key.joined] ∧
      (receive source (target, difference) key).2.existence =
        difference.existence ++ [key.joined] ∧
      (receive source (target, difference) key).1.counters.renotifications =
        target.counters.renotifications := by
  obtain ⟨hkeys, hcount, hfresh⟩ := htarget.report_of_notMem h
  obtain ⟨hkeys', -, -⟩ := hdifference.report_of_notMem h'
  rw [receive_eq, if_pos hfresh]
  split <;> exact ⟨hkeys, hkeys', hcount⟩

theorem AtRest.receive (htarget : target.AtRest) (hdifference : difference.AtRest)
    (source : Timeline) (key : EntryKey) :
    (receive source (target, difference) key).1.AtRest ∧
      (receive source (target, difference) key).2.AtRest := by
  rw [receive_eq]
  split
  · split
    · exact ⟨(htarget.report key).annotate _, (hdifference.report key).annotate _⟩
    · exact ⟨htarget.report key, hdifference.report key⟩
  · exact ⟨htarget.report key, hdifference⟩

end EntryIndex

/-- What the consumer fills: the installed index, the difference of the transfer that is running,
empty outside of one, and those of the transfers before. -/
structure Receipt where
  installed : EntryIndex
  difference : EntryIndex
  returned : List EntryIndex
  deriving DecidableEq, Repr

namespace Receipt

open EntryIndex

/-- What an access of the transfer changes here. -/
def note (source : Timeline) (r : Receipt) : Event → Receipt
  | .handed key =>
    let (installed, difference) := receive source (r.installed, r.difference) key
    { r with installed, difference }
  | .finished => { r with difference := .staging, returned := r.returned ++ [r.difference] }
  | _ => r

/-- Only what the receiver is told of changes anything. -/
theorem foldl_note_outward (source : Timeline) (r : Receipt) (trace : List Event) :
    trace.foldl (note source) r = (trace.filter Event.outward).foldl (note source) r := by
  induction trace generalizing r with
  | nil => rfl
  | cons e trace ih => cases e <;> exact ih _

/-- Entries handed on one after another are received as a whole list is. -/
theorem foldl_note_handed (source : Timeline) (r : Receipt) (keys : List EntryKey) :
    (keys.map Event.handed).foldl (note source) r =
      { r with
        installed := (keys.foldl (receive source) (r.installed, r.difference)).1
        difference := (keys.foldl (receive source) (r.installed, r.difference)).2 } := by
  induction keys generalizing r with
  | nil => rfl
  | cons key keys ih =>
    rw [List.map_cons, List.foldl_cons, ih]
    rfl

/-- The differences of all transfers, the running one last. -/
def differences (r : Receipt) : List EntryIndex :=
  r.returned ++ [r.difference]

/-- The keys of the differences. -/
def added (r : Receipt) : List String :=
  r.differences.flatMap existence

variable {before : EntryIndex} {source : Timeline} {r : Receipt} {e : Event} {key : EntryKey}

/-- The installed index has grown from the one before by the keys of the differences. -/
structure Sound (before : EntryIndex) (r : Receipt) : Prop where
  installed : r.installed.AtRest
  difference : r.difference.AtRest
  grown : r.installed.existence = before.existence ++ r.added

theorem added_eq (r : Receipt) :
    r.added = r.returned.flatMap existence ++ r.difference.existence := by
  simp [added, differences]

/-- What is new to the installed index is new to the difference. -/
theorem Sound.notMem_difference (h : r.Sound before) (hkey : key.joined ∉ r.installed.existence) :
    key.joined ∉ r.difference.existence := by
  intro hmem
  rw [h.grown, added_eq] at hkey
  exact hkey (List.mem_append_right _ (List.mem_append_right _ hmem))

/-- An entry that is handed on is installed behind the others, unless it is there. -/
theorem Sound.existence_note (h : r.Sound before) (source : Timeline) (key : EntryKey) :
    ((r.note source (.handed key)).installed.existence = r.installed.existence ∧
        (r.note source (.handed key)).installed.counters.renotifications =
          r.installed.counters.renotifications + 1 ∧ key.joined ∈ r.installed.existence) ∨
      ((r.note source (.handed key)).installed.existence =
          r.installed.existence ++ [key.joined] ∧
        (r.note source (.handed key)).installed.counters.renotifications =
          r.installed.counters.renotifications) := by
  by_cases hkey : key.joined ∈ r.installed.existence
  · left
    simp only [note, receive_of_mem hkey]
    exact ⟨rfl, rfl, hkey⟩
  · right
    obtain ⟨hkeys, -, hcount⟩ := receive_of_notMem source h.installed h.difference hkey
      (h.notMem_difference hkey)
    exact ⟨hkeys, hcount⟩

theorem Sound.note (h : r.Sound before) (source : Timeline) (e : Event) :
    (r.note source e).Sound before := by
  cases e with
  | handed key =>
    -- a repeat changes neither table, a new entry is put at the end of both
    obtain ⟨hinstalled, hdifference⟩ := h.installed.receive h.difference source key
    refine ⟨hinstalled, hdifference, ?_⟩
    by_cases hkey : key.joined ∈ r.installed.existence
    · simp only [Receipt.note, receive_of_mem hkey]
      exact h.grown
    · obtain ⟨hkeys, hkeys', -⟩ := receive_of_notMem source h.installed h.difference
        hkey (h.notMem_difference hkey)
      have hgrown := h.grown
      rw [added_eq] at hgrown ⊢
      simp only [Receipt.note, hkeys, hkeys', hgrown, List.append_assoc]
  | finished =>
    refine ⟨h.installed, atRest_empty _, ?_⟩
    have hgrown := h.grown
    rw [added_eq] at hgrown ⊢
    simpa [Receipt.note, EntryIndex.staging, EntryIndex.empty] using hgrown
  | _ => exact h

/-- No key leaves the installed index. -/
theorem Sound.prefix_note (h : r.Sound before) (source : Timeline) (e : Event) :
    r.installed.existence <+: (r.note source e).installed.existence := by
  cases e with
  | handed key =>
    rcases h.existence_note source key with ⟨hkeys, -⟩ | ⟨hkeys, -⟩
    · exact hkeys ▸ List.prefix_rfl
    · exact hkeys ▸ List.prefix_append _ _
  | _ => exact List.prefix_rfl

/-- Handing on makes an entry installed. -/
theorem Sound.mem_note (h : r.Sound before) (source : Timeline) (e : Event) (joined : String) :
    joined ∈ (r.note source e).installed.existence ↔
      joined ∈ r.installed.existence ∨ joined ∈ e.handovers.map EntryKey.joined := by
  cases e with
  | handed key =>
    rcases h.existence_note source key with ⟨hkeys, -, hmem⟩ | ⟨hkeys, -⟩
    · rw [hkeys]
      simp only [Event.handovers, List.map_cons, List.map_nil, List.mem_singleton]
      exact ⟨.inl, fun hor => hor.elim id fun heq => heq ▸ hmem⟩
    · simp [hkeys, Event.handovers]
  | _ => simp [Receipt.note, Event.handovers]

/-- An entry handed on adds a key or counts as a repeat. -/
theorem Sound.tally (h : r.Sound before) (source : Timeline) (e : Event) :
    (r.note source e).installed.entryCount +
        (r.note source e).installed.counters.renotifications =
      r.installed.entryCount + r.installed.counters.renotifications + e.handovers.length := by
  cases e with
  | handed key =>
    unfold entryCount
    rcases h.existence_note source key with ⟨hkeys, hcount, -⟩ | ⟨hkeys, hcount⟩ <;>
      rw [hkeys, hcount]
    · rfl
    · rw [List.length_append]
      show _ + 1 + _ = _ + _ + 1
      omega
  | _ => rfl

/-- No key is in two of the differences. -/
theorem Sound.pairwise (h : r.Sound before) :
    r.differences.Pairwise fun d d' => ∀ joined ∈ d.existence, joined ∉ d'.existence := by
  have hnodup := h.installed.nodup
  rw [h.grown] at hnodup
  have hadded : r.added.Nodup := (List.nodup_append.1 hnodup).2.1
  refine (List.pairwise_flatMap.1 hadded).2.imp fun hdisjoint joined hmem hmem' => ?_
  exact hdisjoint joined hmem joined hmem' rfl

end Receipt

end CallPatch
