import CallPatch.Proofs.Index.Threads
/-!
# Entry indexes — every key has one carrier

Any number of threads report to one index while any number transfer it away.
The existence table and the member sets are changed under different locks, and
in opposite orders by the two kinds of thread; in between, it is a thread that
knows of the entry. A *carrier* of a key is such a thread, or a pending entry.

The invariant is an account (`Accounted`): the carriers carry exactly the keys
of the existence table, each once. A step of one thread leaves the share of the
others alone, so the account follows from what one access moves.
-/

namespace CallPatch

/-- An index and the threads that work on it. -/
structure System where
  index : EntryIndex
  reporters : List Reporter
  movers : List Mover
  deriving DecidableEq, Repr

namespace System

/-- One thread makes one access. Times are noted by calls of other kinds too. -/
inductive Step : System → Event → System → Prop where
  | report {ix ix' : EntryIndex} {r r' : Reporter} {e : Event} {movers : List Mover}
      (before after : List Reporter) (access : r.Step ix e ix' r') :
      Step ⟨ix, before ++ r :: after, movers⟩ e ⟨ix', before ++ r' :: after, movers⟩
  | move {ix ix' : EntryIndex} {m m' : Mover} {e : Event} {reporters : List Reporter}
      (before after : List Mover) (access : m.Step ix e ix' m') :
      Step ⟨ix, reporters, before ++ m :: after⟩ e ⟨ix', reporters, before ++ m' :: after⟩
  | annotate (s : System) (timeline : Timeline) :
      Step s .inner { s with index := { s.index with timeline } }

/-- An empty index with so many threads, none of them in a call. -/
def start (tracking : Tracking) (reporters movers : Nat) : System where
  index := .empty tracking
  reporters := List.replicate reporters .idle
  movers := List.replicate movers .idle

/-- The threads can come to this state, whichever of them steps when. -/
def Reachable (s : System) : Prop :=
  ∃ tracking reporters movers trace, Runs Step (start tracking reporters movers) trace s

theorem reachable_start (tracking : Tracking) (reporters movers : Nat) :
    Reachable (start tracking reporters movers) :=
  ⟨tracking, reporters, movers, [], .refl _⟩

theorem Reachable.step {s s' : System} {e : Event} (h : Reachable s) (hstep : Step s e s') :
    Reachable s' := by
  obtain ⟨tracking, reporters, movers, trace, hrun⟩ := h
  exact ⟨tracking, reporters, movers, trace ++ [e], .snoc hrun hstep⟩

/-- No thread is in a call. -/
def Quiet (s : System) : Prop :=
  (∀ r ∈ s.reporters, r = .idle) ∧ ∀ m ∈ s.movers, m = .idle

/-- The entries on their way, one for each carrier: those of threads, then the pending ones. -/
def carriers (s : System) : List EntryKey :=
  s.reporters.flatMap Reporter.carried ++ s.movers.flatMap Mover.carried ++ s.index.pending

/-- The account of an index and its threads. -/
structure Accounted (s : System) : Prop where
  /-- The existence table holds each key once. -/
  nodup : s.index.existence.Nodup
  /-- The owner table holds one group for each owner. -/
  owners : s.index.owners.Nodup
  reporters : ∀ r ∈ s.reporters, r.Grounded s.index
  movers : ∀ m ∈ s.movers, m.Grounded s.index
  /-- The carriers carry the keys of the existence table, each once. -/
  balanced : ∀ joined,
    (s.carriers.map EntryKey.joined).count joined = s.index.existence.count joined

variable {s s' : System} {e : Event} {ix ix' : EntryIndex}

/-! ## The account -/

/-- The carriers apart from one reporter, and that reporter's share with what is waiting. -/
theorem count_carriers_report (before after : List Reporter) (movers : List Mover) (ix : EntryIndex)
    (r : Reporter) (joined : String) :
    ((carriers ⟨ix, before ++ r :: after, movers⟩).map EntryKey.joined).count joined =
      ((before.flatMap Reporter.carried ++ after.flatMap Reporter.carried ++
          movers.flatMap Mover.carried).map EntryKey.joined).count joined +
        ((r.carried.map EntryKey.joined).count joined + ix.waiting.count joined) := by
  simp only [carriers, EntryIndex.waiting, List.flatMap_append, List.flatMap_cons, List.map_append,
    List.count_append]
  omega

theorem count_carriers_move (before after : List Mover) (reporters : List Reporter)
    (ix : EntryIndex) (m : Mover) (joined : String) :
    ((carriers ⟨ix, reporters, before ++ m :: after⟩).map EntryKey.joined).count joined =
      ((reporters.flatMap Reporter.carried ++ before.flatMap Mover.carried ++
          after.flatMap Mover.carried).map EntryKey.joined).count joined +
        ((m.carried.map EntryKey.joined).count joined + ix.waiting.count joined) := by
  simp only [carriers, EntryIndex.waiting, List.flatMap_append, List.flatMap_cons, List.map_append,
    List.count_append]
  omega

theorem forall_mem_set {α : Type} {P : α → Prop} {before after : List α} {a a' : α}
    (h : ∀ b ∈ before ++ a :: after, P b) (ha' : P a') : ∀ b ∈ before ++ a' :: after, P b := by
  intro b hb
  rcases List.mem_append.1 hb with hb | hb
  · exact h b (List.mem_append_left _ hb)
  · rcases List.mem_cons.1 hb with rfl | hb
    · exact ha'
    · exact h b (List.mem_append_right _ (List.mem_cons_of_mem _ hb))

/-- The account holds at the start. -/
theorem accounted_start (tracking : Tracking) (reporters movers : Nat) :
    Accounted (start tracking reporters movers) where
  nodup := List.nodup_nil
  owners := List.nodup_nil
  reporters r hr := by
    obtain rfl := List.eq_of_mem_replicate hr
    trivial
  movers m hm := by
    obtain rfl := List.eq_of_mem_replicate hm
    trivial
  balanced joined := by
    have hreporters : (List.replicate reporters Reporter.idle).flatMap Reporter.carried = [] :=
      List.flatMap_eq_nil_iff.2 fun r hr => by rw [List.eq_of_mem_replicate hr]; rfl
    have hmovers : (List.replicate movers Mover.idle).flatMap Mover.carried = [] :=
      List.flatMap_eq_nil_iff.2 fun m hm => by rw [List.eq_of_mem_replicate hm]; rfl
    simp [carriers, start, hreporters, hmovers, EntryIndex.empty, EntryIndex.pending]

theorem Accounted.room_report {before after : List Reporter} {movers : List Mover} {r : Reporter}
    (h : Accounted ⟨ix, before ++ r :: after, movers⟩) : ix.Room r.carried := by
  intro joined
  have := h.balanced joined
  rw [count_carriers_report] at this
  dsimp only at this
  omega

theorem Accounted.room_move {before after : List Mover} {reporters : List Reporter} {m : Mover}
    (h : Accounted ⟨ix, reporters, before ++ m :: after⟩) : ix.Room m.carried := by
  intro joined
  have := h.balanced joined
  rw [count_carriers_move] at this
  dsimp only at this
  omega

/-- The account is kept when a reporter steps. -/
theorem Accounted.report {before after : List Reporter} {movers : List Mover} {r r' : Reporter}
    (h : Accounted ⟨ix, before ++ r :: after, movers⟩) (access : r.Step ix e ix' r') :
    Accounted ⟨ix', before ++ r' :: after, movers⟩ := by
  have hgrow : ix.owners <+: ix'.owners := by
    rcases access.owners with heq | ⟨owner, -, heq⟩
    · exact heq ▸ List.prefix_rfl
    · exact heq ▸ List.prefix_append _ _
  constructor
  · exact access.nodup h.nodup
  · -- a group is opened only for an owner that is not in the table
    rcases access.owners with heq | ⟨owner, hnew, heq⟩
    · exact heq ▸ h.owners
    · dsimp only
      rw [heq]
      refine List.nodup_append.2 ⟨h.owners, by simp, ?_⟩
      intro o ho o' ho' hoo
      obtain rfl : o' = owner := by simpa using ho'
      exact hnew (hoo ▸ ho)
  · refine forall_mem_set (fun r hr => (h.reporters r hr).mono hgrow) access.grounded
  · exact fun m hm => (h.movers m hm).mono hgrow
  · intro joined
    have hbefore := h.balanced joined
    have hmoved := access.balance (h.reporters r (by simp)) h.nodup h.room_report joined
    rw [count_carriers_report] at hbefore ⊢
    dsimp only at hbefore ⊢
    omega

/-- The account is kept when a transfer steps. -/
theorem Accounted.move {before after : List Mover} {reporters : List Reporter} {m m' : Mover}
    (h : Accounted ⟨ix, reporters, before ++ m :: after⟩) (access : m.Step ix e ix' m') :
    Accounted ⟨ix', reporters, before ++ m' :: after⟩ := by
  have hgrow : ix.owners <+: ix'.owners := access.owners ▸ List.prefix_rfl
  have hm : m.Grounded ix := h.movers m (by simp)
  constructor
  · exact access.nodup h.nodup
  · exact access.owners ▸ h.owners
  · exact fun r hr => (h.reporters r hr).mono hgrow
  · exact forall_mem_set (fun m hm => (h.movers m hm).mono hgrow) (access.grounded hm)
  · intro joined
    have hbefore := h.balanced joined
    have hmoved := access.balance hm h.nodup h.room_move joined
    rw [count_carriers_move] at hbefore ⊢
    dsimp only at hbefore ⊢
    omega

/-- One step keeps the account. -/
theorem Accounted.step (hstep : Step s e s') (h : Accounted s) : Accounted s' := by
  cases hstep with
  | report before after access => exact h.report access
  | move before after access => exact h.move access
  | annotate timeline => exact ⟨h.nodup, h.owners, h.reporters, h.movers, h.balanced⟩

/-- Every run keeps the account. -/
theorem accounted_of_reachable (h : s.Reachable) : Accounted s := by
  obtain ⟨tracking, reporters, movers, trace, hrun⟩ := h
  exact hrun.invariant Accounted.step (accounted_start tracking reporters movers)

/-! ## What the account says -/

/-- A carrier's key is in the existence table. -/
theorem Accounted.mem_existence (h : Accounted s) {key : EntryKey} (hkey : key ∈ s.carriers) :
    key.joined ∈ s.index.existence := by
  have hmem : key.joined ∈ s.carriers.map EntryKey.joined := List.mem_map_of_mem hkey
  have := List.count_pos_iff.2 hmem
  rw [h.balanced] at this
  exact List.count_pos_iff.1 this

/-- A key of the existence table has a carrier. -/
theorem Accounted.exists_carrier (h : Accounted s) {joined : String}
    (hjoined : joined ∈ s.index.existence) : ∃ key ∈ s.carriers, key.joined = joined := by
  have := List.count_pos_iff.2 hjoined
  rw [← h.balanced] at this
  exact List.mem_map.1 (List.count_pos_iff.1 this)

/-- A pending entry stands in the group that the owner table holds for its owner. -/
theorem Accounted.group?_of_pending (h : Accounted s) {key : EntryKey}
    (hkey : key ∈ s.index.pending) :
    ∃ group, s.index.group? key.owner = some group ∧ key.member ∈ group.members := by
  obtain ⟨group, hgroup, hmem⟩ := List.mem_flatMap.1 hkey
  obtain ⟨member, hmember, rfl⟩ := List.mem_map.1 hmem
  obtain ⟨g, hg⟩ := List.mem_iff_getElem?.1 hgroup
  exact ⟨group, by rw [(EntryIndex.belongs_of_getElem? hg).group?_eq h.owners, hg], hmember⟩

/-- Without a thread in a call the carriers are the pending entries. -/
theorem Quiet.carriers_eq (h : s.Quiet) : s.carriers = s.index.pending := by
  have hreporters : s.reporters.flatMap Reporter.carried = [] :=
    List.flatMap_eq_nil_iff.2 fun r hr => by rw [h.1 r hr]; rfl
  have hmovers : s.movers.flatMap Mover.carried = [] :=
    List.flatMap_eq_nil_iff.2 fun m hm => by rw [h.2 m hm]; rfl
  rw [carriers, hreporters, hmovers]
  rfl

/-- **No entry is lost or doubled.** However the threads interleave, every key of the existence
table has exactly one carrier and no other key has any: a report between its two insertions, a
pending entry of the group that the owner table holds for the owner, or a transfer between its two
removals. When no thread is in a call, the joined keys of the pending entries are those of the
existence table. -/
theorem one_carrier (h : s.Reachable) :
    (∀ joined, (s.carriers.map EntryKey.joined).count joined =
        if joined ∈ s.index.existence then 1 else 0) ∧
      s.index.existence.Nodup ∧
      (∀ key ∈ s.index.pending,
        ∃ group, s.index.group? key.owner = some group ∧ key.member ∈ group.members) ∧
      (∀ key g, .holding key g ∈ s.reporters →
        ∃ group, s.index.group? key.owner = some group ∧ s.index.groups[g]? = some group) ∧
      (s.Quiet → (s.index.pending.map EntryKey.joined).Perm s.index.existence) := by
  have hacc := accounted_of_reachable h
  refine ⟨fun joined => ?_, hacc.nodup, fun key hkey => hacc.group?_of_pending hkey, ?_, ?_⟩
  · rw [hacc.balanced, hacc.nodup.count]
  · intro key g hholds
    have hbelongs : s.index.Belongs g key.owner := hacc.reporters _ hholds
    obtain ⟨group, hg, -⟩ := hbelongs.exists_group
    exact ⟨group, by rw [hbelongs.group?_eq hacc.owners, hg], hg⟩
  · intro hquiet
    refine List.perm_iff_count.2 fun joined => ?_
    rw [← hquiet.carriers_eq, hacc.balanced]

/-! ## A state between -/

namespace Midway

/-- The entry whose report came first. -/
def first : EntryKey := { owner := "Acme", member := "put" }

/-- An entry of the same owner, reported meanwhile. -/
def second : EntryKey := { owner := "Acme", member := "load" }

/-- Both reports found no group and tried to open one. The first has inserted its member, and a
transfer has taken that out again; the second is about to insert its own. -/
def between : System where
  index :=
    { existence := [first.joined, second.joined]
      groups := [.empty "Acme"]
      counters := { RaceCounters.zero with ownerGroupRaces := 1 }
      timeline := { Timeline.empty .staged with staged := [second.joined, first.joined] } }
  reporters := [.done first true, .holding second 0]
  movers := [.draining [] 0 "Acme" [] ["put"]]

theorem reachable_between : between.Reachable :=
  reachable_start .staged 2 1
    |>.step (.report [] [.idle] (.begin first))
    |>.step (.report [] [.idle] (.accept (by decide)))
    |>.step (.report [.admitted first] [] (.begin second))
    |>.step (.report [.admitted first] [] (.accept (by decide)))
    |>.step (.report [] [.admitted second] (.record first))
    |>.step (.report [.recorded first] [] (.record second))
    |>.step (.report [] [.recorded second] (.miss (by decide)))
    |>.step (.report [.groupless first] [] (.miss (by decide)))
    -- one of them opens the group, the other finds it there
    |>.step (.report [] [.groupless second] (.found (by decide)))
    |>.step (.report [.holding first 0] [] (.join (by decide)))
    |>.step (.report [] [.holding second 0] (.insert (by decide)))
    |>.step (.move [] [] .start)
    |>.step (.move [] [] (.seeGroup (g := 0) (by decide)))
    |>.step (.move [] [] (.surveyed [0]))
    |>.step (.move [] [] (.enter rfl))
    |>.step (.move [] [] (.seeMember (m := "put") (by decide)))
    |>.step (.move [] [] (.listed [] 0 "Acme" ["put"]))
    |>.step (.move [] [] (.takeMember (by decide)))

/-- Between, one key is carried by the report and the other by the transfer; nothing is pending. -/
theorem one_carrier_between :
    between.Reachable ∧ between.carriers = [second, first] ∧
      ∀ joined, (between.carriers.map EntryKey.joined).count joined =
        if joined ∈ between.index.existence then 1 else 0 :=
  ⟨reachable_between, rfl, (one_carrier reachable_between).1⟩

end Midway

end System

end CallPatch
