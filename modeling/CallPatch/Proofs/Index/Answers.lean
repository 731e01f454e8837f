import CallPatch.Proofs.Index.Receipt
/-!
# Entry indexes — what reports answer

A report answers that its entry is new, or that it was there already. Two tests
can turn it down: the key may be in the existence table, and the member may be in
the set of its owner although the key was not in the table. The two tables are
under different locks, and between the two tests other reports and transfers come
as they like, of this entry and of entries that share its joined key.

The second test never turns a report down. From the insertion of the key on it is
the reporter that carries the entry, so its member waits nowhere
(`Accounted.notMem_group`); whoever inserted a key answers that it is new
(`Tallied.answered`). So the answers can be counted (`Tallied`): those of the one
kind are the keys removed since and those still there, those of the other kind are
the repeats.
-/

namespace CallPatch

/-- The entry of a report that gives this answer in the step. -/
def Event.answers (fresh : Bool) : Event → List EntryKey
  | .returned key answer => if answer = fresh then [key] else []
  | _ => []

/-- What is written at a place of a list. -/
theorem getElem?_append_cons_of_ne {α : Type} {before after : List α} {a a' : α} {i : Nat}
    (h : i ≠ before.length) : (before ++ a' :: after)[i]? = (before ++ a :: after)[i]? := by
  have hset : before ++ a' :: after = (before ++ a :: after).set before.length a' := by simp
  rw [hset, List.getElem?_set_ne (Ne.symm h)]

/-! ## One access -/

namespace Reporter

open EntryIndex

/-- The entry whose key the reporter has put into the existence table, up to the answer. -/
def inserted : Reporter → List EntryKey
  | .admitted key | .recorded key | .groupless key | .holding key _ | .collided key
  | .done key true => [key]
  | _ => []

/-- The entry that the reporter has counted as a repeat, up to the answer. -/
def repeated : Reporter → List EntryKey
  | .done key false => [key]
  | _ => []

variable {ix ix' : EntryIndex} {r r' : Reporter} {e : Event} {key : EntryKey}

/-- No access finds the member in its set. -/
theorem Step.ne_collided (h : r.Step ix e ix' r') (hr : r.Grounded ix) (hnodup : ix.existence.Nodup)
    (hroom : ix.Room r.carried) (key : EntryKey) : r' ≠ .collided key := by
  cases h with
  | collide present => exact absurd present (hroom.notMem_membersAt hnodup hr)
  | _ => nofun

/-- A reporter that has inserted its key goes on to the answer that the entry is new. -/
theorem Step.mem_inserted (h : r.Step ix e ix' r') (hfree : ∀ key, r ≠ .collided key)
    (hkey : key ∈ r.inserted) :
    key ∈ r'.inserted ∨ r = .done key true ∧ e = .returned key true ∧ r' = .idle := by
  cases h with
  | race key => exact absurd rfl (hfree key)
  | leave key' fresh =>
    cases fresh with
    | true =>
      obtain rfl := List.mem_singleton.1 hkey
      exact .inr ⟨rfl, rfl, rfl⟩
    | false => cases hkey
  | begin | refuse | accept | renotify => cases hkey
  | record | find | miss | join | found | insert | collide => exact .inl hkey

/-- The keys that reporters have inserted, answers included, grow as the existence table does. -/
theorem Step.count_inserted (h : r.Step ix e ix' r') (hfree : ∀ key, r ≠ .collided key)
    (joined : String) :
    ((e.answers true ++ r'.inserted).map EntryKey.joined).count joined +
        ix.existence.count joined =
      (r.inserted.map EntryKey.joined).count joined + ix'.existence.count joined := by
  cases h with
  | @accept key absent =>
    show [key.joined].count joined + ix.existence.count joined =
      0 + (ix.existence ++ [key.joined]).count joined
    rw [List.count_append]
    omega
  | race key => exact absurd rfl (hfree key)
  | leave key fresh => cases fresh <;> rfl
  | _ => rfl

/-- Repeats, answers included, are counted. -/
theorem Step.length_repeated (h : r.Step ix e ix' r') (hfree : ∀ key, r ≠ .collided key) :
    (e.answers false ++ r'.repeated).length + ix.counters.renotifications =
      r.repeated.length + ix'.counters.renotifications := by
  cases h with
  | renotify key =>
    show 1 + ix.counters.renotifications = 0 + (ix.counters.renotifications + 1)
    omega
  | race key => exact absurd rfl (hfree key)
  | leave key fresh => cases fresh <;> rfl
  | _ => rfl

theorem Step.memberInsertRaces (h : r.Step ix e ix' r') (hfree : ∀ key, r ≠ .collided key) :
    ix'.counters.memberInsertRaces = ix.counters.memberInsertRaces := by
  cases h with
  | race key => exact absurd rfl (hfree key)
  | _ => rfl

end Reporter

namespace Mover

open EntryIndex

variable {ix ix' : EntryIndex} {m m' : Mover} {e : Event}

theorem Step.answers (h : m.Step ix e ix' m') (fresh : Bool) : e.answers fresh = [] := by
  cases h <;> rfl

theorem Step.counters (h : m.Step ix e ix' m') : ix'.counters = ix.counters := by
  cases h <;> rfl

/-- What is removed was in the existence table. -/
theorem Step.count_removals (h : m.Step ix e ix' m') (hnodup : ix.existence.Nodup)
    (joined : String) :
    (e.removals.map EntryKey.joined).count joined + ix'.existence.count joined =
      ix.existence.count joined := by
  cases h with
  | @remove rest owner member taken present =>
    have hkey : (EntryKey.mk owner member).joined ∈ ix.existence := present
    have hremove := count_takeKey hnodup hkey joined
    show [(EntryKey.mk owner member).joined].count joined + _ = _
    omega
  | _ =>
    show 0 + ix.existence.count joined = ix.existence.count joined
    omega

end Mover

/-! ## The count -/

namespace System

variable {s t : System} {trace more : List Event} {e : Event} {key : EntryKey} {i : Nat}

/-- **The member is never there.** A report that holds the group of its owner finds its member
absent, whatever else is under way. -/
theorem Accounted.notMem_group (h : Accounted s) {g : Nat} (hholds : .holding key g ∈ s.reporters) :
    ∃ group, s.index.group? key.owner = some group ∧ s.index.groups[g]? = some group ∧
      key.member ∉ group.members := by
  obtain ⟨before, after, hreporters⟩ := List.append_of_mem hholds
  have hbelongs : s.index.Belongs g key.owner := h.reporters _ hholds
  have hroom : s.index.Room [key] := by
    have hacc : Accounted ⟨s.index, before ++ .holding key g :: after, s.movers⟩ := hreporters ▸ h
    exact hacc.room_report
  obtain ⟨group, hg, -⟩ := hbelongs.exists_group
  refine ⟨group, by rw [hbelongs.group?_eq h.owners, hg], hg, ?_⟩
  have habsent := hroom.notMem_membersAt h.nodup hbelongs
  rwa [EntryIndex.membersAt_eq hg] at habsent

/-- The answers of a run with this trace. -/
structure Tallied (trace : List Event) (s : System) : Prop where
  accounted : s.Accounted
  free : ∀ r ∈ s.reporters, ∀ key, r ≠ .collided key
  races : s.index.counters.memberInsertRaces = 0
  /-- The keys that were inserted are those removed and those still there. -/
  inserted : ∀ joined,
    ((trace.flatMap (Event.answers true) ++ s.reporters.flatMap Reporter.inserted).map
        EntryKey.joined).count joined =
      ((trace.flatMap Event.removals).map EntryKey.joined).count joined +
        s.index.existence.count joined
  /-- The other reports are the repeats. -/
  repeated :
    (trace.flatMap (Event.answers false) ++ s.reporters.flatMap Reporter.repeated).length =
      s.index.counters.renotifications

theorem tallied_start (tracking : Tracking) (reporters movers : Nat) :
    Tallied [] (start tracking reporters movers) := by
  have hidle (f : Reporter → List EntryKey) (hf : f .idle = []) :
      (List.replicate reporters Reporter.idle).flatMap f = [] :=
    List.flatMap_eq_nil_iff.2 fun r hr => by rw [List.eq_of_mem_replicate hr, hf]
  refine ⟨accounted_start .., fun r hr key => ?_, rfl, fun joined => ?_, ?_⟩
  · rw [List.eq_of_mem_replicate hr]
    nofun
  · simp [start, hidle Reporter.inserted rfl, EntryIndex.empty]
  · simp [start, hidle Reporter.repeated rfl, EntryIndex.empty, RaceCounters.zero]

/-- A report keeps the count. -/
theorem Tallied.report {ix ix' : EntryIndex} {r r' : Reporter} {before after : List Reporter}
    {movers : List Mover} (h : Tallied trace ⟨ix, before ++ r :: after, movers⟩)
    (access : r.Step ix e ix' r') :
    Tallied (trace ++ [e]) ⟨ix', before ++ r' :: after, movers⟩ := by
  have hfree : ∀ key, r ≠ .collided key := h.free r (by simp)
  have hgrounded : r.Grounded ix := h.accounted.reporters r (by simp)
  have hfree' := access.ne_collided hgrounded h.accounted.nodup h.accounted.room_report
  refine ⟨h.accounted.report access, forall_mem_set h.free hfree',
    (access.memberInsertRaces hfree).trans h.races, fun joined => ?_, ?_⟩
  · have hbefore := h.inserted joined
    have hmoved := access.count_inserted hfree joined
    simp only [List.flatMap_append, List.flatMap_cons, List.flatMap_nil, List.map_append,
      List.count_append, List.append_nil, access.removals] at hbefore hmoved ⊢
    omega
  · have hbefore := h.repeated
    have hmoved := access.length_repeated hfree
    simp only [List.flatMap_append, List.flatMap_cons, List.flatMap_nil, List.length_append,
      List.append_nil] at hbefore hmoved ⊢
    omega

/-- A transfer keeps the count. -/
theorem Tallied.move {ix ix' : EntryIndex} {m m' : Mover} {before after : List Mover}
    {reporters : List Reporter} (h : Tallied trace ⟨ix, reporters, before ++ m :: after⟩)
    (access : m.Step ix e ix' m') :
    Tallied (trace ++ [e]) ⟨ix', reporters, before ++ m' :: after⟩ := by
  have hanswers (fresh : Bool) :
      (trace ++ [e]).flatMap (Event.answers fresh) = trace.flatMap (Event.answers fresh) := by
    simp [access.answers]
  refine ⟨h.accounted.move access, h.free, ?_, fun joined => ?_, ?_⟩
  · exact (congrArg RaceCounters.memberInsertRaces access.counters).trans h.races
  · have hbefore := h.inserted joined
    have hmoved := access.count_removals h.accounted.nodup joined
    rw [hanswers]
    simp only [List.flatMap_append, List.flatMap_cons, List.flatMap_nil, List.map_append,
      List.count_append, List.append_nil] at hbefore ⊢
    omega
  · rw [hanswers]
    exact h.repeated.trans (congrArg RaceCounters.renotifications access.counters).symm

/-- One step keeps the count. -/
theorem Tallied.step (h : Tallied trace s) (hstep : Step s e t) : Tallied (trace ++ [e]) t := by
  cases hstep with
  | report before after access => exact h.report access
  | move before after access => exact h.move access
  | annotate =>
    refine ⟨h.accounted.step (.annotate s _), h.free, h.races, fun joined => ?_, ?_⟩
    · simpa [Event.answers, Event.removals] using h.inserted joined
    · simpa [Event.answers] using h.repeated

theorem Tallied.run (h : Tallied trace s) (hmore : Runs Step s more t) :
    Tallied (trace ++ more) t := by
  induction hmore with
  | refl => rwa [List.append_nil]
  | snoc _ hlast ih =>
    rw [← List.append_assoc]
    exact ih.step hlast

theorem tallied_of_runs {tracking : Tracking} {reporters movers : Nat}
    (hrun : Runs Step (start tracking reporters movers) trace s) : Tallied trace s :=
  (tallied_start tracking reporters movers).run hrun

/-! ## The answer of one report -/

/-- In this run the reporter at the place answers that the entry is new. -/
def AnswersNew (i : Nat) (key : EntryKey) (s : System) (trace : List Event) (t : System) : Prop :=
  ∃ front back u v, trace = front ++ .returned key true :: back ∧
    Runs Step s front u ∧ u.reporters[i]? = some (.done key true) ∧
    Step u (.returned key true) v ∧ v.reporters[i]? = some .idle ∧ Runs Step v back t

/-- A step of whichever thread leaves a reporter that inserted its key on its way, or is that
reporter's answer. -/
theorem Tallied.step_inserted (h : Tallied trace s) (hstep : Step s e t) {r : Reporter}
    (hr : s.reporters[i]? = some r) (hkey : key ∈ r.inserted) :
    (∃ r', t.reporters[i]? = some r' ∧ key ∈ r'.inserted) ∨
      r = .done key true ∧ e = .returned key true ∧ t.reporters[i]? = some .idle := by
  cases hstep with
  | @report ix ix' r₁ r₁' e movers before after access =>
    by_cases hi : i = before.length
    · subst hi
      obtain rfl : r₁ = r := by simpa using hr
      rcases access.mem_inserted (h.free r₁ (by simp)) hkey with hkey' | ⟨hdone, he, hidle⟩
      · exact .inl ⟨r₁', by simp, hkey'⟩
      · exact .inr ⟨hdone, he, by simp [hidle]⟩
    · exact .inl ⟨r, (getElem?_append_cons_of_ne hi).trans hr, hkey⟩
  | move before after access => exact .inl ⟨r, hr, hkey⟩
  | annotate timeline => exact .inl ⟨r, hr, hkey⟩

/-- **Whoever inserted a key answers that it is new.** -/
theorem Tallied.answered (h : Tallied trace s) {r : Reporter} (hr : s.reporters[i]? = some r)
    (hkey : key ∈ r.inserted) (hmore : Runs Step s more t) :
    (∃ r', t.reporters[i]? = some r' ∧ key ∈ r'.inserted) ∨ AnswersNew i key s more t := by
  induction hmore with
  | refl => exact .inl ⟨r, hr, hkey⟩
  | @snoc u t more e hrun hlast ih =>
    rcases ih with ⟨r', hr', hkey'⟩ | ⟨front, back, u₁, v₁, rfl, hfront, hdone, hreturn, hidle, hback⟩
    · rcases (h.run hrun).step_inserted hlast hr' hkey' with hstill | ⟨rfl, rfl, hidle⟩
      · exact .inl hstill
      · exact .inr ⟨more, [], u, t, rfl, hrun, hr', hlast, hidle, .refl t⟩
    · refine .inr ⟨front, back ++ [e], u₁, v₁, ?_, hfront, hdone, hreturn, hidle,
        .snoc hback hlast⟩
      rw [List.append_assoc, List.cons_append]

/-- With no thread in a call, the reports that answered that their entry was new are those whose
keys were removed since and those whose keys are still there. -/
theorem Tallied.perm (h : Tallied trace s) (hquiet : s.Quiet) :
    ((trace.flatMap (Event.answers true)).map EntryKey.joined).Perm
      ((trace.flatMap Event.removals).map EntryKey.joined ++ s.index.existence) := by
  have hnone : s.reporters.flatMap Reporter.inserted = [] :=
    List.flatMap_eq_nil_iff.2 fun r hr => by rw [hquiet.1 r hr]; rfl
  refine List.perm_iff_count.2 fun joined => ?_
  have hinserted := h.inserted joined
  rwa [hnone, List.append_nil, ← List.count_append] at hinserted

/-- **The answers add up.** However reports and transfers interleave, no member is found in its set
by the report that inserted its key, and that report answers that the entry is new. When no thread
is in a call, as many reports have given this answer as keys were removed and are still there, and
as many have given the other answer as repeats were counted. -/
theorem answers_add_up {tracking : Tracking} {reporters movers : Nat}
    (hrun : Runs Step (start tracking reporters movers) trace s) :
    s.index.counters.memberInsertRaces = 0 ∧
      (∀ key g, .holding key g ∈ s.reporters →
        ∃ group, s.index.group? key.owner = some group ∧ s.index.groups[g]? = some group ∧
          key.member ∉ group.members) ∧
      (∀ i r key more t, s.reporters[i]? = some r → key ∈ r.inserted → Runs Step s more t →
        (∃ r', t.reporters[i]? = some r' ∧ key ∈ r'.inserted) ∨ AnswersNew i key s more t) ∧
      (s.Quiet →
        (trace.flatMap (Event.answers true)).length =
            (trace.flatMap Event.removals).length + s.index.entryCount ∧
          (trace.flatMap (Event.answers false)).length = s.index.counters.renotifications) := by
  have htallied := tallied_of_runs hrun
  refine ⟨htallied.races, fun key g => htallied.accounted.notMem_group,
    fun i r key more t => htallied.answered, fun hquiet => ⟨?_, ?_⟩⟩
  · have hlength := (htallied.perm hquiet).length_eq
    rwa [List.length_append, List.length_map, List.length_map] at hlength
  · have hnone : s.reporters.flatMap Reporter.repeated = [] :=
      List.flatMap_eq_nil_iff.2 fun r hr => by rw [hquiet.1 r hr]; rfl
    have hrepeated := htallied.repeated
    rwa [hnone, List.append_nil] at hrepeated

/-! ## Two call sites with one joined key -/

namespace Twins

/-- The member `b#c` of `a`. -/
def first : EntryKey := { owner := "a", member := "b#c" }

/-- The member `c` of `a#b`, with the same joined key. -/
def second : EntryKey := { owner := "a#b", member := "c" }

/-- The second is reported while the first is on its way, and again while that is handed on. -/
def reports : List Event :=
  [.began first, .inner, .began second, .inner, .inner, .inner, .inner, .inner, .inner,
    .returned second false, .returned first true] ++
    [.started, .inner, .inner, .inner, .inner, .inner, .inner, .inner, .removed first] ++
    [.began second, .inner, .inner, .inner, .inner, .inner, .returned second true] ++
    [.handed first, .inner, .finished]

/-- The second has taken the place of the first. -/
def settled : System where
  index :=
    { existence := [second.joined]
      groups := [.empty "a", ⟨"a#b", ["c"]⟩]
      counters := { RaceCounters.zero with renotifications := 1 }
      timeline := { Timeline.empty .staged with staged := [second.joined] } }
  reporters := [.idle, .idle]
  movers := [.idle]

theorem runs_settled : Runs Step (start .staged 2 1) reports settled :=
  .cons (.report [] [.idle] (.begin first)) <|
    .cons (.report [] [.idle] (.accept (by decide))) <|
    .cons (.report [.admitted first] [] (.begin second)) <|
    .cons (.report [.admitted first] [] (.refuse (by decide))) <|
    .cons (.report [] [.known second] (.record first)) <|
    .cons (.report [] [.known second] (.miss (by decide))) <|
    .cons (.report [] [.known second] (.found (by decide))) <|
    .cons (.report [] [.known second] (.insert (by decide))) <|
    .cons (.report [.done first true] [] (.renotify second)) <|
    .cons (.report [.done first true] [] (.leave second false)) <|
    .cons (.report [] [.idle] (.leave first true)) <|
    .cons (.move [] [] .start) <|
    .cons (.move [] [] (.seeGroup (g := 0) (by decide))) <|
    .cons (.move [] [] (.surveyed [0])) <|
    .cons (.move [] [] (.enter rfl)) <|
    .cons (.move [] [] (.seeMember (m := "b#c") (by decide))) <|
    .cons (.move [] [] (.listed [] 0 "a" ["b#c"])) <|
    .cons (.move [] [] (.takeMember (by decide))) <|
    .cons (.move [] [] (.drained [] 0 "a" ["b#c"])) <|
    .cons (.move [] [] (.remove (by decide))) <|
    .cons (.report [.idle] [] (.begin second)) <|
    .cons (.report [.idle] [] (.accept (by decide))) <|
    .cons (.report [.idle] [] (.record second)) <|
    .cons (.report [.idle] [] (.miss (by decide))) <|
    .cons (.report [.idle] [] (.found (by decide))) <|
    .cons (.report [.idle] [] (.insert (by decide))) <|
    .cons (.report [.idle] [] (.leave second true)) <|
    .cons (.move [] [] (.hand [] "a" "b#c" [])) <|
    .cons (.move [] [] (.handedAll [] "a")) <|
    .single (.move [] [] .finish)

/-- Two answers that the entry is new, for one key removed and one still there; the answer in
between is the repeat. -/
theorem answers_add_up_twins :
    Runs Step (start .staged 2 1) reports settled ∧ settled.Quiet ∧
      (reports.flatMap (Event.answers true)).length =
        (reports.flatMap Event.removals).length + settled.index.entryCount ∧
      (reports.flatMap (Event.answers false)).length = settled.index.counters.renotifications := by
  have hquiet : settled.Quiet := ⟨by decide, by decide⟩
  exact ⟨runs_settled, hquiet, (answers_add_up runs_settled).2.2.2 hquiet⟩

end Twins

end System

end CallPatch
