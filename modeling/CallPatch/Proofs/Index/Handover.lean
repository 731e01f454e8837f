import CallPatch.Proofs.Index.Coverage
import CallPatch.Proofs.Index.Receipt
/-!
# Entry indexes — exactly-once hand-over

Any number of reporters work on a staging index while one consumer transfers
from it, over and over, into an installed index that nobody else changes. An
entry may be reported again while it is on its way: before its key has left the
staging table it is a repeat there, after that it is staged and moved anew, and
found installed already.

What a run keeps (`Handover.Kept`) is a ledger of its trace: the removals
against the entries handed on, those against the keys and repeats of the
installed index, and the reports begun against all the places where a key can
be. That a transfer clears what was staged when it began needs a second
invariant, of what is still ahead of it (`Mover.Covers`).
-/

namespace CallPatch

/-! ## One access -/

/-- The entry between its removal from staging and its report to the installed index. -/
def Mover.inHand : Mover → List EntryKey
  | .carrying _ owner m _ => [⟨owner, m⟩]
  | _ => []

/-- The entry of a report that has not reached the existence table. -/
def Reporter.entered : Reporter → List EntryKey
  | .entering key => [key]
  | _ => []

section

variable {ix ix' : EntryIndex} {r r' : Reporter} {m m' : Mover} {e : Event}

theorem Mover.Step.started_of_idle (h : Mover.idle.Step ix e ix' m') : e = .started := by
  cases h
  rfl

theorem Mover.Step.timeline (h : m.Step ix e ix' m') : ix'.timeline = ix.timeline := by
  cases h <;> rfl

/-- What is removed is in hand until it is handed on. -/
theorem Mover.Step.inHand (h : m.Step ix e ix' m') (hroom : ix.Room m.carried) :
    m.inHand ++ e.removals = e.handovers ++ m'.inHand := by
  cases h with
  | removeNothing absent => exact absurd (hroom.mem_existence List.mem_cons_self) absent
  | _ => rfl

/-- A key that a reporter knows of was known or is newly reported. -/
theorem Reporter.Step.mem_known (h : r.Step ix e ix' r') (joined : String) :
    (joined ∈ r'.entered.map EntryKey.joined ∨ joined ∈ ix'.existence) ↔
      (joined ∈ r.entered.map EntryKey.joined ∨ joined ∈ ix.existence) ∨
        joined ∈ e.reports.map EntryKey.joined := by
  cases h with
  | begin key => simp [entered, Event.reports, or_comm]
  | @refuse key present =>
    simp only [entered, Event.reports, List.map_cons, List.map_nil, List.mem_singleton,
      List.not_mem_nil, false_or, or_false]
    exact ⟨.inr, fun hor => hor.elim (fun heq => heq ▸ present) id⟩
  | @accept key absent => simp [entered, Event.reports, EntryIndex.addKey, or_comm]
  | _ => simp [entered, Event.reports]; try exact Iff.rfl

/-- A key that a transfer has from the index was there. -/
theorem Mover.Step.mem_known (h : m.Step ix e ix' m') (hroom : ix.Room m.carried)
    (joined : String) :
    (joined ∈ ix'.existence ∨ joined ∈ m'.inHand.map EntryKey.joined ∨
        joined ∈ e.handovers.map EntryKey.joined) ↔
      (joined ∈ ix.existence ∨ joined ∈ m.inHand.map EntryKey.joined) := by
  cases h with
  | @remove rest owner member taken present =>
    simp only [Mover.inHand, Event.handovers, EntryIndex.takeKey, List.mem_filter, List.map_cons,
      List.map_nil, List.mem_singleton, List.not_mem_nil, or_false]
    constructor
    · rintro (⟨hmem, -⟩ | rfl)
      · exact hmem
      · exact present
    · intro hmem
      by_cases heq : joined = (EntryKey.mk owner member).joined
      · exact .inr heq
      · exact .inl ⟨hmem, by simpa using heq⟩
  | removeNothing absent => exact absurd (hroom.mem_existence List.mem_cons_self) absent
  | _ => simp [Mover.inHand, Event.handovers, EntryIndex.takeMember]

end

/-! ## The hand-over -/

/-- A staging index with its reporters, and the consumer with what it fills. -/
structure Handover where
  staging : EntryIndex
  reporters : List Reporter
  consumer : Mover
  receipt : Receipt
  deriving DecidableEq, Repr

namespace Handover

/-- One thread makes one access. -/
inductive Step : Handover → Event → Handover → Prop where
  | report {ix ix' : EntryIndex} {r r' : Reporter} {e : Event} {consumer : Mover}
      {receipt : Receipt} (before after : List Reporter) (access : r.Step ix e ix' r') :
      Step ⟨ix, before ++ r :: after, consumer, receipt⟩ e
        ⟨ix', before ++ r' :: after, consumer, receipt⟩
  | move {ix ix' : EntryIndex} {m m' : Mover} {e : Event} {reporters : List Reporter}
      {receipt : Receipt} (access : m.Step ix e ix' m') :
      Step ⟨ix, reporters, m, receipt⟩ e ⟨ix', reporters, m', receipt.note ix.timeline e⟩

/-- An empty staging index with so many reporters, and a consumer for this installed index. -/
def start (installed : EntryIndex) (reporters : Nat) : Handover where
  staging := .staging
  reporters := List.replicate reporters .idle
  consumer := .idle
  receipt := { installed, difference := .staging, returned := [] }

/-- The staging index and the threads that work on it. -/
def system (h : Handover) : System where
  index := h.staging
  reporters := h.reporters
  movers := [h.consumer]

/-- The keys that are somewhere: about to be staged, staged, in hand or installed. -/
def known (h : Handover) : List String :=
  (h.reporters.flatMap Reporter.entered).map EntryKey.joined ++ h.staging.existence ++
    h.consumer.inHand.map EntryKey.joined ++ h.receipt.installed.existence

variable {h h' : Handover} {before : EntryIndex} {e : Event} {trace trace' : List Event}

theorem Step.system (hstep : Step h e h') : System.Step h.system e h'.system := by
  cases hstep with
  | report before after access => exact .report before after access
  | move access => exact .move [] [] access

/-- The ledger of a run with this trace, from an installed index that was as it was before. -/
structure Kept (before : EntryIndex) (trace : List Event) (h : Handover) : Prop where
  accounted : h.system.Accounted
  sound : h.receipt.Sound before
  /-- Each removal is followed by the hand-over of the same entry, before the next one. -/
  once : trace.flatMap Event.removals = trace.flatMap Event.handovers ++ h.consumer.inHand
  /-- Each entry handed on has added a key or was a repeat. -/
  tally : (trace.flatMap Event.handovers).length +
      (before.entryCount + before.counters.renotifications) =
    h.receipt.installed.entryCount + h.receipt.installed.counters.renotifications
  /-- The keys reported and those installed before are the ones that are somewhere. -/
  all : ∀ joined, joined ∈ h.known ↔
    joined ∈ before.existence ∨ joined ∈ (trace.flatMap Event.reports).map EntryKey.joined
  /-- Outside of a transfer there is no difference. -/
  between : h.consumer = .idle → h.receipt.difference = .staging

theorem Kept.room (hkept : Kept before trace h) : h.staging.Room h.consumer.carried := by
  have hacc : System.Accounted ⟨h.staging, h.reporters, [] ++ h.consumer :: []⟩ := hkept.accounted
  exact hacc.room_move

/-- The ledger is right at the start. -/
theorem kept_start (hrest : before.AtRest) (reporters : Nat) :
    Kept before [] (start before reporters) where
  accounted := System.accounted_start .staged reporters 1
  sound := ⟨hrest, EntryIndex.atRest_empty _, (List.append_nil _).symm⟩
  once := rfl
  tally := by simp [start]
  all joined := by
    have hentered : (List.replicate reporters Reporter.idle).flatMap Reporter.entered = [] :=
      List.flatMap_eq_nil_iff.2 fun r hr => by rw [List.eq_of_mem_replicate hr]; rfl
    simp [known, start, hentered, Mover.inHand, EntryIndex.staging, EntryIndex.empty]
  between _ := rfl

/-- A step makes a key known when it begins to report it, and loses none. -/
theorem Kept.mem_known (hkept : Kept before trace h) (hstep : Step h e h') (joined : String) :
    joined ∈ h'.known ↔ joined ∈ h.known ∨ joined ∈ e.reports.map EntryKey.joined := by
  have hroom := hkept.room
  have hsound := hkept.sound
  cases hstep with
  | @report ix ix' r r' e consumer receipt before after access =>
    have hknown := access.mem_known joined
    simp only [known, List.flatMap_append, List.flatMap_cons, List.map_append, List.mem_append]
    grind
  | @move ix ix' m m' e reporters receipt access =>
    have hknown := access.mem_known hroom joined
    have hnote := hsound.mem_note ix.timeline e joined
    rw [access.reports]
    simp only [known, List.mem_append, hnote, List.map_nil, List.not_mem_nil, or_false]
    grind

/-- One step keeps the ledger. -/
theorem Kept.step (hkept : Kept before trace h) (hstep : Step h e h') :
    Kept before (trace ++ [e]) h' := by
  have hacc := hkept.accounted.step hstep.system
  have hall : ∀ joined, joined ∈ h'.known ↔ joined ∈ before.existence ∨
      joined ∈ ((trace ++ [e]).flatMap Event.reports).map EntryKey.joined := by
    intro joined
    rw [hkept.mem_known hstep, hkept.all]
    simp [or_assoc]
  have hroom := hkept.room
  have hflat : ∀ f : Event → List EntryKey, (trace ++ [e]).flatMap f = trace.flatMap f ++ f e :=
    fun f => by simp
  cases hstep with
  | report _ _ access =>
    refine ⟨hacc, hkept.sound, ?_, ?_, hall, hkept.between⟩
    · rw [hflat, hflat, access.removals, access.handovers, List.append_nil, List.append_nil]
      exact hkept.once
    · rw [hflat, access.handovers, List.append_nil]
      exact hkept.tally
  | @move ix ix' m m' e reporters receipt access =>
    refine ⟨hacc, hkept.sound.note ix.timeline e, ?_, ?_, hall, ?_⟩
    · have honce := hkept.once
      rw [hflat, hflat, honce, List.append_assoc, access.inHand hroom, List.append_assoc]
    · have htally := hkept.tally
      have hnote := hkept.sound.tally ix.timeline e
      rw [hflat, List.length_append]
      dsimp only at htally hnote ⊢
      omega
    · -- only the end of a transfer leaves the consumer idle, and it returns the difference
      intro hidle
      cases access with
      | finish => rfl
      | _ => cases hidle

/-- Every run keeps the ledger. -/
theorem kept_of_runs {reporters : Nat} (hrest : before.AtRest)
    (hrun : Runs Step (start before reporters) trace h) : Kept before trace h := by
  induction hrun with
  | refl => exact kept_start hrest reporters
  | snoc _ hlast ih => exact ih.step hlast

/-- No key leaves the installed index. -/
theorem Kept.prefix_of_runs (hkept : Kept before trace h) (hmore : Runs Step h trace' h') :
    Kept before (trace ++ trace') h' ∧
      h.receipt.installed.existence <+: h'.receipt.installed.existence := by
  induction hmore with
  | refl =>
    rw [List.append_nil]
    exact ⟨hkept, List.prefix_rfl⟩
  | @snoc t u trace'' e _ hlast ih =>
    obtain ⟨hkept', hprefix⟩ := ih
    rw [← List.append_assoc]
    refine ⟨hkept'.step hlast, hprefix.trans ?_⟩
    cases hlast with
    | report => exact List.prefix_rfl
    | @move ix _ _ _ e => exact hkept'.sound.prefix_note ix.timeline e

/-! ## A transfer that nothing comes between -/

/-- The consumer may be left alone by the reporters. -/
theorem runs_mover {p q : EntryIndex × Mover} (hrun : Runs (Alone Mover.Step) p trace q)
    (reporters : List Reporter) (receipt : Receipt) :
    q.1.timeline = p.1.timeline ∧
      Runs Step ⟨p.1, reporters, p.2, receipt⟩ trace
        ⟨q.1, reporters, q.2, trace.foldl (Receipt.note p.1.timeline) receipt⟩ := by
  induction hrun with
  | refl => exact ⟨rfl, .refl _⟩
  | snoc _ hlast ih =>
    obtain ⟨htimeline, hearlier⟩ := ih
    cases hlast with
    | access access =>
      refine ⟨access.timeline.trans htimeline, .snoc hearlier ?_⟩
      rw [List.foldl_append, ← htimeline]
      exact .move access

/-- **A transfer alone is `EntryIndex.transfer`.** If no reporter comes between, the consumer comes
from one transfer to the next with both indexes and the difference as `transfer` has them. -/
theorem runs_transfer (staging installed : EntryIndex) (reporters : List Reporter)
    (returned : List EntryIndex) :
    ∃ trace, Runs Step ⟨staging, reporters, .idle, ⟨installed, .staging, returned⟩⟩ trace
      ⟨(staging.transfer installed).source, reporters, .idle,
        ⟨(staging.transfer installed).target, .staging,
          returned ++ [(staging.transfer installed).difference]⟩⟩ := by
  obtain ⟨trace, hrun, htells⟩ := Mover.runs_takeAll staging
  obtain ⟨-, hlifted⟩ := runs_mover hrun reporters ⟨installed, .staging, returned⟩
  rw [Receipt.foldl_note_outward, htells, List.cons_append, List.foldl_cons, List.foldl_append,
    Receipt.foldl_note_handed] at hlifted
  exact ⟨trace, hlifted⟩

/-! ## Clearing what is staged -/

/-- With no report under way and none begun, it is the consumer that steps. -/
theorem Step.of_idle (hstep : Step h e h') (hidle : ∀ r ∈ h.reporters, r = .idle)
    (hno : ∀ key, e ≠ .began key) :
    h.consumer.Step h.staging e h'.staging h'.consumer ∧ h'.reporters = h.reporters := by
  cases hstep with
  | @report ix ix' r r' e consumer receipt before after access =>
    obtain rfl := hidle r (by simp)
    cases access with
    | begin key => exact absurd rfl (hno key)
  | move access => exact ⟨access, rfl⟩

/-- Once no report is under way, the next transfer covers all that waits. -/
theorem Kept.covers (hkept : Kept before trace h) (hidle : ∀ r ∈ h.reporters, r = .idle)
    (hconsumer : h.consumer = .idle) (hmore : Runs Step h trace' h')
    (hno : ∀ key, .began key ∉ trace') :
    (∀ r ∈ h'.reporters, r = .idle) ∧
      (h'.consumer.Covers h'.staging ∨ h'.consumer = .idle ∧ .finished ∉ trace') := by
  induction hmore with
  | refl => exact ⟨hidle, .inr ⟨hconsumer, List.not_mem_nil⟩⟩
  | @snoc t u trace' e hrun hlast ih =>
    obtain ⟨hidle', hcovers⟩ := ih fun key hkey => hno key (List.mem_append_left _ hkey)
    obtain ⟨hkept', -⟩ := hkept.prefix_of_runs hrun
    have hnodup := hkept'.room.nodup_waiting hkept'.accounted.nodup
    have hother : ∀ key, e ≠ .began key :=
      fun key heq => hno key (List.mem_append_right _ (heq ▸ List.mem_cons_self))
    obtain ⟨access, hreporters⟩ := hlast.of_idle hidle' hother
    refine ⟨hreporters ▸ hidle', .inl (access.covers hnodup fun hstarted => ?_)⟩
    -- before its first access the transfer covers nothing, but that access starts it
    refine hcovers.resolve_right fun ⟨hatRest, _⟩ => hstarted ?_
    rw [hatRest] at access
    exact access.started_of_idle

/-- With no call under way and nothing pending, staging is empty. -/
theorem Kept.existence_eq_nil (hkept : Kept before trace h) (hidle : ∀ r ∈ h.reporters, r = .idle)
    (hconsumer : h.consumer = .idle) (hpending : h.staging.pending = []) :
    h.staging.existence = [] := by
  have hquiet : h.system.Quiet := ⟨hidle, fun m hm => by rw [List.mem_singleton.1 hm, hconsumer]⟩
  refine List.eq_nil_iff_forall_not_mem.2 fun joined hjoined => ?_
  obtain ⟨key, hkey, -⟩ := hkept.accounted.exists_carrier hjoined
  rw [hquiet.carriers_eq] at hkey
  change key ∈ h.staging.pending at hkey
  rw [hpending] at hkey
  cases hkey

/-- After a transfer that began when no report was under way, every key known is installed. -/
theorem Kept.known_subset (hkept : Kept before trace h) (hidle : ∀ r ∈ h.reporters, r = .idle)
    (hconsumer : h.consumer = .idle) (hmore : Runs Step h (trace' ++ [.finished]) h')
    (hno : ∀ key, .began key ∉ trace' ++ [.finished]) :
    h'.known ⊆ h'.receipt.installed.existence := by
  obtain ⟨hidle', hcovers⟩ := hkept.covers hidle hconsumer hmore hno
  have hcovers' := hcovers.resolve_right fun ⟨_, hnot⟩ => hnot (by simp)
  obtain ⟨hkept', -⟩ := hkept.prefix_of_runs hmore
  obtain ⟨t, -, hlast⟩ := hmore.last
  have hdone : h'.consumer = .idle := by
    cases hlast with
    | report _ _ access => cases access
    | move access => cases access; rfl
  rw [hdone] at hcovers'
  have hempty := hkept'.existence_eq_nil hidle' hdone hcovers'.pending_eq_nil
  have hentered : h'.reporters.flatMap Reporter.entered = [] :=
    List.flatMap_eq_nil_iff.2 fun r hr => by rw [hidle' r hr]; rfl
  rw [known, hempty, hdone, hentered]
  exact List.Subset.refl _

/-! ## The result -/

/-- What a run with this trace has handed over, to an installed index that was as it was before. -/
structure HandedOver (before : EntryIndex) (trace : List Event) (h : Handover) : Prop where
  /-- The entries removed from staging are the ones reported to the installed index, one report for
  one removal and in their order; the last may still be in hand. -/
  once : trace.flatMap Event.removals = trace.flatMap Event.handovers ++ h.consumer.inHand
  /-- No key is in the differences of two transfers. -/
  disjoint : h.receipt.differences.Pairwise
    fun d d' => ∀ joined ∈ d.existence, joined ∉ d'.existence
  /-- The keys of the differences are those added to the installed index. -/
  union : h.receipt.installed.existence =
    before.existence ++ h.receipt.differences.flatMap EntryIndex.existence
  /-- The installed index has each key once, so none of the added ones was there before. -/
  nodup : h.receipt.installed.existence.Nodup
  /-- Between two transfers all differences have been returned. -/
  between : h.consumer = .idle → h.receipt.difference = .staging
  /-- Each removal has added a key or was counted as a repeat, but for the one in hand. -/
  count : (trace.flatMap Event.removals).length +
      (before.entryCount + before.counters.renotifications) =
    h.receipt.installed.entryCount + h.receipt.installed.counters.renotifications +
      h.consumer.inHand.length

theorem Kept.handedOver (hkept : Kept before trace h) : HandedOver before trace h where
  once := hkept.once
  disjoint := hkept.sound.pairwise
  union := hkept.sound.grown
  nodup := hkept.sound.installed.nodup
  between := hkept.between
  count := by
    have htally := hkept.tally
    rw [hkept.once, List.length_append]
    omega

/-- **Each entry is handed over once.** However reports and transfers interleave, every removal from
staging is one report to the installed index, the differences part the keys that are added there,
and no key ever leaves it. Once the reporters are done and one more transfer has run, the installed
keys are those of before and those of all the reports. -/
theorem exactly_once {reporters : Nat} (hrest : before.AtRest)
    (hrun : Runs Step (start before reporters) trace h) (hmore : Runs Step h trace' h') :
    HandedOver before trace h ∧
      h.receipt.installed.existence <+: h'.receipt.installed.existence ∧
      ((∀ r ∈ h.reporters, r = .idle) → h.consumer = .idle → (∀ key, .began key ∉ trace') →
        .finished ∈ trace' → ∀ joined, joined ∈ h'.receipt.installed.existence ↔
          joined ∈ before.existence ∨
            joined ∈ (trace.flatMap Event.reports).map EntryKey.joined) := by
  have hkept := kept_of_runs hrest hrun
  obtain ⟨hkept', hprefix⟩ := hkept.prefix_of_runs hmore
  refine ⟨hkept.handedOver, hprefix, fun hidle hconsumer hno hfinished joined => ?_⟩
  have hnone : trace'.flatMap Event.reports = [] := by
    refine List.flatMap_eq_nil_iff.2 fun e he => ?_
    cases e with
    | began key => exact absurd he (hno key)
    | _ => rfl
  have hall := hkept'.all joined
  rw [List.flatMap_append, hnone, List.append_nil] at hall
  rw [← hall]
  constructor
  · exact fun hmem => List.mem_append_right _ hmem
  · intro hknown
    -- what is known was known, and so installed, when that transfer ended
    obtain ⟨front, back, rfl⟩ := List.append_of_mem hfinished
    rw [← List.singleton_append, ← List.append_assoc] at hmore hno
    obtain ⟨t, hfront, hback⟩ := hmore.split
    have hsubset := hkept.known_subset hidle hconsumer hfront
      fun key hkey => hno key (List.mem_append_left _ hkey)
    obtain ⟨hkeptt, -⟩ := hkept.prefix_of_runs hfront
    obtain ⟨-, hprefix'⟩ := hkeptt.prefix_of_runs hback
    refine hprefix'.subset (hsubset ?_)
    rw [hkeptt.all, List.flatMap_append]
    rw [hall] at hknown
    exact hknown.imp id fun hmem => by
      rw [List.map_append]
      exact List.mem_append_left _ hmem

/-! ## An entry reported twice -/

namespace Twice

/-- An entry that is installed from the start. -/
def old : EntryKey := { owner := "Acme", member := "put" }

/-- An entry that is reported twice. -/
def key : EntryKey := { owner := "Acme", member := "load" }

/-- The installed index before the run. -/
def base : EntryIndex := (EntryIndex.installed.report old).1

/-- The staging index with the entry in it. -/
def staged : EntryIndex where
  existence := [key.joined]
  groups := [⟨"Acme", ["load"]⟩]
  counters := .zero
  timeline := { Timeline.empty .staged with staged := [key.joined] }

/-- The first transfer has handed the entry on; it was reported again meanwhile. -/
def again : Handover where
  staging := staged
  reporters := [.idle, .idle]
  consumer := .idle
  receipt :=
    { installed := (EntryIndex.receive staged.timeline (base, .staging) key).1
      difference := .staging
      returned := [(EntryIndex.receive staged.timeline (base, .staging) key).2] }

/-- The two reports around the first removal. -/
def reports : List Event :=
  [.began key, .inner, .inner, .inner, .inner, .inner, .returned key true] ++
    [.started, .inner, .inner, .inner, .inner, .inner, .inner, .inner, .removed key] ++
    [.began key, .inner, .inner, .inner, .inner, .returned key true] ++
    [.handed key, .inner, .finished]

theorem runs_again : Runs Step (start base 2) reports again :=
  .cons (.report [] [.idle] (.begin key)) <|
    .cons (.report [] [.idle] (.accept (by decide))) <|
    .cons (.report [] [.idle] (.record key)) <|
    .cons (.report [] [.idle] (.miss (by decide))) <|
    .cons (.report [] [.idle] (.found (by decide))) <|
    .cons (.report [] [.idle] (.insert (by decide))) <|
    .cons (.report [] [.idle] (.leave key true)) <|
    .cons (.move .start) <|
    .cons (.move (.seeGroup (g := 0) (by decide))) <|
    .cons (.move (.surveyed [0])) <|
    .cons (.move (.enter rfl)) <|
    .cons (.move (.seeMember (m := "load") (by decide))) <|
    .cons (.move (.listed [] 0 "Acme" ["load"])) <|
    .cons (.move (.takeMember (by decide))) <|
    .cons (.move (.drained [] 0 "Acme" ["load"])) <|
    .cons (.move (.remove (by decide))) <|
    .cons (.report [.idle] [] (.begin key)) <|
    .cons (.report [.idle] [] (.accept (by decide))) <|
    .cons (.report [.idle] [] (.record key)) <|
    .cons (.report [.idle] [] (.find (g := 0) (by decide))) <|
    .cons (.report [.idle] [] (.insert (by decide))) <|
    .cons (.report [.idle] [] (.leave key true)) <|
    .cons (.move (.hand [] "Acme" "load" [])) <|
    .cons (.move (.handedAll [] "Acme")) <|
    .single (.move .finish)

/-- Then the second transfer has moved it anew. -/
def moved : Handover where
  staging := { staged with existence := [], groups := [.empty "Acme"] }
  reporters := [.idle, .idle]
  consumer := .idle
  receipt :=
    { installed := again.receipt.installed.renotified
      difference := .staging
      returned := again.receipt.returned ++ [.staging] }

/-- The second transfer. -/
def transfer : List Event :=
  [.started, .inner, .inner, .inner, .inner, .inner, .inner, .inner, .removed key, .handed key,
    .inner, .finished]

theorem runs_moved : Runs Step again transfer moved :=
  .cons (.move .start) <|
    .cons (.move (.seeGroup (g := 0) (by decide))) <|
    .cons (.move (.surveyed [0])) <|
    .cons (.move (.enter rfl)) <|
    .cons (.move (.seeMember (m := "load") (by decide))) <|
    .cons (.move (.listed [] 0 "Acme" ["load"])) <|
    .cons (.move (.takeMember (by decide))) <|
    .cons (.move (.drained [] 0 "Acme" ["load"])) <|
    .cons (.move (.remove (by decide))) <|
    .cons (.move (.hand [] "Acme" "load" [])) <|
    .cons (.move (.handedAll [] "Acme")) <|
    .single (.move .finish)

/-- The entry is moved twice, and is in the first difference only. -/
theorem exactly_once_moved :
    HandedOver base reports again ∧
      moved.receipt.returned.map EntryIndex.existence = [[key.joined], []] ∧
      ∀ joined, joined ∈ moved.receipt.installed.existence ↔
        joined ∈ base.existence ∨ joined ∈ [key.joined, key.joined] := by
  have hrest : base.AtRest := (EntryIndex.atRest_empty .patches).report old
  have hno : ∀ key, .began key ∉ transfer := by
    intro key hkey
    simp [transfer] at hkey
  obtain ⟨hhanded, -, hall⟩ := exactly_once hrest runs_again runs_moved
  exact ⟨hhanded, rfl, hall (by decide) rfl hno (by decide)⟩

end Twice

end Handover

end CallPatch
