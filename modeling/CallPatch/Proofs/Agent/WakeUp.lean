import CallPatch.CallSite
import CallPatch.Proofs.Index.Carriers
/-!
# Agents — no wake-up is lost

The coordinator of an agent sleeps while nothing is staged. It looks at the
existence table and falls asleep under one lock, so a key cannot come in
between; but a caller notifies it long after its key came in, and only if its
report was a first one. A caller that finds its key known notifies nobody: it
relies on another one.

What is due is stated of each key: while the coordinator sleeps, every staged
key has a caller that put it there and has its notification still ahead
(`Coordination.Alert`). That a first report always ends as one, so that the
notification does come, is what the account of carriers gives.
-/

namespace CallPatch

/-- The coordinator, between two accesses. -/
inductive Coordinator where
  /-- Before a look at the existence table. -/
  | checking
  | asleep
  /-- In a transfer of what is staged. -/
  | moving (m : Mover)
  /-- Asks the host to retransform owners. -/
  | requesting
  deriving DecidableEq, Repr

namespace Coordinator

/-- A notification ends the sleep. -/
def woken : Coordinator → Coordinator
  | .asleep => .checking
  | c => c

/-- Where an access of its transfer takes the coordinator. -/
def moved (m : Mover) : Event → Coordinator
  | .finished => .requesting
  | _ => .moving m

/-- Its transfer, idle outside of one. -/
def mover : Coordinator → Mover
  | .moving m => m
  | _ => .idle

theorem woken_ne_asleep (c : Coordinator) : c.woken ≠ .asleep := by
  cases c <;> nofun

theorem mover_woken (c : Coordinator) : c.woken.mover = c.mover := by
  cases c <;> rfl

theorem mover_moved {ix ix' : EntryIndex} {m m' : Mover} {e : Event} (h : m.Step ix e ix' m') :
    (moved m' e).mover = m' := by
  cases h <;> rfl

/-- Whoever moves is awake. -/
theorem moved_ne_asleep (m : Mover) (e : Event) : moved m e ≠ .asleep := by
  cases e <;> nofun

end Coordinator

/-- A staging index, the threads that report call sites to it, and the coordinator. -/
structure Coordination where
  staging : EntryIndex
  callers : List Reporter
  coordinator : Coordinator
  deriving DecidableEq, Repr

namespace Coordination

/-- One thread makes one access. A call site with a defect and a native caller are turned down
before the index is reached. A caller whose report was a first one notifies the coordinator before
it leaves. The coordinator may also wake up without notice. -/
inductive Step : Coordination → Event → Coordination → Prop where
  | call {ix : EntryIndex} {c : Coordinator} (before after : List Reporter) {site : CallSite}
      (sound : site.defect? = none) (patchable : site.caller.native = false) :
      Step ⟨ix, before ++ .idle :: after, c⟩ (.began site.key)
        ⟨ix, before ++ .entering site.key :: after, c⟩
  | report {ix ix' : EntryIndex} {r r' : Reporter} {e : Event} {c : Coordinator}
      (before after : List Reporter) (access : r.Step ix e ix' r')
      (within : e = .inner ∨ ∃ key, e = .returned key false) :
      Step ⟨ix, before ++ r :: after, c⟩ e ⟨ix', before ++ r' :: after, c⟩
  | notify {ix : EntryIndex} {c : Coordinator} (before after : List Reporter) (key : EntryKey) :
      Step ⟨ix, before ++ .done key true :: after, c⟩ (.returned key true)
        ⟨ix, before ++ .idle :: after, c.woken⟩
  | sleep {ix : EntryIndex} {callers : List Reporter} (empty : ix.existence = []) :
      Step ⟨ix, callers, .checking⟩ .inner ⟨ix, callers, .asleep⟩
  | proceed {ix : EntryIndex} {callers : List Reporter} (work : ix.existence ≠ []) :
      Step ⟨ix, callers, .checking⟩ .inner ⟨ix, callers, .moving .idle⟩
  | stir (ix : EntryIndex) (callers : List Reporter) :
      Step ⟨ix, callers, .asleep⟩ .inner ⟨ix, callers, .checking⟩
  | move {ix ix' : EntryIndex} {callers : List Reporter} {m m' : Mover} {e : Event}
      (access : m.Step ix e ix' m') :
      Step ⟨ix, callers, .moving m⟩ e ⟨ix', callers, .moved m' e⟩
  | requested (ix : EntryIndex) (callers : List Reporter) :
      Step ⟨ix, callers, .requesting⟩ .inner ⟨ix, callers, .checking⟩

/-- A new agent with so many callers. -/
def start (callers : Nat) : Coordination where
  staging := .staging
  callers := List.replicate callers .idle
  coordinator := .checking

/-- The threads can come to this state, whichever of them steps when. -/
def Reachable (c : Coordination) : Prop :=
  ∃ callers trace, Runs Step (start callers) trace c

theorem reachable_start (callers : Nat) : Reachable (start callers) :=
  ⟨callers, [], .refl _⟩

/-- What is reached goes on by steps. -/
theorem Reachable.step {c c' : Coordination} {e : Event} (h : Reachable c) (hstep : Step c e c') :
    Reachable c' := by
  obtain ⟨callers, trace, hrun⟩ := h
  exact ⟨callers, trace ++ [e], .snoc hrun hstep⟩

/-- The index and the threads that work on it. -/
def system (c : Coordination) : System where
  index := c.staging
  reporters := c.callers
  movers := [c.coordinator.mover]

end Coordination

/-- The entry whose first report this is, up to the notification. -/
def Reporter.owed : Reporter → List EntryKey
  | .admitted key | .recorded key | .groupless key | .holding key _ | .done key true => [key]
  | _ => []

/-- What comes into the existence table is owed a notification by the reporter that put it
there. -/
theorem Reporter.Step.mem_owed {ix ix' : EntryIndex} {r r' : Reporter} {e : Event}
    (h : r.Step ix e ix' r') {joined : String} (hjoined : joined ∈ ix'.existence) :
    joined ∈ ix.existence ∨ ∃ key ∈ r'.owed, key.joined = joined := by
  cases h with
  | @accept key absent =>
    rcases List.mem_append.1 hjoined with hold | hnew
    · exact .inl hold
    · obtain rfl : joined = key.joined := by simpa using hnew
      exact .inr ⟨key, List.mem_cons_self, rfl⟩
  | _ => exact .inl hjoined

/-- A notification that is owed stays owed up to the return. -/
theorem Reporter.Step.owed_subset {ix ix' : EntryIndex} {r r' : Reporter} {e : Event}
    (h : r.Step ix e ix' r') (silent : ∀ key, e ≠ .returned key true) (hr : r.Grounded ix)
    (hnodup : ix.existence.Nodup) (hroom : ix.Room r.carried) : r.owed ⊆ r'.owed := by
  cases h with
  | collide present => exact absurd present (hroom.notMem_membersAt hnodup hr)
  | leave key fresh =>
    cases fresh with
    | true => exact absurd rfl (silent key)
    | false => exact List.nil_subset _
  | _ => first | exact List.Subset.refl _ | exact List.nil_subset _

namespace Coordination

variable {c c' : Coordination} {e : Event}

/-- While the coordinator sleeps, each staged key is owed a notification. -/
structure Alert (c : Coordination) : Prop where
  accounted : c.system.Accounted
  owed : c.coordinator = .asleep → ∀ joined ∈ c.staging.existence,
    ∃ r ∈ c.callers, ∃ key ∈ r.owed, key.joined = joined

theorem alert_start (callers : Nat) : Alert (start callers) where
  accounted := System.accounted_start .staged callers 1
  owed h := nomatch h

/-- A caller's step keeps the notifications owed, unless it is the notification. -/
theorem Alert.report {ix ix' : EntryIndex} {before after : List Reporter} {r r' : Reporter}
    {c : Coordinator} (h : Alert ⟨ix, before ++ r :: after, c⟩) (access : r.Step ix e ix' r')
    (silent : ∀ key, e ≠ .returned key true) : Alert ⟨ix', before ++ r' :: after, c⟩ := by
  have hacc : System.Accounted ⟨ix, before ++ r :: after, [c.mover]⟩ := h.accounted
  refine ⟨hacc.report access, fun hasleep joined hjoined => ?_⟩
  have hkept : r.owed ⊆ r'.owed :=
    access.owed_subset silent (hacc.reporters r (by simp)) hacc.nodup hacc.room_report
  -- a key that was there is owed by the same caller as before, a new one by this caller
  rcases access.mem_owed hjoined with hold | ⟨key, hkey, hjoined⟩
  · obtain ⟨r₀, hr₀, key, hkey, hjoined⟩ := h.owed hasleep joined hold
    rcases List.mem_append.1 hr₀ with hr₀ | hr₀
    · exact ⟨r₀, List.mem_append_left _ hr₀, key, hkey, hjoined⟩
    · rcases List.mem_cons.1 hr₀ with rfl | hr₀
      · exact ⟨r', by simp, key, hkept hkey, hjoined⟩
      · exact ⟨r₀, by simp [hr₀], key, hkey, hjoined⟩
  · exact ⟨r', by simp, key, hkey, hjoined⟩

/-- Nothing is owed to a coordinator that is awake. -/
theorem Alert.awake (hacc : c.system.Accounted) (hawake : c.coordinator ≠ .asleep) : Alert c :=
  ⟨hacc, fun hasleep => absurd hasleep hawake⟩

/-- One step keeps the notifications owed. -/
theorem Alert.step (hstep : Step c e c') (h : Alert c) : Alert c' := by
  cases hstep with
  | @call ix c before after site => exact h.report (.begin site.key) nofun
  | report before after access within =>
    refine h.report access fun key heq => ?_
    rcases within with rfl | ⟨key', rfl⟩ <;> cases heq
  | @notify ix c before after key =>
    have hleft : System.Accounted ⟨ix, before ++ .idle :: after, [c.mover]⟩ :=
      System.Accounted.report h.accounted (.leave key true)
    rw [← Coordinator.mover_woken c] at hleft
    exact .awake hleft (Coordinator.woken_ne_asleep c)
  | sleep empty =>
    refine ⟨h.accounted, fun _ joined hjoined => ?_⟩
    rw [empty] at hjoined
    cases hjoined
  | @move ix ix' callers m m' e access =>
    have hacc : System.Accounted ⟨ix, callers, [] ++ m :: []⟩ := h.accounted
    have hmoved := hacc.move access
    rw [← Coordinator.mover_moved access] at hmoved
    exact .awake hmoved (Coordinator.moved_ne_asleep m' e)
  | proceed | stir | requested => exact .awake h.accounted nofun

/-- Every run keeps the notifications owed. -/
theorem alert_of_reachable (h : c.Reachable) : Alert c := by
  obtain ⟨callers, trace, hrun⟩ := h
  exact hrun.invariant Alert.step (alert_start callers)

/-- **No wake-up is lost.** Whenever the coordinator is asleep, every staged key was put there by a
caller that has its notification still ahead. So if no caller is in a report and the coordinator
is asleep, no key is staged and no member is pending. -/
theorem no_wakeUp_lost (h : c.Reachable) (hasleep : c.coordinator = .asleep) :
    (∀ joined ∈ c.staging.existence, ∃ r ∈ c.callers, ∃ key ∈ r.owed, key.joined = joined) ∧
      ((∀ r ∈ c.callers, r = .idle) → c.staging.existence = [] ∧ c.staging.pending = []) := by
  have halert := alert_of_reachable h
  have howed := halert.owed hasleep
  refine ⟨howed, fun hidle => ?_⟩
  have hempty : c.staging.existence = [] := by
    refine List.eq_nil_iff_forall_not_mem.2 fun joined hjoined => ?_
    obtain ⟨r, hr, key, hkey, -⟩ := howed joined hjoined
    rw [hidle r hr] at hkey
    cases hkey
  refine ⟨hempty, List.eq_nil_iff_forall_not_mem.2 fun key hkey => ?_⟩
  -- a pending entry is a carrier, so its key would be staged
  have hmem := halert.accounted.mem_existence (List.mem_append_right _ hkey)
  change key.joined ∈ c.staging.existence at hmem
  rw [hempty] at hmem
  cases hmem

/-! ## A sleep with a key staged -/

namespace Slept

/-- A call of `put` that is worth a report. -/
def site : CallSite :=
  .ofCaller { owner := "Acme", member := "load", native := false }

/-- The coordinator found nothing and fell asleep; then a caller put its key into the table. -/
def notified : Coordination where
  staging := EntryIndex.staging.addKey site.key
  callers := [.admitted site.key, .idle]
  coordinator := .asleep

theorem reachable_notified : notified.Reachable :=
  reachable_start 2
    |>.step (.sleep rfl)
    |>.step (.call [] [.idle] (show site.defect? = none from rfl) rfl)
    |>.step (.report [] [.idle] (.accept (by decide)) (.inl rfl))

/-- The caller that put the key there still has its notification ahead. -/
theorem owed_notified :
    notified.staging.existence = [site.key.joined] ∧
      ∃ r ∈ notified.callers, ∃ key ∈ r.owed, key.joined = site.key.joined :=
  ⟨rfl, (no_wakeUp_lost reachable_notified rfl).1 site.key.joined List.mem_cons_self⟩

end Slept

end Coordination

end CallPatch
