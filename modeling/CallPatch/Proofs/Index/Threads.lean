import CallPatch.Proofs.Index.Accesses
/-!
# Entry indexes — threads

A report and a transfer as threads run them, one guarded access in each step.
Between two steps any other thread may step, so a thread keeps in its own state
all that it has learnt so far and may act on what is no longer so. A step is
labelled with what a bystander would note of it.

A transfer lists the groups, and then the members of one group after another,
while others go on inserting: a listing shows all that is there throughout, in
any order, and may show or miss what comes in meanwhile.

One step moves the key of an entry along without losing or doubling it
(`Reporter.Step.balance`, `Mover.Step.balance`): what a thread carries and what
is waiting changes as the existence table does.
-/

namespace CallPatch

/-- What a bystander notes of a step. -/
inductive Event where
  | inner
  /-- A report was begun. -/
  | began (key : EntryKey)
  /-- A report returned, and said whether it was a first one. -/
  | returned (key : EntryKey) (fresh : Bool)
  /-- A transfer was started. -/
  | started
  /-- A transfer removed the key of an entry from the existence table. -/
  | removed (key : EntryKey)
  /-- A transfer handed an entry on. -/
  | handed (key : EntryKey)
  /-- A transfer came to its end. -/
  | finished
  deriving DecidableEq, Repr

/-! ## Runs -/

/-- The labelled steps lead from the one state to the other, with these labels. -/
inductive Runs {σ ε : Type} (step : σ → ε → σ → Prop) : σ → List ε → σ → Prop where
  | refl (s : σ) : Runs step s [] s
  | snoc {s t u : σ} {trace : List ε} {e : ε} (earlier : Runs step s trace t)
      (last : step t e u) : Runs step s (trace ++ [e]) u

namespace Runs

variable {σ ε : Type} {step : σ → ε → σ → Prop} {s t u : σ} {trace trace' : List ε} {e : ε}

theorem single (h : step s e t) : Runs step s [e] t :=
  .snoc (.refl s) h

theorem trans (h : Runs step s trace t) (h' : Runs step t trace' u) :
    Runs step s (trace ++ trace') u := by
  induction h' with
  | refl => rwa [List.append_nil]
  | snoc _ hlast ih =>
    rw [← List.append_assoc]
    exact .snoc ih hlast

theorem cons (h : step s e t) (h' : Runs step t trace u) : Runs step s (e :: trace) u :=
  (single h).trans h'

theorem eq_of_nil (h : Runs step s [] t) : s = t := by
  generalize hnone : [] = none at h
  cases h with
  | refl => rfl
  | snoc => simp at hnone

/-- A run that is not empty has a last step. -/
theorem last (h : Runs step s (trace ++ [e]) u) : ∃ t, Runs step s trace t ∧ step t e u := by
  generalize hall : trace ++ [e] = all at h
  cases h with
  | refl => simp at hall
  | snoc hrun hlast =>
    obtain ⟨rfl, he⟩ := List.append_inj' hall rfl
    obtain rfl : e = _ := by simpa using he
    exact ⟨_, hrun, hlast⟩

/-- A run passes through a state at each point of its trace. -/
theorem split (h : Runs step s (trace ++ trace') u) :
    ∃ t, Runs step s trace t ∧ Runs step t trace' u := by
  generalize hall : trace ++ trace' = all at h
  induction h generalizing trace' with
  | refl =>
    obtain ⟨rfl, rfl⟩ := List.append_eq_nil_iff.1 hall
    exact ⟨_, .refl _, .refl _⟩
  | @snoc t u earlier e hrun hlast ih =>
    -- the last step belongs to the second part, unless that is empty
    rcases List.eq_nil_or_concat trace' with rfl | ⟨front, last, rfl⟩
    · rw [List.append_nil] at hall
      exact ⟨u, hall ▸ .snoc hrun hlast, .refl u⟩
    · rw [List.concat_eq_append, ← List.append_assoc] at hall
      obtain ⟨hfront, he⟩ := List.append_inj' hall rfl
      obtain rfl : last = e := by simpa using he
      obtain ⟨m, hm, hm'⟩ := ih hfront
      rw [List.concat_eq_append]
      exact ⟨m, hm, .snoc hm' hlast⟩

/-- What every step preserves, a run preserves. -/
theorem invariant {P : σ → Prop} (hstep : ∀ {s e t}, step s e t → P s → P t)
    (h : Runs step s trace t) (hs : P s) : P t := by
  induction h with
  | refl => exact hs
  | snoc _ hlast ih => exact hstep hlast ih

end Runs

/-! ## Reporting -/

/-- A thread that reports, between two accesses. -/
inductive Reporter where
  | idle
  /-- Before the existence table. -/
  | entering (key : EntryKey)
  /-- The key was known. -/
  | known (key : EntryKey)
  /-- The key is in the existence table, put there by this report. -/
  | admitted (key : EntryKey)
  /-- Its arrival is recorded too. -/
  | recorded (key : EntryKey)
  /-- No group was found for the owner. -/
  | groupless (key : EntryKey)
  /-- Before the member set of the group at the place. -/
  | holding (key : EntryKey) (group : Nat)
  /-- The member was in the set already. -/
  | collided (key : EntryKey)
  /-- Before the return. -/
  | done (key : EntryKey) (fresh : Bool)
  deriving DecidableEq, Repr

namespace Reporter

open EntryIndex

/-- One access of a report. -/
inductive Step (ix : EntryIndex) : Reporter → Event → EntryIndex → Reporter → Prop where
  | begin (key : EntryKey) : Step ix .idle (.began key) ix (.entering key)
  | refuse {key : EntryKey} (present : key.joined ∈ ix.existence) :
      Step ix (.entering key) .inner ix (.known key)
  | accept {key : EntryKey} (absent : key.joined ∉ ix.existence) :
      Step ix (.entering key) .inner (ix.addKey key) (.admitted key)
  | renotify (key : EntryKey) : Step ix (.known key) .inner ix.renotified (.done key false)
  | record (key : EntryKey) : Step ix (.admitted key) .inner (ix.noteArrival key) (.recorded key)
  | find {key : EntryKey} {g : Nat} (found : ix.groupIndex? key.owner = some g) :
      Step ix (.recorded key) .inner ix (.holding key g)
  | miss {key : EntryKey} (missing : ix.groupIndex? key.owner = none) :
      Step ix (.recorded key) .inner ix (.groupless key)
  | join {key : EntryKey} {g : Nat} (found : ix.groupIndex? key.owner = some g) :
      Step ix (.groupless key) .inner ix.groupRaced (.holding key g)
  | found {key : EntryKey} (missing : ix.groupIndex? key.owner = none) :
      Step ix (.groupless key) .inner (ix.openGroup key.owner) (.holding key ix.groups.length)
  | insert {key : EntryKey} {g : Nat} (absent : key.member ∉ ix.membersAt g) :
      Step ix (.holding key g) .inner (ix.addMember g key.member) (.done key true)
  | collide {key : EntryKey} {g : Nat} (present : key.member ∈ ix.membersAt g) :
      Step ix (.holding key g) .inner ix (.collided key)
  | race (key : EntryKey) : Step ix (.collided key) .inner ix.insertRaced (.done key false)
  | leave (key : EntryKey) (fresh : Bool) :
      Step ix (.done key fresh) (.returned key fresh) ix .idle

/-- The entry whose key the reporter has put into the existence table, up to the insertion of the
member. -/
def carried : Reporter → List EntryKey
  | .admitted key | .recorded key | .groupless key | .holding key _ => [key]
  | _ => []

/-- The group that the reporter holds is the one of the owner. -/
def Grounded (ix : EntryIndex) : Reporter → Prop
  | .holding key g => ix.Belongs g key.owner
  | _ => True

variable {ix ix' : EntryIndex} {r r' : Reporter} {e : Event}

/-- A report adds at most the group of one new owner. -/
theorem Step.owners (h : Step ix r e ix' r') :
    ix'.owners = ix.owners ∨ ∃ owner ∉ ix.owners, ix'.owners = ix.owners ++ [owner] := by
  cases h with
  | found missing =>
    exact .inr ⟨_, notMem_owners_of_groupIndex? missing, owners_openGroup ix _⟩
  | insert => exact .inl (owners_addMember ix _ _)
  | _ => exact .inl rfl

theorem Grounded.mono (h : r.Grounded ix) (hgrow : ix.owners <+: ix'.owners) : r.Grounded ix' := by
  cases r with
  | holding key g => exact EntryIndex.Belongs.mono h hgrow
  | _ => trivial

theorem Step.grounded (h : Step ix r e ix' r') : r'.Grounded ix' := by
  cases h with
  | find found => exact belongs_of_groupIndex? found
  | join found => exact show ix.Belongs _ _ from belongs_of_groupIndex? found
  | found => exact belongs_openGroup ix _
  | _ => trivial

/-- The existence table stays without repeats. -/
theorem Step.nodup (h : Step ix r e ix' r') (hnodup : ix.existence.Nodup) :
    ix'.existence.Nodup := by
  cases h with
  | accept absent => exact nodup_addKey hnodup absent
  | _ => exact hnodup

/-- **A report moves its key along.** Where a key of the existence table has no second carrier,
what the reporter carries and what is waiting grows exactly as the existence table does. -/
theorem Step.balance (h : Step ix r e ix' r') (hr : r.Grounded ix)
    (hnodup : ix.existence.Nodup) (hroom : ix.Room r.carried) (joined : String) :
    (r'.carried.map EntryKey.joined).count joined + ix'.waiting.count joined +
        ix.existence.count joined =
      (r.carried.map EntryKey.joined).count joined + ix.waiting.count joined +
        ix'.existence.count joined := by
  cases h with
  | @accept key absent =>
    -- the key comes into the table, and the reporter carries it from here on
    show [key.joined].count joined + ix.waiting.count joined + ix.existence.count joined =
      0 + ix.waiting.count joined + (ix.existence ++ [key.joined]).count joined
    rw [List.count_append]
    omega
  | @found key missing =>
    show [key.joined].count joined + (ix.openGroup key.owner).waiting.count joined + _ = _
    rw [waiting_openGroup]
    rfl
  | @insert key g absent =>
    -- the member in its set takes over from the reporter
    show 0 + (ix.addMember g key.member).waiting.count joined + ix.existence.count joined =
      [key.joined].count joined + ix.waiting.count joined + ix.existence.count joined
    rw [count_waiting_addMember hr absent]
    show _ + (_ + [key.joined].count joined) + _ = _
    omega
  | collide present => exact absurd present (hroom.notMem_membersAt hnodup hr)
  | _ => rfl

end Reporter

/-! ## Transferring -/

/-- A thread that transfers, between two accesses. Groups are named by their place in the owner
table. -/
inductive Mover where
  | idle
  /-- Lists the groups: `unseen` were there at the start and have not come up yet. -/
  | surveying (unseen listed : List Nat)
  /-- Before the next group. -/
  | visiting (rest : List Nat)
  /-- Lists the members of a group. -/
  | listing (rest : List Nat) (group : Nat) (owner : String) (unseen listed : List String)
  /-- Removes the listed members one by one. -/
  | draining (rest : List Nat) (group : Nat) (owner : String) (left taken : List String)
  /-- Before the key of the next member taken. -/
  | handing (rest : List Nat) (owner : String) (taken : List String)
  /-- The key has left the existence table, the entry is not handed on yet. -/
  | carrying (rest : List Nat) (owner member : String) (taken : List String)
  deriving DecidableEq, Repr

namespace Mover

open EntryIndex

/-- One access of a transfer. -/
inductive Step (ix : EntryIndex) : Mover → Event → EntryIndex → Mover → Prop where
  | start : Step ix .idle .started ix (.surveying (List.range ix.groups.length) [])
  | seeGroup {unseen listed : List Nat} {g : Nat} (present : g < ix.groups.length) :
      Step ix (.surveying unseen listed) .inner ix (.surveying (unseen.erase g) (listed ++ [g]))
  | surveyed (listed : List Nat) : Step ix (.surveying [] listed) .inner ix (.visiting listed)
  | enter {rest : List Nat} {g : Nat} {s : MemberSet} (group : ix.groups[g]? = some s) :
      Step ix (.visiting (g :: rest)) .inner ix (.listing rest g s.owner s.members [])
  | seeMember {rest : List Nat} {g : Nat} {owner m : String} {unseen listed : List String}
      (present : m ∈ ix.membersAt g) :
      Step ix (.listing rest g owner unseen listed) .inner ix
        (.listing rest g owner (unseen.erase m) (listed ++ [m]))
  | passMember {rest : List Nat} {g : Nat} {owner m : String} {unseen listed : List String}
      (absent : m ∉ ix.membersAt g) :
      Step ix (.listing rest g owner unseen listed) .inner ix
        (.listing rest g owner (unseen.erase m) listed)
  | listed (rest : List Nat) (g : Nat) (owner : String) (listed : List String) :
      Step ix (.listing rest g owner [] listed) .inner ix (.draining rest g owner listed [])
  | takeMember {rest : List Nat} {g : Nat} {owner m : String} {left taken : List String}
      (present : m ∈ ix.membersAt g) :
      Step ix (.draining rest g owner (m :: left) taken) .inner (ix.takeMember g m)
        (.draining rest g owner left (taken ++ [m]))
  | missMember {rest : List Nat} {g : Nat} {owner m : String} {left taken : List String}
      (absent : m ∉ ix.membersAt g) :
      Step ix (.draining rest g owner (m :: left) taken) .inner ix
        (.draining rest g owner left taken)
  | drained (rest : List Nat) (g : Nat) (owner : String) (taken : List String) :
      Step ix (.draining rest g owner [] taken) .inner ix (.handing rest owner taken)
  | remove {rest : List Nat} {owner m : String} {taken : List String}
      (present : joinKey owner m ∈ ix.existence) :
      Step ix (.handing rest owner (m :: taken)) (.removed ⟨owner, m⟩) (ix.takeKey ⟨owner, m⟩)
        (.carrying rest owner m taken)
  | removeNothing {rest : List Nat} {owner m : String} {taken : List String}
      (absent : joinKey owner m ∉ ix.existence) :
      Step ix (.handing rest owner (m :: taken)) .inner ix (.carrying rest owner m taken)
  | hand (rest : List Nat) (owner m : String) (taken : List String) :
      Step ix (.carrying rest owner m taken) (.handed ⟨owner, m⟩) ix (.handing rest owner taken)
  | handedAll (rest : List Nat) (owner : String) :
      Step ix (.handing rest owner []) .inner ix (.visiting rest)
  | finish : Step ix (.visiting []) .finished ix .idle

/-- The entries whose members the thread has removed and whose keys it has not. -/
def carried : Mover → List EntryKey
  | .draining _ _ owner _ taken | .handing _ owner taken | .carrying _ owner _ taken =>
    taken.map fun m => ⟨owner, m⟩
  | _ => []

/-- The group that the thread works on is the one of the owner. -/
def Grounded (ix : EntryIndex) : Mover → Prop
  | .listing _ g owner _ _ | .draining _ g owner _ _ => ix.Belongs g owner
  | _ => True

variable {ix ix' : EntryIndex} {m m' : Mover} {e : Event}

/-- A transfer leaves the owners where they are. -/
theorem Step.owners (h : Step ix m e ix' m') : ix'.owners = ix.owners := by
  cases h with
  | takeMember => exact owners_takeMember ix _ _
  | _ => rfl

theorem Grounded.mono (h : m.Grounded ix) (hgrow : ix.owners <+: ix'.owners) : m.Grounded ix' := by
  cases m with
  | listing | draining => exact EntryIndex.Belongs.mono h hgrow
  | _ => trivial

theorem Step.grounded (h : Step ix m e ix' m') (hm : m.Grounded ix) : m'.Grounded ix' := by
  cases h with
  | enter group => exact belongs_of_getElem? group
  | takeMember =>
    unfold Grounded Belongs
    rw [owners_takeMember]
    exact hm
  | seeMember | passMember | listed | missMember => exact hm
  | _ => trivial

/-- The existence table stays without repeats. -/
theorem Step.nodup (h : Step ix m e ix' m') (hnodup : ix.existence.Nodup) :
    ix'.existence.Nodup := by
  cases h with
  | remove => exact hnodup.filter _
  | _ => exact hnodup

/-- **A transfer moves keys along.** Where every key it carries is in the existence table, what it
carries and what is waiting shrinks exactly as the existence table does. -/
theorem Step.balance (h : Step ix m e ix' m') (hm : m.Grounded ix)
    (hnodup : ix.existence.Nodup) (hroom : ix.Room m.carried) (joined : String) :
    (m'.carried.map EntryKey.joined).count joined + ix'.waiting.count joined +
        ix.existence.count joined =
      (m.carried.map EntryKey.joined).count joined + ix.waiting.count joined +
        ix'.existence.count joined := by
  cases h with
  | @takeMember rest g owner member left taken present =>
    -- the thread takes over from the member in its set
    have htake := count_waiting_takeMember hm present joined
    simp only [carried, List.map_append, List.count_append, List.map_cons, List.map_nil]
    show _ + [joinKey owner member].count joined + _ + ix.existence.count joined =
      _ + _ + ix.existence.count joined
    omega
  | @remove rest owner member taken present =>
    have hkey : (EntryKey.mk owner member).joined ∈ ix.existence := present
    have hremove := count_takeKey hnodup hkey joined
    show ((taken.map fun m => EntryKey.mk owner m).map EntryKey.joined).count joined +
        ix.waiting.count joined + _ =
      ([(EntryKey.mk owner member).joined] ++
        (taken.map fun m => EntryKey.mk owner m).map EntryKey.joined).count joined +
        ix.waiting.count joined + _
    rw [List.count_append]
    omega
  | removeNothing absent => exact absurd (hroom.mem_existence List.mem_cons_self) absent
  | _ => rfl

end Mover

end CallPatch
