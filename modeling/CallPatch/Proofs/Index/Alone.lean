import CallPatch.Proofs.Index.Threads
/-!
# Entry indexes — calls that nothing comes between

What the threads do access by access is what `EntryIndex` says of a whole
call: a report that no other thread interrupts comes to `EntryIndex.report`,
and an uninterrupted transfer takes out what `EntryIndex.takeAll` takes out.
-/

namespace CallPatch

/-! ## Runs without notice -/

/-- A run of which nobody else notes anything. -/
def Silently {σ : Type} (step : σ → Event → σ → Prop) (s t : σ) : Prop :=
  ∃ n, Runs step s (List.replicate n .inner) t

namespace Silently

variable {σ : Type} {step : σ → Event → σ → Prop} {s t u : σ}

theorem refl (s : σ) : Silently step s s :=
  ⟨0, .refl s⟩

theorem cons (h : step s .inner t) (h' : Silently step t u) : Silently step s u := by
  obtain ⟨n, hrun⟩ := h'
  exact ⟨n + 1, .cons h hrun⟩

theorem single (h : step s .inner t) : Silently step s t :=
  .cons h (.refl t)

end Silently

/-- Runs of one system are runs of another that has it as a part. -/
theorem Runs.map {σ τ ε : Type} {step : σ → ε → σ → Prop} {step' : τ → ε → τ → Prop} (f : σ → τ)
    (hstep : ∀ {s e t}, step s e t → step' (f s) e (f t)) {s t : σ} {trace : List ε}
    (h : Runs step s trace t) : Runs step' (f s) trace (f t) := by
  induction h with
  | refl => exact .refl _
  | snoc _ hlast ih => exact .snoc ih (hstep hlast)

/-- The accesses of one thread, of either kind, that no other thread comes between. -/
inductive Alone {θ : Type} (step : EntryIndex → θ → Event → EntryIndex → θ → Prop) :
    EntryIndex × θ → Event → EntryIndex × θ → Prop where
  | access {ix ix' : EntryIndex} {t t' : θ} {e : Event} (h : step ix t e ix' t') :
      Alone step (ix, t) e (ix', t')

/-- A change at the end of a list. -/
theorem modify_append_singleton {α : Type} (f : α → α) (as : List α) (a : α) :
    (as ++ [a]).modify as.length f = as ++ [f a] := by
  rw [List.modify_eq_take_cons_drop (by simp)]
  simp

namespace EntryIndex

variable {ix : EntryIndex} {key : EntryKey} {owner : String} {g : Nat}

/-! ## Reporting -/

/-- A report of what is there is a repetition, whatever the owner and the member are. -/
theorem report_of_mem (h : key.joined ∈ ix.existence) : ix.report key = (ix.renotified, false) := by
  rw [report, if_pos (List.contains_iff_mem.2 h)]

/-- Any other adds its key, notes the arrival and places the member. -/
theorem report_of_notMem (h : key.joined ∉ ix.existence) :
    ix.report key = ((ix.addKey key).noteArrival key).place key := by
  rw [report, if_neg (by simpa using h)]
  rfl

theorem group?_of_groupIndex?_none (h : ix.groupIndex? owner = none) : ix.group? owner = none := by
  refine List.find?_eq_none.2 fun s hs => ?_
  simpa using List.findIdx?_eq_none_iff.1 h s hs

/-- The group that is found is the first one of the owner. -/
theorem group?_of_groupIndex? (h : ix.groupIndex? owner = some g) :
    ix.group? owner = ix.groups[g]? := by
  obtain ⟨hlt, hown, hearlier⟩ := List.findIdx?_eq_some_iff_getElem.1 h
  rw [List.getElem?_eq_getElem hlt]
  refine List.find?_eq_some_iff_getElem.2 ⟨hown, g, hlt, rfl, fun j hj => ?_⟩
  simpa using hearlier j hj

end EntryIndex

namespace Reporter

open EntryIndex

/-- Alone, a reporter finds or opens the group and inserts the member there. -/
theorem silently_place (ix : EntryIndex) (key : EntryKey) :
    Silently (Alone Step) (ix, .recorded key) ((ix.place key).1, .done key (ix.place key).2) := by
  rcases hg : ix.groupIndex? key.owner with - | g
  · -- no group yet: one is opened, and the member is its first
    have hplace : ix.place key =
        ((ix.openGroup key.owner).addMember ix.groups.length key.member, true) := by
      simp only [place, group?_of_groupIndex?_none hg, addMember, openGroup,
        modify_append_singleton]
      rfl
    rw [hplace]
    refine .cons (.access (.miss hg)) (.cons (.access (.found hg)) (.single (.access (.insert ?_))))
    simp [membersAt, openGroup, MemberSet.empty]
  · obtain ⟨s, hs, hown⟩ := (belongs_of_groupIndex? hg).exists_group
    have hgroup : ix.group? key.owner = some s := by rw [group?_of_groupIndex? hg, hs]
    refine .cons (.access (.find hg)) ?_
    -- whether the member is in the set is all that is left to see
    by_cases hm : key.member ∈ s.members
    · have hplace : ix.place key = (ix.insertRaced, false) := by
        simp [place, hgroup, MemberSet.contains, hm]
      rw [hplace]
      refine .cons (.access (.collide ?_)) (.single (.access (.race key)))
      rwa [membersAt_eq hs]
    · have hplace : ix.place key = (ix.addMember g key.member, true) := by
        simp [place, hgroup, MemberSet.contains, hm, addMember, modifyFirst_eq_modify hg]
      rw [hplace]
      refine .single (.access (.insert ?_))
      rwa [membersAt_eq hs]

/-- **A report alone is `EntryIndex.report`.** It leaves the index that `report` leaves, and
returns what `report` returns. -/
theorem runs_report (ix : EntryIndex) (key : EntryKey) :
    ∃ n, Runs (Alone Step) (ix, .idle)
      (.began key :: List.replicate n .inner ++ [.returned key (ix.report key).2])
      ((ix.report key).1, .idle) := by
  have hinner : Silently (Alone Step) (ix, .entering key)
      ((ix.report key).1, .done key (ix.report key).2) := by
    by_cases h : key.joined ∈ ix.existence
    · rw [report_of_mem h]
      exact .cons (.access (.refuse h)) (.single (.access (.renotify key)))
    · rw [report_of_notMem h]
      exact .cons (.access (.accept h)) (.cons (.access (.record key)) (silently_place _ key))
  obtain ⟨n, hrun⟩ := hinner
  exact ⟨n, .snoc (.cons (.access (.begin key)) hrun) (.access (.leave key _))⟩

end Reporter

/-! ## Transferring -/

/-- What the receiver of a transfer is told. -/
def Event.outward : Event → Bool
  | .started | .handed _ | .finished => true
  | _ => false

namespace Mover

open EntryIndex

/-- A run that tells the receiver of these events and of no others. -/
def Tells (s : EntryIndex × Mover) (events : List Event) (s' : EntryIndex × Mover) : Prop :=
  ∃ trace, Runs (Alone Step) s trace s' ∧ trace.filter Event.outward = events

variable {s t u : EntryIndex × Mover} {events events' : List Event} {e : Event}

theorem Tells.refl (s : EntryIndex × Mover) : Tells s [] s :=
  ⟨[], .refl s, rfl⟩

theorem Tells.cons (h : Alone Step s e t) (h' : Tells t events u) :
    Tells s ([e].filter Event.outward ++ events) u := by
  obtain ⟨trace, hrun, rfl⟩ := h'
  exact ⟨e :: trace, .cons h hrun, by rw [← List.filter_append]; rfl⟩

/-- Outward events of one part come before those of the next. -/
theorem Tells.trans (h : Tells s events t) (h' : Tells t events' u) :
    Tells s (events ++ events') u := by
  obtain ⟨trace, hrun, rfl⟩ := h
  obtain ⟨trace', hrun', rfl⟩ := h'
  exact ⟨trace ++ trace', hrun.trans hrun', List.filter_append ..⟩

/-- The index without these keys. -/
def without (ix : EntryIndex) (joined : List String) : EntryIndex :=
  { ix with existence := ix.existence.filter fun key => !joined.contains key }

theorem without_nil (ix : EntryIndex) : without ix [] = ix := by
  have hall : ix.existence.filter (fun key => !([] : List String).contains key) = ix.existence :=
    List.filter_eq_self.2 fun _ _ => rfl
  rw [without, hall]

theorem without_without (ix : EntryIndex) (joined joined' : List String) :
    without (without ix joined) joined' = without ix (joined ++ joined') := by
  simp only [without, List.filter_filter]
  congr 1
  refine List.filter_congr fun key _ => ?_
  simp [Bool.and_comm]

/-- Taking a key out leaves the index without it. -/
theorem takeKey_eq_without (ix : EntryIndex) (owner member : String) :
    ix.takeKey ⟨owner, member⟩ = without ix [joinKey owner member] := by
  have hsame : ∀ key ∈ ix.existence,
      decide (key ≠ joinKey owner member) = !(List.contains [joinKey owner member] key) := by
    intro key _
    by_cases hkey : key = joinKey owner member <;> simp [hkey]
  rw [without, ← List.filter_congr hsame]
  rfl

/-- The groups are listed in the order of the table. -/
theorem tells_survey {ix : EntryIndex} {unseen : List Nat}
    (hunseen : ∀ g ∈ unseen, g < ix.groups.length) (listed : List Nat) :
    Tells (ix, .surveying unseen listed) [] (ix, .visiting (listed ++ unseen)) := by
  induction unseen generalizing listed with
  | nil =>
    rw [List.append_nil]
    exact .cons (.access (.surveyed listed)) (.refl _)
  | cons g unseen ih =>
    have hrest := ih (fun g' hg' => hunseen g' (List.mem_cons_of_mem _ hg')) (listed ++ [g])
    have hsee : Alone Step (ix, .surveying (g :: unseen) listed) .inner
        (ix, .surveying ((g :: unseen).erase g) (listed ++ [g])) :=
      .access (.seeGroup (hunseen g List.mem_cons_self))
    rw [List.erase_cons_head] at hsee
    rw [List.append_assoc] at hrest
    exact .cons hsee hrest

/-- The members are listed in the order they came in. -/
theorem tells_list {ix : EntryIndex} {g : Nat} {unseen : List String}
    (hunseen : ∀ member ∈ unseen, member ∈ ix.membersAt g) (rest : List Nat) (owner : String)
    (listed : List String) :
    Tells (ix, .listing rest g owner unseen listed) []
      (ix, .draining rest g owner (listed ++ unseen) []) := by
  induction unseen generalizing listed with
  | nil =>
    rw [List.append_nil]
    exact .cons (.access (.listed rest g owner listed)) (.refl _)
  | cons member unseen ih =>
    have hrest := ih (fun m hm => hunseen m (List.mem_cons_of_mem _ hm)) (listed ++ [member])
    have hsee : Alone Step (ix, .listing rest g owner (member :: unseen) listed) .inner
        (ix, .listing rest g owner ((member :: unseen).erase member) (listed ++ [member])) :=
      .access (.seeMember (hunseen member List.mem_cons_self))
    rw [List.erase_cons_head] at hsee
    rw [List.append_assoc] at hrest
    exact .cons hsee hrest

/-- A group whose members are all listed is emptied. -/
theorem tells_drain {ix : EntryIndex} {g : Nat} {owner : String} {left : List String}
    (hg : ix.groups[g]? = some ⟨owner, left⟩) (rest : List Nat) (taken : List String) :
    Tells (ix, .draining rest g owner left taken) []
      ({ ix with groups := ix.groups.modify g fun s => s.drain.1 },
        .handing rest owner (taken ++ left)) := by
  induction left generalizing ix taken with
  | nil =>
    have hsame : (ix.groups.modify g fun s => s.drain.1) = ix.groups := by
      refine List.ext_getElem? fun i => ?_
      rw [List.getElem?_modify]
      by_cases hi : g = i
      · subst hi
        rw [hg]
        simp [MemberSet.drain, MemberSet.empty]
      · simp [hi]
    rw [hsame, List.append_nil]
    exact .cons (.access (.drained rest g owner taken)) (.refl _)
  | cons member left ih =>
    have htake : Alone Step (ix, .draining rest g owner (member :: left) taken) .inner
        (ix.takeMember g member, .draining rest g owner left (taken ++ [member])) :=
      .access (.takeMember (by rw [membersAt_eq hg]; exact List.mem_cons_self))
    have hleft : (ix.takeMember g member).groups[g]? = some ⟨owner, left⟩ := by
      simp [EntryIndex.takeMember, hg, MemberSet.remove]
    have hrest := ih hleft (taken ++ [member])
    have hgroups : ((ix.takeMember g member).groups.modify g fun s => s.drain.1) =
        ix.groups.modify g fun s => s.drain.1 := List.modify_modify_eq ..
    rw [hgroups, List.append_assoc] at hrest
    exact .cons htake hrest

/-- The members taken leave the existence table one by one, and each is handed on. -/
theorem tells_hand (ix : EntryIndex) (rest : List Nat) (owner : String) (taken : List String) :
    Tells (ix, .handing rest owner taken) (taken.map fun m => .handed ⟨owner, m⟩)
      (without ix (taken.map (joinKey owner)), .visiting rest) := by
  induction taken generalizing ix with
  | nil =>
    simp only [List.map_nil, without_nil]
    exact .cons (.access (.handedAll rest owner)) (.refl _)
  | cons member taken ih =>
    have hremove : Tells (ix, .handing rest owner (member :: taken)) []
        (without ix [joinKey owner member], .carrying rest owner member taken) := by
      by_cases h : joinKey owner member ∈ ix.existence
      · rw [← takeKey_eq_without]
        exact .cons (.access (.remove h)) (.refl _)
      · have hsame : without ix [joinKey owner member] = ix := by
          rw [without, List.filter_eq_self.2]
          intro key hkey
          have : key ≠ joinKey owner member := fun heq => h (heq ▸ hkey)
          simpa using this
        rw [hsame]
        exact .cons (.access (.removeNothing h)) (.refl _)
    have hhand := Tells.cons (.access (.hand rest owner member taken))
      (ih (without ix [joinKey owner member]))
    rw [without_without] at hhand
    exact hremove.trans hhand

/-- One group is taken out. -/
theorem tells_visit {ix : EntryIndex} {g : Nat} {s : MemberSet} (hg : ix.groups[g]? = some s)
    (rest : List Nat) :
    Tells (ix, .visiting (g :: rest)) (s.members.map fun m => .handed ⟨s.owner, m⟩)
      (without { ix with groups := ix.groups.modify g fun s => s.drain.1 } s.joinedKeys,
        .visiting rest) := by
  have hlist := tells_list (fun m hm => by rwa [membersAt_eq hg]) rest s.owner []
  have hs : ix.groups[g]? = some ⟨s.owner, s.members⟩ := hg
  have hdrain := tells_drain hs rest []
  exact .cons (.access (.enter hg)) (hlist.trans (hdrain.trans (tells_hand _ rest s.owner _)))

/-- The groups from some place on are taken out. -/
theorem tells_visitAll {ix : EntryIndex} {done todo : List MemberSet}
    (hgroups : ix.groups = done ++ todo) :
    Tells (ix, .visiting (List.range' done.length todo.length))
      (todo.flatMap fun s => s.members.map fun m => .handed ⟨s.owner, m⟩)
      (without { ix with groups := done ++ todo.map fun s => s.drain.1 }
        (todo.flatMap MemberSet.joinedKeys), .visiting []) := by
  induction todo generalizing ix done with
  | nil =>
    simp only [List.map_nil, List.flatMap_nil, without_nil, ← hgroups]
    exact .refl _
  | cons s todo ih =>
    have hg : ix.groups[done.length]? = some s := by simp [hgroups]
    have hvisit := tells_visit hg (List.range' (done.length + 1) todo.length)
    have hnext : (ix.groups.modify done.length fun s => s.drain.1) =
        (done ++ [s.drain.1]) ++ todo := by
      rw [hgroups, List.modify_eq_take_cons_drop (by simp)]
      simp
    rw [hnext] at hvisit
    have hrest := @ih (without { ix with groups := (done ++ [s.drain.1]) ++ todo } s.joinedKeys)
      (done ++ [s.drain.1]) rfl
    rw [List.length_append] at hrest
    have hall := hvisit.trans hrest
    -- both runs take keys out of one table and leave the other fields alone
    have hboth := without_without { ix with groups := done ++ (s :: todo).map fun s => s.drain.1 }
      s.joinedKeys (todo.flatMap MemberSet.joinedKeys)
    rw [List.flatMap_cons, List.flatMap_cons, ← hboth]
    simp only [List.append_assoc] at hall
    exact hall

/-- **A transfer alone takes out what `EntryIndex.takeAll` takes out.** It leaves the index that
`takeAll` leaves, and hands on the entries that `takeAll` returns, in their order. -/
theorem runs_takeAll (ix : EntryIndex) :
    Tells (ix, .idle) (.started :: ix.takeAll.2.map .handed ++ [.finished])
      (ix.takeAll.1, .idle) := by
  have hplace : ∀ g ∈ List.range ix.groups.length, g < ix.groups.length :=
    fun g hg => List.mem_range.1 hg
  have hsurvey := tells_survey hplace []
  have hgroups : ix.groups = [] ++ ix.groups := rfl
  have hvisit := tells_visitAll hgroups
  have hplaces : List.range' ([] : List MemberSet).length ix.groups.length =
      List.range ix.groups.length := List.range_eq_range'.symm
  have hleft : without { ix with groups := [] ++ ix.groups.map fun s => s.drain.1 }
      (ix.groups.flatMap MemberSet.joinedKeys) = ix.takeAll.1 := by
    rw [← waiting_eq]
    rfl
  have hhanded : (ix.groups.flatMap fun s => s.members.map fun m => Event.handed ⟨s.owner, m⟩) =
      ix.takeAll.2.map .handed := by
    simp only [takeAll, pending, List.map_flatMap, List.map_map]
    rfl
  rw [hleft, hhanded, hplaces] at hvisit
  have hfinish : Tells (ix.takeAll.1, .visiting []) [.finished] (ix.takeAll.1, .idle) :=
    .cons (.access .finish) (.refl _)
  exact .cons (.access .start) ((hsurvey.trans hvisit).trans hfinish)

end Mover

end CallPatch
