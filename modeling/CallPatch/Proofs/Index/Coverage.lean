import CallPatch.Proofs.Index.Threads
/-!
# Entry indexes — what a transfer still comes to

A listing may miss what is inserted meanwhile, but not what is there
throughout. So while nothing is inserted, a transfer has every member of the
index ahead of it from its start on (`Mover.Step.covers`), and none is left at
its end.
-/

namespace CallPatch.Mover

open EntryIndex

/-- The transfer will come to the member of the group at the place, if the member stays there. -/
def Ahead : Mover → Nat → String → Prop
  | .idle, _, _ => False
  | .surveying unseen listed, g, _ => g ∈ unseen ∨ g ∈ listed
  | .visiting rest, g, _ | .handing rest _ _, g, _ | .carrying rest _ _ _, g, _ => g ∈ rest
  | .listing rest group _ unseen listed, g, member =>
    g ∈ rest ∨ g = group ∧ (member ∈ unseen ∨ member ∈ listed)
  | .draining rest group _ left _, g, member => g ∈ rest ∨ g = group ∧ member ∈ left

/-- The transfer will come to every member that waits. -/
def Covers (m : Mover) (ix : EntryIndex) : Prop :=
  ∀ g, ∀ member ∈ ix.membersAt g, m.Ahead g member

variable {ix ix' : EntryIndex} {m m' : Mover} {e : Event}

theorem lt_of_mem_membersAt {g : Nat} {member : String} (h : member ∈ ix.membersAt g) :
    g < ix.groups.length := by
  rcases hs : ix.groups[g]? with - | s
  · simp [membersAt, hs] at h
  · exact (List.getElem?_eq_some_iff.1 hs).1

theorem mem_erase_or_eq {α : Type} [DecidableEq α] {a b : α} {as : List α} (h : a ∈ as) :
    a ∈ as.erase b ∨ a = b := by
  by_cases hab : a = b
  · exact .inr hab
  · exact .inl ((List.mem_erase_of_ne hab).2 h)

/-- **A transfer passes over nothing.** Its start covers all that waits, and one access after
another keeps what waits covered. -/
theorem Step.covers (h : Step ix m e ix' m') (hnodup : ix.waiting.Nodup)
    (hcovers : e ≠ .started → m.Covers ix) : m'.Covers ix' := by
  intro g member hmember
  cases h with
  | start => exact .inl (List.mem_range.2 (lt_of_mem_membersAt hmember))
  | @seeGroup unseen listed g' present =>
    rcases hcovers nofun g member hmember with hunseen | hlisted
    · rcases mem_erase_or_eq (b := g') hunseen with herase | rfl
      · exact .inl herase
      · exact .inr (by simp)
    · exact .inr (List.mem_append_left _ hlisted)
  | surveyed listed => exact (hcovers nofun g member hmember).resolve_left List.not_mem_nil
  | @enter rest g' s group =>
    rcases List.mem_cons.1 (hcovers nofun g member hmember) with rfl | hrest
    · rw [membersAt_eq group] at hmember
      exact .inr ⟨rfl, .inl hmember⟩
    · exact .inl hrest
  | @seeMember rest g' owner member' unseen listed present =>
    rcases hcovers nofun g member hmember with hrest | ⟨hg, hunseen | hlisted⟩
    · exact .inl hrest
    · rcases mem_erase_or_eq (b := member') hunseen with herase | rfl
      · exact .inr ⟨hg, .inl herase⟩
      · exact .inr ⟨hg, .inr (by simp)⟩
    · exact .inr ⟨hg, .inr (List.mem_append_left _ hlisted)⟩
  | @passMember rest g' owner member' unseen listed absent =>
    rcases hcovers nofun g member hmember with hrest | ⟨hg, hunseen | hlisted⟩
    · exact .inl hrest
    · rcases mem_erase_or_eq (b := member') hunseen with herase | rfl
      · exact .inr ⟨hg, .inl herase⟩
      · exact absurd (hg ▸ hmember) absent
    · exact .inr ⟨hg, .inr hlisted⟩
  | listed rest g' owner listed =>
    rcases hcovers nofun g member hmember with hrest | ⟨hg, hunseen | hlisted⟩
    · exact .inl hrest
    · cases hunseen
    · exact .inr ⟨hg, hlisted⟩
  | @takeMember rest g' owner member' left taken present =>
    obtain ⟨hbefore, hother⟩ := mem_membersAt_takeMember (nodup_membersAt hnodup g') hmember
    rcases hcovers nofun g member hbefore with hrest | ⟨hg, hleft⟩
    · exact .inl hrest
    · exact .inr ⟨hg, (List.mem_cons.1 hleft).resolve_left (hother hg)⟩
  | @missMember rest g' owner member' left taken absent =>
    rcases hcovers nofun g member hmember with hrest | ⟨hg, hleft⟩
    · exact .inl hrest
    · rcases List.mem_cons.1 hleft with rfl | hleft
      · exact absurd (hg ▸ hmember) absent
      · exact .inr ⟨hg, hleft⟩
  | drained rest g' owner taken =>
    rcases hcovers nofun g member hmember with hrest | ⟨-, hleft⟩
    · exact hrest
    · cases hleft
  | remove | removeNothing | hand | handedAll => exact hcovers nofun g member hmember
  | finish => exact absurd (hcovers nofun g member hmember) List.not_mem_nil

/-- What an idle transfer covers is empty. -/
theorem Covers.pending_eq_nil (h : Covers .idle ix) : ix.pending = [] := by
  refine List.flatMap_eq_nil_iff.2 fun s hs => ?_
  obtain ⟨g, hg⟩ := List.mem_iff_getElem?.1 hs
  have hnone : s.members = [] := by
    refine List.eq_nil_iff_forall_not_mem.2 fun member hmember => ?_
    exact h g member (by rwa [membersAt_eq hg])
  rw [hnone, List.map_nil]

end CallPatch.Mover
