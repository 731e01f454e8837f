import CallPatch.Proofs.Patch.Capability
import CallPatch.Proofs.Patch.EntryPoints
import Mathlib.Data.List.Nodup
/-!
# Patching — members that can be told apart

Callers look a member up by its name and descriptor and take the first that has them, so
whatever stands behind it is out of reach. An extension renames a member and adds three.
It asks for the marker, a `put` and a `set` and for nothing else: a store whose author wrote
a `put$fastPath` by hand is extended like any other, and the author's fast path is the one
that callers find (`Shadowed.fastPath_shadowed`).

Up to their order, the names and descriptors of an extended store are those it had and the
three of `Store.addedHandles` (`Artifact.perm_handles_extended`). So the members of a store
can be told apart after an extension just when they could be before and none of the three
was in use (`Artifact.distinct_extended_iff`).
-/

namespace CallPatch

namespace Store

/-- The names and descriptors that a store has more of once it is extended. -/
def addedHandles : List (String × String) :=
  [(keptSlowPath, putDesc), (fastPath, setDesc), (alternativeSlowPath, putDesc)]

theorem nodup_addedHandles : addedHandles.Nodup := by
  decide

end Store

namespace Artifact

variable {a b : Artifact} {name desc : String}

/-- The members can be told apart: no two have both the name and the descriptor in common. -/
def Distinct (a : Artifact) : Prop :=
  (a.members.map Member.handle).Nodup

/-- A member has the name and descriptor. -/
def Has (a : Artifact) (handle : String × String) : Prop :=
  handle ∈ a.members.map Member.handle

instance : Decidable a.Distinct :=
  inferInstanceAs (Decidable (List.Nodup _))

instance (handle : String × String) : Decidable (a.Has handle) :=
  inferInstanceAs (Decidable (_ ∈ _))

theorem extend_eq_extended (h : a.extend = .ok b) : b = a.extended := by
  obtain ⟨-, -, rfl⟩ := extend_eq_ok_iff.1 h
  rfl

/-- A name that no member has is found by nobody. -/
theorem isNamed_eq_false_of_not_has (h : ¬ a.Has (name, desc)) :
    ∀ m ∈ a.members, m.isNamed name desc = false := by
  intro m hm
  rw [Member.isNamed_eq_false_iff]
  rintro ⟨rfl, rfl⟩
  exact h (List.mem_map_of_mem hm)

/-- **What an extended store has.** The place of its `put` is taken by the member that was one, and
the new `put` stands behind: apart from the order, three are added to what there was. -/
theorem perm_handles_extended (hput : (a.member? Store.put Store.putDesc).isSome) :
    (a.extended.members.map Member.handle).Perm
      (a.members.map Member.handle ++ Store.addedHandles) := by
  obtain ⟨m, hm⟩ := Option.isSome_iff_exists.1 hput
  obtain ⟨hnamed, before, after, hmembers, hbefore⟩ := List.find?_eq_some_iff_append.1 hm
  obtain ⟨hname, hdesc⟩ := Member.isNamed_iff.1 hnamed
  have hhandle : m.handle = (Store.put, Store.putDesc) := Prod.ext hname hdesc
  have hdemoted : (Store.demote m).handle = (Store.keptSlowPath, Store.putDesc) :=
    Prod.ext rfl hdesc
  have hextended : a.extended.members.map Member.handle =
      before.map Member.handle ++ (Store.keptSlowPath, Store.putDesc) ::
        (after.map Member.handle ++ (Store.put, Store.putDesc) :: Store.addedHandles.tail) := by
    rw [extended, hmembers, modifyFirst_append_cons (fun m' hm' => by simpa using hbefore m' hm')
      hnamed, List.map_append, List.map_append, List.map_cons, hdemoted, List.append_assoc]
    rfl
  have hhad : a.members.map Member.handle ++ Store.addedHandles =
      before.map Member.handle ++ (Store.put, Store.putDesc) ::
        (after.map Member.handle ++
          (Store.keptSlowPath, Store.putDesc) :: Store.addedHandles.tail) := by
    rw [hmembers, List.map_append, List.map_cons, hhandle, List.append_assoc]
    rfl
  -- the two lists are the same but for the kept `put` and the new one, which trade places
  have htrade (x y : String × String) (l l' : List (String × String)) :
      (x :: (l ++ y :: l')).Perm (y :: (l ++ x :: l')) :=
    ((List.perm_middle.cons x).trans (.swap y x _)).trans (List.perm_middle.symm.cons y)
  rw [hextended, hhad]
  exact (htrade _ _ _ _).append_left _

/-- Members can be told apart after an extension if they could be before and what is added is
new. -/
theorem distinct_extended_iff (hput : (a.member? Store.put Store.putDesc).isSome) :
    a.extended.Distinct ↔ a.Distinct ∧ ∀ handle ∈ Store.addedHandles, ¬ a.Has handle := by
  rw [Distinct, (perm_handles_extended hput).nodup_iff, List.nodup_append']
  constructor
  · rintro ⟨hdistinct, -, hdisjoint⟩
    exact ⟨hdistinct, fun handle hadded hhas => hdisjoint hhas hadded⟩
  · rintro ⟨hdistinct, hnew⟩
    exact ⟨hdistinct, Store.nodup_addedHandles, fun handle hhas hadded => hnew handle hadded hhas⟩

end Artifact

variable {a : Artifact} {bytes bytes' : Bytes}

/-- **The members of an extended store can be told apart unless one of the new names was in use.**
The `put` that notifies is found in any case. The first `put` is found under its new name if no
member had that name, and each of the other two entry points is found unless a member of the
store itself was called so, which is then the one that is found. -/
theorem distinct_iff_of_extendStore (hdecode : Artifact.decode bytes = .ok a)
    (hdistinct : a.Distinct) (hextend : extendStore bytes = .ok ⟨bytes', true⟩) :
    ∃ b, Artifact.decode bytes' = .ok b ∧
      (b.Distinct ↔ ∀ handle ∈ Store.addedHandles, ¬ a.Has handle) ∧
      b.member? Store.put Store.putDesc = some (Store.notifyingPut a.name) ∧
      (¬ a.Has (Store.keptSlowPath, Store.putDesc) →
        ∃ m, a.member? Store.put Store.putDesc = some m ∧
          b.member? Store.keptSlowPath Store.putDesc = some (Store.demote m)) ∧
      b.member? Store.fastPath Store.setDesc =
        (a.member? Store.fastPath Store.setDesc).or (some (Store.fastPathMember a.name)) ∧
      b.member? Store.alternativeSlowPath Store.putDesc =
        (a.member? Store.alternativeSlowPath Store.putDesc).or
          (some (Store.alternativeSlowPathMember a.name)) := by
  obtain ⟨a', ha', ⟨-, hsame⟩ | ⟨-, b, hb, bytes'', hencode, hbytes⟩⟩ :=
    extendStore_eq_ok_iff.1 hextend
  · cases hsame
  obtain rfl : a = a' := Except.ok.inj (hdecode.symm.trans ha')
  obtain rfl : bytes' = bytes'' := congrArg Extended.bytes hbytes
  obtain ⟨-, hput, -⟩ := Artifact.extend_eq_ok_iff.1 hb
  obtain rfl := Artifact.extend_eq_extended hb
  refine ⟨a.extended, Artifact.decode_encode hencode, ?_, Artifact.member?_extended_put hdistinct,
    ?_, ?_, ?_⟩
  · rw [Artifact.distinct_extended_iff hput]
    exact and_iff_right hdistinct
  · intro hfree
    obtain ⟨m, hm⟩ := Option.isSome_iff_exists.1 hput
    have hkept := Artifact.member?_extended_kept hput
      (Artifact.isNamed_eq_false_of_not_has hfree)
    rw [hm] at hkept
    exact ⟨m, hm, hkept⟩
  · exact Artifact.member?_extended_added (by decide) (by decide)
  · exact Artifact.member?_extended_added (by decide) (by decide)

/-! ## A fast path written by hand -/

namespace Shadowed

/-- A store as an extension expects it. -/
def plain : Artifact where
  name := "acme/Store"
  supertypes := [Store.storeInterface]
  members := [
    { name := Store.put, desc := Store.putDesc, access := .pub, code := [.load 2, .retValue] },
    { name := Store.set, desc := Store.setDesc, access := .pub, code := [.ret] }]

/-- A fast path that does nothing. -/
def ownFastPath : Member where
  name := Store.fastPath
  desc := Store.setDesc
  access := .pub
  code := [.ret]

/-- The store with a fast path of its own. -/
def shadowing : Artifact :=
  { plain with members := plain.members ++ [ownFastPath] }

/-- The members of a plain store can be told apart once it is extended. -/
theorem distinct_plain : ∃ bytes bytes' b, Artifact.decode bytes = .ok plain ∧
    extendStore bytes = .ok ⟨bytes', true⟩ ∧ Artifact.decode bytes' = .ok b ∧ b.Distinct ∧
      b.member? Store.fastPath Store.setDesc = some (Store.fastPathMember plain.name) := by
  obtain ⟨bytes, bytes', hdecode, -, hextend⟩ := exists_extendStore (a := plain)
    (b := plain.extended) (by decide) rfl (by decide +kernel) (by decide +kernel)
  obtain ⟨b, hb, hdistinct, -, -, hfast, -⟩ := distinct_iff_of_extendStore hdecode
    (by decide) hextend
  exact ⟨bytes, bytes', b, hdecode, hextend, hb, hdistinct.2 (by decide), hfast⟩

/-- The store with a fast path of its own is extended too. Two members then have the name of the
fast path, and it is the one that does nothing that is found. -/
theorem fastPath_shadowed : ∃ bytes bytes' b, Artifact.decode bytes = .ok shadowing ∧
    shadowing.Distinct ∧ extendStore bytes = .ok ⟨bytes', true⟩ ∧ Artifact.decode bytes' = .ok b ∧
      ¬ b.Distinct ∧ b.member? Store.fastPath Store.setDesc = some ownFastPath ∧
        ownFastPath ≠ Store.fastPathMember shadowing.name := by
  obtain ⟨bytes, bytes', hdecode, hdecode', hextend⟩ := exists_extendStore (a := shadowing)
    (b := shadowing.extended) (by decide) rfl (by decide +kernel) (by decide +kernel)
  exact ⟨bytes, bytes', shadowing.extended, hdecode, by decide, hextend, hdecode', by decide, rfl,
    by decide⟩

end Shadowed

end CallPatch
