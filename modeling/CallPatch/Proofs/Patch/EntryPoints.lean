import CallPatch.Patch.Extension
import CallPatch.Proofs.Machine.Calls
/-!
# Patching — the members of an extended store

Where a look-up in an extended store leads. A store is fit for extension when
none of its members or own calls has one of the names an extension adds
(`Artifact.Extensible`). Then the new entry points are found under their
names, the first `put` is found under the name it was kept by, and everything
else is found where it was.
-/

namespace CallPatch

namespace Store

/-- The names an extension adds. -/
def addedNames : List String :=
  [keptSlowPath, fastPath, alternativeSlowPath]

end Store

/-- What a member is looked up by. -/
def Member.handle (m : Member) : String × String :=
  (m.name, m.desc)

theorem Member.isNamed_iff {m : Member} {name desc : String} :
    m.isNamed name desc = true ↔ m.name = name ∧ m.desc = desc := by
  simp [isNamed]

theorem Member.isNamed_eq_false_iff {m : Member} {name desc : String} :
    m.isNamed name desc = false ↔ ¬ (m.name = name ∧ m.desc = desc) := by
  rw [← isNamed_iff, Bool.not_eq_true]

namespace Artifact

/-- A member has the name, or some member calls a member of the artifact by it. -/
def Mentions (a : Artifact) (name : String) : Prop :=
  ∃ m ∈ a.members, m.name = name ∨ ∃ kind desc, .invoke kind a.name name desc ∈ m.code

/-- A store that can be extended, with no second `put` and none of the new names in use. -/
structure Extensible (a : Artifact) : Prop where
  foreign : a.name ≠ Store.notifyOwner
  unmarked : a.declares Store.marker = false
  distinct : (a.members.map fun m => (m.name, m.desc)).Nodup
  put : (a.member? Store.put Store.putDesc).isSome
  set : (a.member? Store.set Store.setDesc).isSome
  fresh : ∀ name ∈ Store.addedNames, ¬ a.Mentions name

/-- The store with the capability. -/
def extended (a : Artifact) : Artifact where
  name := a.name
  supertypes := a.supertypes ++ [Store.marker]
  members :=
    modifyFirst (Member.isNamed Store.put Store.putDesc) Store.demote a.members
      ++ Store.entryPoints a.name

variable {a : Artifact}

theorem Extensible.extend_eq (h : a.Extensible) : a.extend = .ok a.extended := by
  have hset := h.set
  have hput := h.put
  rw [← Option.not_isNone, Bool.not_eq_true'] at hset hput
  rw [extend, if_neg (by simp [hset]), if_neg (by simp [hput])]
  rfl

theorem Extensible.name_notMem (h : a.Extensible) {m : Member} (hm : m ∈ a.members) :
    m.name ∉ Store.addedNames :=
  fun hname => h.fresh m.name hname ⟨m, hm, .inl rfl⟩

/-- Of members with different names or descriptors, one is the `put`. -/
theorem pairwise_put (h : (a.members.map Member.handle).Nodup) :
    a.members.Pairwise fun m m' => m.isNamed Store.put Store.putDesc = true →
      m'.isNamed Store.put Store.putDesc = false := by
  refine (List.pairwise_map.1 h).imp fun {m m'} hne hm => ?_
  rw [Member.isNamed_iff] at hm
  rw [Member.isNamed_eq_false_iff, ← hm.1, ← hm.2]
  rintro ⟨hname, hdesc⟩
  exact hne (Prod.ext hname.symm hdesc.symm)

/-! ## Look-ups -/

theorem member?_extended (name desc : String) :
    a.extended.member? name desc =
      ((modifyFirst (Member.isNamed Store.put Store.putDesc) Store.demote a.members).find?
        (Member.isNamed name desc)).or
        ((Store.entryPoints a.name).find? (Member.isNamed name desc)) :=
  List.find?_append

/-- **Every other member is found where it was.** -/
theorem member?_extended_of_ne {name desc : String}
    (hput : ¬ (name = Store.put ∧ desc = Store.putDesc)) (hname : name ∉ Store.addedNames) :
    a.extended.member? name desc = a.member? name desc := by
  simp only [Store.addedNames, List.mem_cons, List.not_mem_nil, or_false, not_or] at hname
  obtain ⟨hkept, hfast, hslow⟩ := hname
  have hnew : (Store.entryPoints a.name).find? (Member.isNamed name desc) = none := by
    simp only [Store.entryPoints, List.find?_eq_none, List.mem_cons, List.not_mem_nil, or_false,
      Member.isNamed_iff]
    rintro m (rfl | rfl | rfl) ⟨hm, hm'⟩
    · exact hput ⟨hm.symm, hm'.symm⟩
    · exact hfast hm.symm
    · exact hslow hm.symm
  rw [member?_extended, hnew, Option.or_none]
  refine find?_modifyFirst_of_ne fun m hm => ?_
  rw [Member.isNamed_iff] at hm
  rw [Member.isNamed_eq_false_iff, Member.isNamed_eq_false_iff, hm.1, hm.2]
  exact ⟨fun heq => hput ⟨heq.1.symm, heq.2.symm⟩, fun heq => hkept heq.1.symm⟩

/-- The `put` that notifies is found, and no other. -/
theorem member?_extended_put (h : (a.members.map Member.handle).Nodup) :
    a.extended.member? Store.put Store.putDesc = some (Store.notifyingPut a.name) := by
  have hgone : (modifyFirst (Member.isNamed Store.put Store.putDesc) Store.demote a.members).find?
      (Member.isNamed Store.put Store.putDesc) = none :=
    find?_modifyFirst_self (pairwise_put h) fun m _ => rfl
  rw [member?_extended, hgone]
  rfl

/-- The first `put` is found under its new name, unless a member had that name before. -/
theorem member?_extended_kept (hput : (a.member? Store.put Store.putDesc).isSome)
    (hfresh : ∀ m ∈ a.members, m.isNamed Store.keptSlowPath Store.putDesc = false) :
    a.extended.member? Store.keptSlowPath Store.putDesc =
      (a.member? Store.put Store.putDesc).map Store.demote := by
  have hkept := find?_modifyFirst_of_fresh (p := Member.isNamed Store.put Store.putDesc)
    (f := Store.demote) hfresh fun m hm => by
      rw [Member.isNamed_iff] at hm ⊢
      exact ⟨rfl, hm.2⟩
  obtain ⟨m, hm⟩ := Option.isSome_iff_exists.1 hput
  rw [member?_extended, hkept]
  change (Option.map Store.demote (a.member? _ _)).or _ = _
  rw [hm]
  rfl

/-- What an extension adds is found behind the members there were. -/
theorem member?_extended_added {name desc : String} (hput : Store.put ≠ name)
    (hkept : Store.keptSlowPath ≠ name) :
    a.extended.member? name desc = (a.member? name desc).or
      ((Store.entryPoints a.name).find? (Member.isNamed name desc)) := by
  rw [member?_extended, find?_modifyFirst_of_ne]
  · rfl
  · intro m hm
    rw [Member.isNamed_iff] at hm
    rw [Member.isNamed_eq_false_iff, Member.isNamed_eq_false_iff, hm.1]
    exact ⟨fun heq => hput heq.1, fun heq => hkept heq.1⟩

/-- The new `put` is the one that notifies. -/
theorem Extensible.member?_put (h : a.Extensible) :
    a.extended.member? Store.put Store.putDesc = some (Store.notifyingPut a.name) :=
  member?_extended_put h.distinct

/-- The first `put` is kept under its new name. -/
theorem Extensible.member?_kept (h : a.Extensible) :
    a.extended.member? Store.keptSlowPath Store.putDesc =
      (a.member? Store.put Store.putDesc).map Store.demote := by
  refine member?_extended_kept h.put fun m hm => ?_
  rw [Member.isNamed_eq_false_iff]
  exact fun heq => h.name_notMem hm (heq.1 ▸ List.mem_cons_self)

/-- Nothing but the new entry points has their names. -/
theorem Extensible.member?_added (h : a.Extensible) {name desc : String}
    (hname : name ∈ Store.addedNames) (hkept : name ≠ Store.keptSlowPath) :
    a.extended.member? name desc = (Store.entryPoints a.name).find? (Member.isNamed name desc) := by
  have hput : Store.put ≠ name := by
    rintro rfl
    exact absurd hname (by decide)
  have hnone : a.member? name desc = none := by
    rw [member?, List.find?_eq_none]
    intro m hm heq
    rw [Member.isNamed_iff] at heq
    exact h.name_notMem hm (heq.1 ▸ hname)
  rw [member?_extended_added hput hkept.symm, hnone, Option.none_or]

theorem Extensible.member?_fastPath (h : a.Extensible) :
    a.extended.member? Store.fastPath Store.setDesc = some (Store.fastPathMember a.name) := by
  rw [h.member?_added (by decide) (by decide)]
  rfl

theorem Extensible.member?_alternativeSlowPath (h : a.Extensible) :
    a.extended.member? Store.alternativeSlowPath Store.putDesc =
      some (Store.alternativeSlowPathMember a.name) := by
  rw [h.member?_added (by decide) (by decide)]
  rfl

end Artifact

end CallPatch
