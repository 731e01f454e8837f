import CallPatch.Proofs.Patch.Subset
/-!
# Patching — what it asks about types

Whether a call is one on a store depends, for a call on a concrete type, on
whether that type has the capability. Patching asks this of the types on which
the named members call `put`, and of no others (`patchCallSites_congr_capable`).
-/

namespace CallPatch

/-- The concrete type on which the instruction calls `put`. -/
def Insn.putType? : Insn → Option String
  | .invoke .virtual owner name desc =>
    if name = Store.put ∧ desc = Store.putDesc then some owner else none
  | _ => none

/-- The concrete types on which the named members call `put`. -/
def Artifact.putTypes (names : List String) (a : Artifact) : List String :=
  (a.members.filter fun m => m.name ∈ names).flatMap fun m => m.code.filterMap Insn.putType?

variable {scope scope' : Scope} {names : List String} {insn : Insn} {code : Code}

/-- The two go by the same interfaces, and agree on these types. -/
structure Scope.AgreeOn (scope scope' : Scope) (types : List String) : Prop where
  interfaces : scope.interfaces = scope'.interfaces
  capable : ∀ type ∈ types, scope.capable type = scope'.capable type

theorem Scope.AgreeOn.mono {types types' : List String} (h : scope.AgreeOn scope' types)
    (hsub : types' ⊆ types) : scope.AgreeOn scope' types' :=
  ⟨h.interfaces, fun type htype => h.capable type (hsub htype)⟩

theorem Scope.AgreeOn.storePut?_eq (h : scope.AgreeOn scope' insn.putType?.toList) :
    scope.storePut? insn = scope'.storePut? insn := by
  obtain ⟨hinterfaces, hcapable⟩ := h
  cases insn with
  | invoke kind owner name desc =>
    by_cases hput : name = Store.put ∧ desc = Store.putDesc
    · have hcovers : scope.covers kind owner = scope'.covers kind owner := by
        cases kind with
        | virtual =>
          have htype : (Insn.invoke .virtual owner name desc).putType? = some owner := if_pos hput
          exact hcapable owner (by simp [htype])
        | interface => simp only [Scope.covers, hinterfaces]
        | static => rfl
        | special => rfl
      simp only [Scope.storePut?, hcovers]
    · have hnone (s : Scope) : s.storePut? (.invoke kind owner name desc) = none :=
        if_neg fun hall => hput ⟨hall.1, hall.2.1⟩
      rw [hnone, hnone]
  | _ => rfl

/-- The pass over a code asks about the types in it. -/
theorem Code.patch?_congr_capable (h : scope.AgreeOn scope' (code.filterMap Insn.putType?)) :
    code.patch? scope = code.patch? scope' := by
  have hpieces : code.pieces scope = code.pieces scope' := by
    induction code with
    | nil => rfl
    | cons insn rest ih =>
      have hall : (insn :: rest).filterMap Insn.putType? =
          insn.putType?.toList ++ rest.filterMap Insn.putType? := by
        rcases htype : insn.putType? with - | type <;> simp [htype]
      rw [hall] at h
      have hhead := (h.mono (List.subset_append_left _ _)).storePut?_eq
      have hrest := ih (h.mono (List.subset_append_right _ _))
      simp only [Code.pieces, hhead, hrest]
  rw [Code.patch?_eq, Code.patch?_eq, hpieces]

/-- Patching an artifact asks about the types in its named members. -/
theorem Artifact.patch_congr_capable {a : Artifact} (h : scope.AgreeOn scope' (a.putTypes names)) :
    a.patch scope names = a.patch scope' names := by
  have hmembers : ∀ m ∈ a.members,
      m.patch scope names a.name = m.patch scope' names a.name := by
    intro m hm
    by_cases hname : m.name ∈ names
    · have hcode : m.code.patch? scope = m.code.patch? scope' := by
        refine Code.patch?_congr_capable (h.mono fun type htype => ?_)
        have hnamed : m ∈ a.members.filter fun m => m.name ∈ names :=
          List.mem_filter.2 ⟨hm, by simpa using hname⟩
        exact List.mem_flatMap.2 ⟨m, hnamed, htype⟩
      simp only [Member.patch, hcode]
    · have halone (s : Scope) : m.patch s names a.name = .ok (m, 0) :=
        Member.patch_eq_ok_iff.2 (.inl ⟨hname, rfl⟩)
      rw [halone, halone]
  -- the members alone are generalised, since the name of the artifact goes into each pass
  have hall : a.members.mapM (Member.patch scope names a.name) =
      a.members.mapM (Member.patch scope' names a.name) := by
    generalize a.members = members at hmembers
    induction members with
    | nil => rfl
    | cons m members ih =>
      rw [List.mapM_cons, List.mapM_cons, hmembers m List.mem_cons_self,
        ih fun m' hm' => hmembers m' (List.mem_cons_of_mem m hm')]
  simp only [Artifact.patch, hall]

/-- **Patching asks about no other types.** -/
theorem patchCallSites_congr_capable {bytes : Bytes}
    (hinterfaces : scope.interfaces = scope'.interfaces)
    (h : ∀ a, Artifact.decode bytes = .ok a →
      ∀ type ∈ a.putTypes names, scope.capable type = scope'.capable type) :
    patchCallSites scope names bytes = patchCallSites scope' names bytes := by
  unfold patchCallSites
  rcases hdecode : Artifact.decode bytes with e | a
  · rfl
  · have hpatch := Artifact.patch_congr_capable ⟨hinterfaces, h a hdecode⟩
    show (a.patch scope names >>= _) = (a.patch scope' names >>= _)
    rw [hpatch]

end CallPatch
