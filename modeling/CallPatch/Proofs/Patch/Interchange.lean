import CallPatch.Proofs.Patch.Distinct
import CallPatch.Proofs.Patch.Stages
/-!
# Patching — before an extension or after it

A store can be extended and then patched, or patched and then extended
(`passes_commute`). An extension moves the first `put` to another name and leaves its code
alone, and what it adds calls `put` on no store, so the calls that are found are the same
ones if the two names are given together or not at all. The marker is what the passes do
not touch of each other: patching neither declares it nor takes away a `put` or a `set`.

In one order the extended store is encoded between, in the other the patched one. Neither
is larger than what comes out in the end, so a pass fails for want of room in the one order
just when the other does.
-/

namespace CallPatch

variable {scope : Scope} {names : List String} {m : Member} {a : Artifact}

/-! ## Members -/

/-- The entry points call `put` on no store. -/
theorem Store.puts_of_mem_entryPoints {owner : String} (h : m ∈ entryPoints owner) :
    m.code.puts scope = 0 := by
  have hkept : keptSlowPath ≠ put := by decide
  have hset : set ≠ put := by decide
  simp only [entryPoints, List.mem_cons, List.not_mem_nil, or_false] at h
  rw [Code.puts, List.countP_eq_zero]
  rcases h with rfl | rfl | rfl <;>
    simp [notifyingPut, fastPathMember, alternativeSlowPathMember, delegate, Scope.targets, hkept,
      hset]

namespace Member

/-- A member that calls no `put` on a store is left alone, named or not. -/
theorem idle_of_puts_eq_zero (h : m.code.puts scope = 0) (names : List String) :
    m.spliced scope names = m ∧ m.puts scope names = 0 ∧ m.exhausts scope names = false := by
  have hputs : m.puts scope names = 0 := by
    unfold puts
    split
    · exact h
    · rfl
  refine ⟨spliced_of_puts_eq_zero hputs, hputs, ?_⟩
  have hfresh := m.code.firstFresh_le
  rw [← Bool.not_eq_true, exhausts_iff]
  omega

/-- The first `put` is patched under its new name as under the old one. -/
theorem patched_demote (hnames : Store.put ∈ names ↔ Store.keptSlowPath ∈ names)
    (hm : m.name = Store.put) :
    (Store.demote m).spliced scope names = Store.demote (m.spliced scope names) ∧
      (Store.demote m).puts scope names = m.puts scope names ∧
        (Store.demote m).exhausts scope names = m.exhausts scope names := by
  have hcontains : names.contains Store.keptSlowPath = names.contains Store.put := by
    rw [Bool.eq_iff_iff, List.contains_iff_mem, List.contains_iff_mem]
    exact hnames.symm
  refine ⟨?_, ?_, ?_⟩
  · simp only [spliced, Store.demote, hm, hcontains]
    split <;> rfl
  · simp only [puts, Store.demote, hm, hcontains]
  · rw [Bool.eq_iff_iff, exhausts_iff, exhausts_iff, hm, hnames]
    rfl

/-- The first `put` takes more bytes under its new name. -/
theorem size_le_demote (hm : m.name = Store.put) :
    Json.size m.toJson ≤ Json.size (Store.demote m).toJson := by
  have hname : Json.size (.string m.name) ≤ Json.size (.string Store.keptSlowPath) := by
    rw [hm]
    decide
  have haccess : Json.size (.string m.access.name) ≤ Json.size (.string Access.priv.name) := by
    cases m.access <;> decide
  exact Json.size_object_le (.cons ⟨rfl, hname⟩ (.cons ⟨rfl, Nat.le_refl _⟩
    (.cons ⟨rfl, haccess⟩ (.cons ⟨rfl, Nat.le_refl _⟩ .nil))))

end Member

/-! ## Artifacts -/

namespace Artifact

/-- The store has the members that an extension asks for. -/
def HasPutAndSet (a : Artifact) : Prop :=
  (a.member? Store.set Store.setDesc).isSome = true ∧
    (a.member? Store.put Store.putDesc).isSome = true

theorem extend_eq_ok_iff_extended {b : Artifact} :
    a.extend = .ok b ↔ a.HasPutAndSet ∧ b = a.extended :=
  extend_eq_ok_iff.trans and_assoc.symm

/-- Patching neither adds what an extension asks for nor takes it away. -/
theorem hasPutAndSet_spliced : (a.spliced scope names).HasPutAndSet ↔ a.HasPutAndSet := by
  have hmember (name desc : String) :
      ((a.spliced scope names).member? name desc).isSome = (a.member? name desc).isSome := by
    have hnamed : Member.isNamed name desc ∘ Member.spliced scope names =
        Member.isNamed name desc := by
      funext m
      simp [Member.isNamed]
    rw [member?, spliced, List.find?_map, hnamed, Option.isSome_map]
    rfl
  rw [HasPutAndSet, HasPutAndSet, hmember, hmember]

/-- An extended store is no smaller. -/
theorem length_document_le_extended (a : Artifact) :
    a.document.length ≤ a.extended.document.length := by
  have hdemoted (members : List Member) : List.Forall₂
      (fun v w => Json.size v ≤ Json.size w) (members.map Member.toJson)
      ((modifyFirst (Member.isNamed Store.put Store.putDesc) Store.demote members).map
        Member.toJson) := by
    induction members with
    | nil => exact .nil
    | cons m members ih =>
      by_cases hm : m.isNamed Store.put Store.putDesc = true
      · rw [modifyFirst, if_pos hm]
        refine .cons (Member.size_le_demote (Member.isNamed_iff.1 hm).1) ?_
        exact List.forall₂_same.2 fun _ _ => Nat.le_refl _
      · rw [modifyFirst, if_neg hm]
        exact .cons (Nat.le_refl _) ih
  have hadded : ((modifyFirst (Member.isNamed Store.put Store.putDesc) Store.demote
      a.members).map Member.toJson).Sublist (a.extended.members.map Member.toJson) :=
    (List.sublist_append_left _ _).map _
  exact length_document_le rfl (List.sublist_append_left _ _)
    (Nat.le_trans (Json.size_array_le (hdemoted a.members)) (Json.size_array_le_of_sublist hadded))

section names

variable (hnames : Store.put ∈ names ↔ Store.keptSlowPath ∈ names)
include hnames

/-- **A store can be patched before it is extended or after.** -/
theorem spliced_extended (a : Artifact) :
    a.extended.spliced scope names = (a.spliced scope names).extended := by
  have hdemoted : (modifyFirst (Member.isNamed Store.put Store.putDesc) Store.demote
      a.members).map (Member.spliced scope names) =
        modifyFirst (Member.isNamed Store.put Store.putDesc) Store.demote
          (a.members.map (Member.spliced scope names)) := by
    refine (modifyFirst_map (fun m _ => ?_) fun m _ hm => ?_).symm
    · simp [Member.isNamed]
    · exact (Member.patched_demote hnames (Member.isNamed_iff.1 hm).1).1.symm
  have hadded : (Store.entryPoints a.name).map (Member.spliced scope names) =
      (Store.entryPoints a.name).map id :=
    List.map_congr_left fun m hm =>
      (Member.idle_of_puts_eq_zero (Store.puts_of_mem_entryPoints hm) names).1
  rw [List.map_id] at hadded
  simp only [spliced, extended, List.map_append, hdemoted, hadded]

/-- The calls are the same ones. -/
theorem puts_extended (a : Artifact) :
    a.extended.puts scope names = a.puts scope names := by
  have hdemoted : (modifyFirst (Member.isNamed Store.put Store.putDesc) Store.demote
      a.members).map (Member.puts scope names) = a.members.map (Member.puts scope names) :=
    map_modifyFirst a.members fun m _ hm =>
      (Member.patched_demote hnames (Member.isNamed_iff.1 hm).1).2.1
  have hadded : (Store.entryPoints a.name).map (Member.puts scope names) = [0, 0, 0] := by
    have hnone (m : Member) (hm : m ∈ Store.entryPoints a.name) : m.puts scope names = 0 :=
      (Member.idle_of_puts_eq_zero (Store.puts_of_mem_entryPoints hm) names).2.1
    simp only [Store.entryPoints, List.forall_mem_cons] at hnone
    obtain ⟨hput, hfast, hslow, -⟩ := hnone
    simp only [Store.entryPoints, List.map_cons, List.map_nil, hput, hfast, hslow]
  simp only [puts, extended, List.map_append, hdemoted, hadded, List.foldl_append,
    List.foldl_cons, List.foldl_nil, Nat.add_zero]

/-- And the label ids suffice for them in the same cases. -/
theorem suffices_extended : a.extended.Suffices scope names ↔ a.Suffices scope names := by
  have hdemoted : (modifyFirst (Member.isNamed Store.put Store.putDesc) Store.demote
      a.members).map (Member.exhausts scope names) =
        a.members.map (Member.exhausts scope names) :=
    map_modifyFirst a.members fun m _ hm =>
      (Member.patched_demote hnames (Member.isNamed_iff.1 hm).1).2.2
  have hadded (m : Member) (hm : m ∈ Store.entryPoints a.name) :
      m.exhausts scope names = false :=
    (Member.idle_of_puts_eq_zero (Store.puts_of_mem_entryPoints hm) names).2.2
  have hall (members : List Member) : (∀ m ∈ members, m.exhausts scope names = false) ↔
      ∀ b ∈ members.map (Member.exhausts scope names), b = false := by
    rw [List.forall_mem_map]
  rw [Suffices, Suffices, extended, List.forall_mem_append, hall, hdemoted, ← hall]
  exact and_iff_left hadded

end names

end Artifact

/-! ## The two orders -/

/-- What two passes come to. -/
structure Processed where
  bytes : Bytes
  /-- Whether the store was extended. -/
  extended : Bool
  /-- Whether any call was replaced. -/
  patched : Bool
  /-- How many calls were replaced. -/
  sites : Nat

/-- Extends a store and patches it then. -/
def extendThenPatch (scope : Scope) (names : List String) (bytes : Bytes) :
    Except PatchError Processed := do
  let x ← extendStore bytes
  let p ← patchCallSites scope names x.bytes
  return ⟨p.bytes, x.transformed, p.transformed, p.sites⟩

/-- Patches a store and extends it then. -/
def patchThenExtend (scope : Scope) (names : List String) (bytes : Bytes) :
    Except PatchError Processed := do
  let p ← patchCallSites scope names bytes
  let x ← extendStore p.bytes
  return ⟨x.bytes, x.transformed, p.transformed, p.sites⟩

/-- What the passes come to in either order, if they succeed: of a store with the marker what
patching makes of it, and of any other the bytes of the store extended and patched. -/
def ComesTo (scope : Scope) (names : List String) (bytes : Bytes) (r : Processed) : Prop :=
  ∃ a, Artifact.decode bytes = .ok a ∧
    (a.declares Store.marker = true ∧ (∃ p, patchCallSites scope names bytes = .ok p ∧
        r = ⟨p.bytes, false, p.transformed, p.sites⟩) ∨
      a.declares Store.marker = false ∧ a.HasPutAndSet ∧ a.Suffices scope names ∧
        (a.extended.spliced scope names).encode = .ok r.bytes ∧ r.extended = true ∧
          r.patched = decide (r.sites ≠ 0) ∧ r.sites = a.puts scope names)

variable {bytes : Bytes} {r : Processed}

theorem extendThenPatch_eq_ok_iff : extendThenPatch scope names bytes = .ok r ↔
    ∃ x p, extendStore bytes = .ok x ∧ patchCallSites scope names x.bytes = .ok p ∧
      r = ⟨p.bytes, x.transformed, p.transformed, p.sites⟩ := by
  simp only [extendThenPatch, bind_eq_ok_iff, pure, Except.pure, Except.ok.injEq, eq_comm (a := r),
    exists_and_left]

theorem patchThenExtend_eq_ok_iff : patchThenExtend scope names bytes = .ok r ↔
    ∃ p x, patchCallSites scope names bytes = .ok p ∧ extendStore p.bytes = .ok x ∧
      r = ⟨x.bytes, x.transformed, p.transformed, p.sites⟩ := by
  simp only [patchThenExtend, bind_eq_ok_iff, pure, Except.pure, Except.ok.injEq, eq_comm (a := r),
    exists_and_left]

section names

variable (hnames : Store.put ∈ names ↔ Store.keptSlowPath ∈ names)
include hnames

theorem extendThenPatch_iff_comesTo :
    extendThenPatch scope names bytes = .ok r ↔ ComesTo scope names bytes r := by
  rw [extendThenPatch_eq_ok_iff]
  constructor
  · rintro ⟨x, p, hx, hp, rfl⟩
    obtain ⟨a, hdecode, ⟨hmarked, rfl⟩ | ⟨hunmarked, b, hb, bytes', hencode, rfl⟩⟩ :=
      extendStore_eq_ok_iff.1 hx
    · exact ⟨a, hdecode, .inl ⟨hmarked, p, hp, rfl⟩⟩
    · obtain ⟨hhas, rfl⟩ := Artifact.extend_eq_ok_iff_extended.1 hb
      obtain ⟨hsuffices, hsites⟩ :=
        suffices_of_patchCallSites (Artifact.decode_encode hencode) hp
      rw [Artifact.suffices_extended hnames] at hsuffices
      rw [Artifact.puts_extended hnames] at hsites
      exact ⟨a, hdecode, .inr ⟨hunmarked, hhas, hsuffices, encode_spliced hencode hp, rfl, rfl,
        hsites⟩⟩
  · rintro ⟨a, hdecode, ⟨hmarked, p, hp, rfl⟩ | ⟨hunmarked, hhas, hsuffices, hencode, hextended,
      hpatched, hsites⟩⟩
    · exact ⟨⟨bytes, false⟩, p, extendStore_eq_ok_iff.2 ⟨a, hdecode, .inl ⟨hmarked, rfl⟩⟩, hp, rfl⟩
    · -- the extended store is no larger than what there is in the end
      have hsuffices' := (Artifact.suffices_extended hnames (a := a)).2 hsuffices
      have hlength := Artifact.length_le_of_encode hencode
      obtain ⟨bytes', hencode'⟩ := Artifact.encode_of_length_le_default
        (Nat.le_trans (Artifact.length_document_le_spliced hsuffices') hlength)
      have hdecode' : Artifact.decode bytes' = .ok a.extended := Artifact.decode_encode hencode'
      obtain ⟨p, hp⟩ := exists_patchCallSites hdecode' hsuffices' hlength
      have hbytes : r.bytes = p.bytes :=
        Except.ok.inj (hencode.symm.trans (encode_spliced hencode' hp))
      have hsame : p.sites = r.sites := by
        rw [(suffices_of_patchCallSites hdecode' hp).2, Artifact.puts_extended hnames, hsites]
      refine ⟨⟨bytes', true⟩, p, extendStore_eq_ok_iff.2 ⟨a, hdecode, .inr ⟨hunmarked, _,
        Artifact.extend_eq_ok_iff_extended.2 ⟨hhas, rfl⟩, bytes', hencode', rfl⟩⟩, hp, ?_⟩
      rw [Patched.transformed, hsame, ← hbytes, ← hextended, ← hpatched]

theorem patchThenExtend_iff_comesTo :
    patchThenExtend scope names bytes = .ok r ↔ ComesTo scope names bytes r := by
  rw [patchThenExtend_eq_ok_iff]
  constructor
  · rintro ⟨p, x, hp, hx, rfl⟩
    obtain ⟨a, hdecode, hsuffices, hsites, -⟩ := patchCallSites_eq_ok_iff_spliced.1 hp
    have hdecode' := decode_spliced hdecode hp
    obtain ⟨a', ha', hcases⟩ := extendStore_eq_ok_iff.1 hx
    obtain rfl : a.spliced scope names = a' := Except.ok.inj (hdecode'.symm.trans ha')
    rcases hcases with ⟨hmarked, rfl⟩ | ⟨hunmarked, b, hb, bytes', hencode, rfl⟩
    · exact ⟨a, hdecode, .inl ⟨hmarked, p, hp, rfl⟩⟩
    · obtain ⟨hhas, rfl⟩ := Artifact.extend_eq_ok_iff_extended.1 hb
      rw [Artifact.hasPutAndSet_spliced] at hhas
      rw [← Artifact.spliced_extended hnames] at hencode
      exact ⟨a, hdecode, .inr ⟨hunmarked, hhas, hsuffices, hencode, rfl, rfl, hsites⟩⟩
  · rintro ⟨a, hdecode, ⟨hmarked, p, hp, rfl⟩ | ⟨hunmarked, hhas, hsuffices, hencode, hextended,
      hpatched, hsites⟩⟩
    · exact ⟨p, ⟨p.bytes, false⟩, hp, extendStore_eq_ok_iff.2
        ⟨_, decode_spliced hdecode hp, .inl ⟨hmarked, rfl⟩⟩, rfl⟩
    · -- and neither is the patched one
      rw [Artifact.spliced_extended hnames] at hencode
      have hlength := Nat.le_trans (Artifact.length_document_le_extended (a.spliced scope names))
        (Artifact.length_le_of_encode hencode)
      obtain ⟨p, hp⟩ := exists_patchCallSites hdecode hsuffices hlength
      have hsame : p.sites = r.sites := by
        rw [(suffices_of_patchCallSites hdecode hp).2, hsites]
      refine ⟨p, ⟨r.bytes, true⟩, hp, extendStore_eq_ok_iff.2 ⟨_, decode_spliced hdecode hp,
        .inr ⟨hunmarked, _, Artifact.extend_eq_ok_iff_extended.2
          ⟨Artifact.hasPutAndSet_spliced.2 hhas, rfl⟩, r.bytes, hencode, rfl⟩⟩, ?_⟩
      rw [Patched.transformed, hsame, ← hextended, ← hpatched]

end names

/-- **The two passes commute.** Where both names of the first `put` are given, or neither, the store
is extended and then patched with success just when it is patched and then extended, and then
the bytes are the same, the number of sites, and what either pass says of having changed
anything. -/
theorem passes_commute (scope : Scope) (names : List String)
    (hnames : Store.put ∈ names ↔ Store.keptSlowPath ∈ names) (bytes : Bytes) (r : Processed) :
    extendThenPatch scope names bytes = .ok r ↔ patchThenExtend scope names bytes = .ok r := by
  rw [extendThenPatch_iff_comesTo hnames, patchThenExtend_iff_comesTo hnames]

/-! ## A `put` that calls another store -/

namespace Forwarding

/-- A store whose `put` is passed on to the store behind it. -/
def store : Artifact where
  name := "acme/Store"
  supertypes := [Store.storeInterface]
  members := [
    { name := Store.put
      desc := Store.putDesc
      access := .pub
      code := [.load 3, .load 1, .load 2,
        .invoke .interface Store.storeInterface Store.put Store.putDesc, .retValue] },
    { name := Store.set, desc := Store.setDesc, access := .pub, code := [.ret] }]

/-- The call in `put` is replaced in either order, under whichever name it is found. -/
theorem passes_commute_forwarding : ∃ bytes r, Artifact.decode bytes = .ok store ∧
    extendThenPatch .interfacesOnly [Store.put, Store.keptSlowPath] bytes = .ok r ∧
      patchThenExtend .interfacesOnly [Store.put, Store.keptSlowPath] bytes = .ok r ∧
        r.sites = 1 ∧ r.extended = true ∧ r.patched = true := by
  have hnames : Store.put ∈ [Store.put, Store.keptSlowPath] ↔
      Store.keptSlowPath ∈ [Store.put, Store.keptSlowPath] := by simp
  obtain ⟨bytes, hencode⟩ := Artifact.encode_of_length_le_default (a := store) (by decide +kernel)
  obtain ⟨bytes', hencode'⟩ := Artifact.encode_of_length_le_default
    (a := store.extended.spliced .interfacesOnly [Store.put, Store.keptSlowPath])
    (by decide +kernel)
  have hdecode : Artifact.decode bytes = .ok store := Artifact.decode_encode hencode
  have hfirst : extendThenPatch .interfacesOnly [Store.put, Store.keptSlowPath] bytes =
      .ok ⟨bytes', true, true, 1⟩ :=
    (extendThenPatch_iff_comesTo hnames).2 ⟨store, hdecode, .inr ⟨by decide, ⟨rfl, rfl⟩, by decide,
      hencode', rfl, rfl, rfl⟩⟩
  exact ⟨bytes, _, hdecode, hfirst,
    (passes_commute .interfacesOnly _ hnames bytes _).1 hfirst, rfl, rfl, rfl⟩

end Forwarding

end CallPatch
