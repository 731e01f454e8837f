import CallPatch.Proofs.Patch.Capability
/-!
# Patching — one pass after another

The bytes of an artifact may go through any number of passes: extensions, patches of
whatever members in whatever scope, and fresh encodings. Each is given what the one
before it left, and one that fails leaves what it was given.

Of all of them no more than one extends a store (`extended_once`). None takes a marker
away (`marker_leave`), so where one extension has come to a result, every later one
finds the marker and leaves the bytes alone. Patches and fresh encodings change neither
what is declared nor how many members there are, so all of the growth is that of the
one extension (`Grown`).
-/

namespace CallPatch

variable {a b : Artifact} {bytes : Bytes}

/-- An extension says that it transformed nothing just when it returns the bytes it was given. -/
theorem transformed_eq_false_iff {e : Extended} (h : extendStore bytes = .ok e) :
    e.transformed = false ↔ e.bytes = bytes := by
  obtain ⟨a, hdecode, ⟨-, rfl⟩ | ⟨hunmarked, b, hb, bytes', hencode, rfl⟩⟩ :=
    extendStore_eq_ok_iff.1 h
  · exact ⟨fun _ => rfl, fun _ => rfl⟩
  · constructor
    · intro hfalse
      cases hfalse
    · -- the same bytes would make the same artifact, which does not declare the marker
      rintro rfl
      have hmarked := (Artifact.capable_of_extend hb).marked
      obtain rfl : a = b := Except.ok.inj (hdecode.symm.trans (Artifact.decode_encode hencode))
      rw [hmarked] at hunmarked
      cases hunmarked

/-- Whoever declares the marker is left alone by an extension. -/
theorem extendStore_of_marker_mem (h : Store.marker ∈ Host.declaredBy bytes) :
    extendStore bytes = .ok ⟨bytes, false⟩ := by
  rcases hdecode : Artifact.decode bytes with e | a
  · rw [Host.declaredBy, hdecode] at h
    cases h
  · rw [Host.declaredBy, hdecode] at h
    exact extendStore_eq_ok_iff.2 ⟨a, hdecode, .inl ⟨List.contains_iff_mem.2 h, rfl⟩⟩

namespace Chain

/-- A pass over the bytes of an artifact. -/
inductive Pass where
  | extend
  | patch (scope : Scope) (names : List String)
  /-- Decodes the artifact and encodes it afresh. -/
  | reencode

namespace Pass

/-- The bytes that the pass makes of those it is given. -/
def run (bytes : Bytes) : Pass → Except PatchError Bytes
  | .extend => (extendStore bytes).map Extended.bytes
  | .patch scope names => (patchCallSites scope names bytes).map Patched.bytes
  | .reencode => do
    let a ← PatchError.ofFrame (Artifact.decode bytes)
    PatchError.ofFrame a.encode

/-- The bytes that are there after the pass. -/
def leave (bytes : Bytes) (p : Pass) : Bytes :=
  match p.run bytes with
  | .ok bytes' => bytes'
  | .error _ => bytes

/-- Whether the pass extends the store it is given. -/
def extends? (bytes : Bytes) : Pass → Bool
  | .extend =>
    match extendStore bytes with
    | .ok e => e.transformed
    | .error _ => false
  | _ => false

end Pass

/-- The bytes that are there after all the passes. -/
def after (bytes : Bytes) (passes : List Pass) : Bytes :=
  passes.foldl Pass.leave bytes

/-- How many of the passes extend the store they are given. -/
def extensions (bytes : Bytes) : List Pass → Nat
  | [] => 0
  | p :: passes => (if p.extends? bytes then 1 else 0) + extensions (p.leave bytes) passes

/-- The second artifact has so many extensions more than the first: a marker and three members for
each of them. -/
structure Grown (extensions : Nat) (a b : Artifact) : Prop where
  markers : b.supertypes.count Store.marker = a.supertypes.count Store.marker + extensions
  members : b.members.length = a.members.length + 3 * extensions

variable {p : Pass} {passes : List Pass}

theorem after_append (bytes : Bytes) (passes passes' : List Pass) :
    after bytes (passes ++ passes') = after (after bytes passes) passes' :=
  List.foldl_append

/-! ## One pass -/

theorem leave_of_ok {bytes' : Bytes} (h : p.run bytes = .ok bytes') : p.leave bytes = bytes' := by
  rw [Pass.leave, h]

theorem leave_of_error {e : PatchError} (h : p.run bytes = .error e) : p.leave bytes = bytes := by
  rw [Pass.leave, h]

theorem Grown.refl (a : Artifact) : Grown 0 a a :=
  ⟨rfl, rfl⟩

/-- An extension adds one marker and three members. -/
theorem grown_of_extend (h : a.extend = .ok b) : Grown 1 a b := by
  obtain ⟨-, -, rfl⟩ := Artifact.extend_eq_ok_iff.1 h
  constructor
  · simp
  · simp [Artifact.modifyMember, Store.entryPoints]

/-- A patch adds neither. -/
theorem grown_of_patch {scope : Scope} {names : List String} {sites : Nat}
    (h : a.patch scope names = .ok (b, sites)) : Grown 0 a b := by
  obtain ⟨-, hsupertypes, hmembers⟩ := Artifact.signatures_patch h
  constructor
  · rw [hsupertypes, Nat.add_zero]
  · have hlength := congrArg List.length hmembers
    rwa [List.length_map, List.length_map] at hlength

/-- A pass that fails extends nothing. -/
theorem extends?_of_error {e : PatchError} (h : p.run bytes = .error e) :
    p.extends? bytes = false := by
  cases p with
  | extend =>
    rcases hextend : extendStore bytes with e' | x
    · rw [Pass.extends?, hextend]
    · rw [Pass.run, hextend] at h
      cases h
  | patch scope names => rfl
  | reencode => rfl

/-- **A pass over an artifact** adds what an extension adds, if it extends it, and else nothing. -/
theorem decode_of_run {bytes' : Bytes} (h : Artifact.decode bytes = .ok a)
    (hrun : p.run bytes = .ok bytes') :
    ∃ b, Artifact.decode bytes' = .ok b ∧ Grown (if p.extends? bytes then 1 else 0) a b := by
  cases p with
  | extend =>
    obtain ⟨x, hx, rfl⟩ := map_eq_ok_iff.1 hrun
    obtain ⟨a', ha', hcases⟩ := extendStore_eq_ok_iff.1 hx
    obtain rfl : a = a' := Except.ok.inj (h.symm.trans ha')
    rw [Pass.extends?, hx]
    rcases hcases with ⟨-, rfl⟩ | ⟨-, b, hb, bytes', hencode, rfl⟩
    · exact ⟨a, h, .refl a⟩
    · exact ⟨b, Artifact.decode_encode hencode, grown_of_extend hb⟩
  | patch scope names =>
    obtain ⟨x, hx, rfl⟩ := map_eq_ok_iff.1 hrun
    obtain ⟨a', ha', b, sites, hb, hcases⟩ := patchCallSites_eq_ok_iff.1 hx
    obtain rfl : a = a' := Except.ok.inj (h.symm.trans ha')
    rcases hcases with ⟨-, rfl⟩ | ⟨-, bytes', hencode, rfl⟩
    · exact ⟨a, h, .refl a⟩
    · exact ⟨b, Artifact.decode_encode hencode, grown_of_patch hb⟩
  | reencode =>
    obtain ⟨a', ha', hencode⟩ := bind_eq_ok_iff.1 hrun
    rw [PatchError.ofFrame_eq_ok_iff] at ha' hencode
    obtain rfl : a = a' := Except.ok.inj (h.symm.trans ha')
    exact ⟨a, Artifact.decode_encode hencode, .refl a⟩

/-- And so does what is there after it, if it comes to a result or not. -/
theorem decode_leave (h : Artifact.decode bytes = .ok a) (p : Pass) :
    ∃ b, Artifact.decode (p.leave bytes) = .ok b ∧
      Grown (if p.extends? bytes then 1 else 0) a b := by
  rcases hrun : p.run bytes with e | bytes'
  · rw [leave_of_error hrun, extends?_of_error hrun]
    exact ⟨a, h, .refl a⟩
  · rw [leave_of_ok hrun]
    exact decode_of_run h hrun

/-- No pass takes the marker away. -/
theorem marker_leave (h : Store.marker ∈ Host.declaredBy bytes) (p : Pass) :
    Store.marker ∈ Host.declaredBy (p.leave bytes) := by
  rcases hdecode : Artifact.decode bytes with e | a
  · rw [Host.declaredBy, hdecode] at h
    cases h
  · obtain ⟨b, hb, hgrown⟩ := decode_leave hdecode p
    rw [Host.declaredBy, hdecode] at h
    rw [Host.declaredBy, hb]
    have hbefore : 0 < a.supertypes.count Store.marker := List.count_pos_iff.2 h
    have hafter : 0 < b.supertypes.count Store.marker := by
      rw [hgrown.markers]
      omega
    exact List.count_pos_iff.1 hafter

/-- An extension that comes to a result leaves the marker behind. -/
theorem marker_leave_extend {e : Extended} (h : extendStore bytes = .ok e) :
    Store.marker ∈ Host.declaredBy (Pass.extend.leave bytes) := by
  have hrun : Pass.extend.run bytes = .ok e.bytes := by rw [Pass.run, h]; rfl
  rw [leave_of_ok hrun]
  exact marker_mem_of_extendStore h

/-- A pass that extends a store leaves the marker behind. -/
theorem marker_leave_of_extends (h : p.extends? bytes = true) :
    Store.marker ∈ Host.declaredBy (p.leave bytes) := by
  cases p with
  | extend =>
    rcases hextend : extendStore bytes with e | e
    · rw [Pass.extends?, hextend] at h
      cases h
    · exact marker_leave_extend hextend
  | patch scope names => cases h
  | reencode => cases h

/-- No pass extends a store that has the marker. -/
theorem extends?_of_marker (h : Store.marker ∈ Host.declaredBy bytes) (p : Pass) :
    p.extends? bytes = false := by
  cases p with
  | extend => rw [Pass.extends?, extendStore_of_marker_mem h]
  | patch scope names => rfl
  | reencode => rfl

/-! ## Chains of passes -/

/-- And so does no chain take it away. -/
theorem marker_after (h : Store.marker ∈ Host.declaredBy bytes) (passes : List Pass) :
    Store.marker ∈ Host.declaredBy (after bytes passes) := by
  induction passes generalizing bytes with
  | nil => exact h
  | cons p passes ih => exact ih (marker_leave h p)

theorem extensions_of_marker (h : Store.marker ∈ Host.declaredBy bytes) (passes : List Pass) :
    extensions bytes passes = 0 := by
  induction passes generalizing bytes with
  | nil => rfl
  | cons p passes ih =>
    have hrest : extensions (p.leave bytes) passes = 0 := ih (marker_leave h p)
    rw [extensions, extends?_of_marker h p, hrest]
    rfl

/-- No more than one of the passes extends the store. -/
theorem extensions_le_one (bytes : Bytes) (passes : List Pass) :
    extensions bytes passes ≤ 1 := by
  induction passes generalizing bytes with
  | nil => exact Nat.zero_le 1
  | cons p passes ih =>
    rw [extensions]
    by_cases hextends : p.extends? bytes = true
    · have hrest := extensions_of_marker (marker_leave_of_extends hextends) passes
      rw [if_pos hextends]
      omega
    · have hrest := ih (p.leave bytes)
      rw [if_neg hextends]
      omega

/-- **A chain over an artifact** adds what its extensions add. -/
theorem decode_after (h : Artifact.decode bytes = .ok a) (passes : List Pass) :
    ∃ b, Artifact.decode (after bytes passes) = .ok b ∧ Grown (extensions bytes passes) a b := by
  induction passes generalizing bytes a with
  | nil => exact ⟨a, h, .refl a⟩
  | cons p passes ih =>
    obtain ⟨b, hb, hfirst⟩ := decode_leave h p
    obtain ⟨c, hc, hrest⟩ := ih hb
    refine ⟨c, hc, ?_, ?_⟩
    · rw [extensions, hrest.markers, hfirst.markers]
      omega
    · rw [extensions, hrest.members, hfirst.members]
      omega

/-- **A store is extended once in any chain of passes.** When an extension has come to a result, the
marker is there from then on, and every later extension returns the bytes that it is given. Over the
whole chain an artifact gains one marker and three members at most. An extension says that it
transformed nothing just when it returns what it was given. -/
theorem extended_once (bytes : Bytes) (passes : List Pass) :
    extensions bytes passes ≤ 1 ∧
      (∀ before between e, extendStore (after bytes before) = .ok e →
          Store.marker ∈ Host.declaredBy (after bytes (before ++ .extend :: between)) ∧
            extendStore (after bytes (before ++ .extend :: between)) =
              .ok ⟨after bytes (before ++ .extend :: between), false⟩) ∧
      (∀ a, Artifact.decode bytes = .ok a → ∃ b, Artifact.decode (after bytes passes) = .ok b ∧
        a.supertypes.count Store.marker ≤ b.supertypes.count Store.marker ∧
        b.supertypes.count Store.marker ≤ a.supertypes.count Store.marker + 1 ∧
        a.members.length ≤ b.members.length ∧ b.members.length ≤ a.members.length + 3) ∧
      ∀ e, extendStore bytes = .ok e → (e.transformed = false ↔ e.bytes = bytes) := by
  have hone := extensions_le_one bytes passes
  refine ⟨hone, ?_, ?_, fun e he => transformed_eq_false_iff he⟩
  · intro before between e he
    have hmarker : Store.marker ∈ Host.declaredBy (after bytes (before ++ .extend :: between)) := by
      rw [after_append]
      exact marker_after (marker_leave_extend he) between
    exact ⟨hmarker, extendStore_of_marker_mem hmarker⟩
  · intro a ha
    obtain ⟨b, hb, hgrown⟩ := decode_after ha passes
    have hmarkers := hgrown.markers
    have hmembers := hgrown.members
    refine ⟨b, hb, ?_, ?_, ?_, ?_⟩ <;> omega

/-! ## A store that is extended again and again -/

namespace Repeated

/-- A store with a `put`, a `set`, and a member that calls the `put` of another store. -/
def store : Artifact where
  name := "acme/Store"
  supertypes := [Store.storeInterface]
  members := [
    { name := Store.put, desc := Store.putDesc, access := .pub, code := [.load 2, .retValue] },
    { name := Store.set, desc := Store.setDesc, access := .pub, code := [.ret] },
    { name := "copy"
      desc := "(store,key,value)->void"
      access := .pub
      code := [.load 1, .load 2, .load 3,
        .invoke .interface Store.storeInterface Store.put Store.putDesc, .pop, .ret] }]

/-- The store with the capability. -/
def extended : Artifact :=
  match store.extend with
  | .ok extended => extended
  | .error _ => store

/-- Extends it three times, with a patch and a fresh encoding between. -/
def thrice : List Pass :=
  [.extend, .patch ⟨Store.defaultInterfaces, fun _ => false⟩ ["copy"], .extend, .reencode, .extend]

/-- Only the first of them extends it. -/
theorem extended_once_repeated : ∃ bytes, Artifact.decode bytes = .ok store ∧
    extensions bytes thrice = 1 ∧ Store.marker ∈ Host.declaredBy (after bytes thrice) ∧
      ∃ b, Artifact.decode (after bytes thrice) = .ok b ∧ b.members.length ≤ 6 := by
  obtain ⟨bytes, bytes', hdecode, -, hextend⟩ := exists_extendStore (a := store) (b := extended)
    (by decide) (by decide +kernel) (by decide +kernel) (by decide +kernel)
  obtain ⟨hone, hlater, hgrown, -⟩ := extended_once bytes thrice
  have hfirst : Pass.extend.extends? bytes = true := by rw [Pass.extends?, hextend]
  have hcount : 1 ≤ extensions bytes thrice := by
    rw [thrice, extensions, if_pos hfirst]
    exact Nat.le_add_right 1 _
  obtain ⟨b, hb, -, -, -, hmembers⟩ := hgrown store hdecode
  exact ⟨bytes, hdecode, Nat.le_antisymm hone hcount, (hlater [] thrice.tail _ hextend).1, b, hb,
    hmembers⟩

end Repeated

end Chain

end CallPatch
