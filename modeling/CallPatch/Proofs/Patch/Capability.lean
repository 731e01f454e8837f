import CallPatch.Host.Basic
import CallPatch.Proofs.Patch.Subset
/-!
# Patching — who has the capability

A store has the capability when it declares the marker and has the members that
an extension adds (`Artifact.Capable`). An extension gives it
(`Artifact.capable_of_extend`), and patching neither gives nor takes it, since it
changes no more than the code of members (`Artifact.signatures_patch`).
-/

namespace CallPatch

/-- What a member is known by to those who call it. -/
def Member.signature (m : Member) : String × String × Access :=
  (m.name, m.desc, m.access)

/-- The store declares the marker, and has the members that an extension adds, whatever their
code. -/
structure Artifact.Capable (a : Artifact) : Prop where
  marked : a.declares Store.marker = true
  entryPoints : ∀ m ∈ Store.entryPoints a.name, m.signature ∈ a.members.map Member.signature

/-- The bytes are those of a store with the capability. -/
def IsCapable (bytes : Bytes) : Prop :=
  ∃ a, Artifact.decode bytes = .ok a ∧ a.Capable

variable {a b : Artifact} {scope : Scope} {names : List String} {sites : Nat} {bytes : Bytes}

theorem isCapable_iff (h : Artifact.decode bytes = .ok a) : IsCapable bytes ↔ a.Capable := by
  constructor
  · rintro ⟨a', ha', hcapable⟩
    obtain rfl : a = a' := Except.ok.inj (h.symm.trans ha')
    exact hcapable
  · exact fun hcapable => ⟨a, h, hcapable⟩

/-- An extended store has the capability. -/
theorem Artifact.capable_of_extend (h : a.extend = .ok b) : b.Capable := by
  obtain ⟨-, -, rfl⟩ := Artifact.extend_eq_ok_iff.1 h
  refine ⟨?_, fun m hm => ?_⟩
  · simp [Artifact.declares]
  · exact List.mem_map_of_mem (List.mem_append_right _ hm)

/-- Patching changes no signature. -/
theorem Artifact.signatures_patch (h : a.patch scope names = .ok (b, sites)) :
    b.name = a.name ∧ b.supertypes = a.supertypes ∧
      b.members.map Member.signature = a.members.map Member.signature := by
  obtain ⟨ps, hps, rfl, -⟩ := Artifact.patch_eq_ok_iff.1 h
  refine ⟨rfl, rfl, ?_⟩
  have hsame (m : Member) (p : Member × Nat) (hp : m.patch scope names a.name = .ok p) :
      p.1.signature = m.signature := by
    rcases Member.patch_eq_ok_iff.1 hp with ⟨-, rfl⟩ | ⟨-, code, sites, -, rfl⟩ <;> rfl
  show (ps.map Prod.fst).map Member.signature = a.members.map Member.signature
  clear h
  generalize a.members = members at hps
  induction hps with
  | nil => rfl
  | cons hp _ ih => rw [List.map_cons, List.map_cons, List.map_cons, hsame _ _ hp, ih]

theorem Artifact.capable_patch (h : a.patch scope names = .ok (b, sites)) :
    b.Capable ↔ a.Capable := by
  obtain ⟨hname, hsupertypes, hmembers⟩ := Artifact.signatures_patch h
  have hmarked : b.declares Store.marker = a.declares Store.marker := by
    rw [Artifact.declares, Artifact.declares, hsupertypes]
  constructor
  · rintro ⟨hmark, hpoints⟩
    rw [hmarked] at hmark
    rw [hname, hmembers] at hpoints
    exact ⟨hmark, hpoints⟩
  · rintro ⟨hmark, hpoints⟩
    refine ⟨hmarked.trans hmark, ?_⟩
    rw [hname, hmembers]
    exact hpoints

/-- **Patching neither gives nor takes the capability.** -/
theorem isCapable_patchCallSites {p : Patched} (h : patchCallSites scope names bytes = .ok p) :
    IsCapable p.bytes ↔ IsCapable bytes := by
  obtain ⟨a, hdecode, b, sites, hb, ⟨-, rfl⟩ | ⟨-, bytes', hencode, rfl⟩⟩ :=
    patchCallSites_eq_ok_iff.1 h
  · exact Iff.rfl
  · have hdecode' : Artifact.decode bytes' = .ok b := Artifact.decode_encode hencode
    rw [isCapable_iff hdecode, isCapable_iff hdecode']
    exact Artifact.capable_patch hb

/-- Bytes that have the capability are left alone by an extension. -/
theorem extendStore_of_isCapable (h : IsCapable bytes) :
    extendStore bytes = .ok ⟨bytes, false⟩ := by
  obtain ⟨a, hdecode, hcapable⟩ := h
  exact extendStore_eq_ok_iff.2 ⟨a, hdecode, .inl ⟨hcapable.marked, rfl⟩⟩

/-- What has been extended declares the marker, and what is left alone did so before. -/
theorem marker_mem_of_extendStore {e : Extended} (h : extendStore bytes = .ok e) :
    Store.marker ∈ Host.declaredBy e.bytes := by
  obtain ⟨a, hdecode, ⟨hmarked, rfl⟩ | ⟨-, b, hb, bytes', hencode, rfl⟩⟩ :=
    extendStore_eq_ok_iff.1 h
  · simpa only [Host.declaredBy, hdecode, Artifact.declares, List.contains_iff_mem] using hmarked
  · have hmarked := (Artifact.capable_of_extend hb).marked
    simpa only [Host.declaredBy, Artifact.decode_encode hencode, Artifact.declares,
      List.contains_iff_mem] using hmarked

/-- A store and what it is extended to, both within the limit, have bytes. -/
theorem exists_extendStore (hunmarked : a.declares Store.marker = false) (hb : a.extend = .ok b)
    (hlength : a.document.length ≤ Frame.defaultMax)
    (hlength' : b.document.length ≤ Frame.defaultMax) :
    ∃ bytes bytes', Artifact.decode bytes = .ok a ∧ Artifact.decode bytes' = .ok b ∧
      extendStore bytes = .ok ⟨bytes', true⟩ := by
  obtain ⟨bytes, hencode⟩ := Artifact.encode_of_length_le_default hlength
  obtain ⟨bytes', hencode'⟩ := Artifact.encode_of_length_le_default hlength'
  have hdecode : Artifact.decode bytes = .ok a := Artifact.decode_encode hencode
  exact ⟨bytes, bytes', hdecode, Artifact.decode_encode hencode',
    extendStore_eq_ok_iff.2 ⟨a, hdecode, .inr ⟨hunmarked, b, hb, bytes', hencode', rfl⟩⟩⟩

end CallPatch
