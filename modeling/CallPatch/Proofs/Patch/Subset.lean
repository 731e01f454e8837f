import CallPatch.Proofs.Artifact.RoundTrip
import CallPatch.Proofs.Json.Size
import CallPatch.Proofs.Patch.Passes
import CallPatch.Proofs.Patch.Pieces
/-!
# Patching — fewer members

What patching makes of an artifact depends on which members are named, not on
the order they are named in (`patchCallSites_congr`). If it succeeds with some
members it succeeds with fewer of them (`patchCallSites_of_subset`): each
member has label ids of its own, and a member that is left alone takes no more
bytes than it would patched, since patched code holds all of the code it was
made from. What a site takes beyond that is the same for every site
(`Artifact.codeLength_patch`), so a patch that finds one makes another artifact.
-/

namespace CallPatch

open Json (size)

variable {scope : Scope} {names names' : List String} {owner : String} {m : Member} {sites : Nat}

/-! ## Code -/

theorem Piece.sublist_after (p : Piece) (first : Nat) : p.before.Sublist (p.after first) := by
  cases p with
  | kept insn => exact List.Sublist.refl _
  | site put discarded =>
    -- the call is made as it stood where the receiver lacks the capability
    obtain ⟨front, done, hafter⟩ : ∃ front done, after first (.site put discarded) =
        front ++ (before (.site put discarded) ++ [done]) :=
      ⟨(after first (.site put discarded)).take 13, _, rfl⟩
    rw [hafter]
    exact (List.sublist_append_left _ _).trans (List.sublist_append_right _ _)

/-- **Patched code holds the code it was made from.** -/
theorem Code.sublist_of_patch? {code patched : Code}
    (h : code.patch? scope = some (patched, sites)) : code.Sublist patched := by
  rw [Code.patch?_eq] at h
  split at h
  · obtain ⟨rfl, -⟩ := Prod.mk.inj (Option.some.inj h)
    have hwritten (ps : List Piece) (first : Nat) :
        (ps.flatMap Piece.before).Sublist (Piece.written first ps) := by
      induction ps generalizing first with
      | nil => exact List.Sublist.refl _
      | cons p ps ih => exact (p.sublist_after first).append (ih _)
    have hbefore := hwritten (Code.pieces scope code) code.firstFresh
    rwa [Code.before_pieces] at hbefore
  · cases h

/-- A site takes fourteen instructions more than there were. -/
theorem Piece.length_written (first : Nat) (ps : List Piece) :
    (Piece.written first ps).length = (ps.flatMap Piece.before).length + 14 * Piece.sites ps := by
  induction ps generalizing first with
  | nil => rfl
  | cons p ps ih =>
    have hone : (p.after first).length = p.before.length + 7 * p.labels := by
      cases p with
      | kept insn => rfl
      | site put discarded => cases discarded <;> rfl
    have hsites := Piece.sites_cons p ps
    rw [Piece.written, List.length_append, ih, hone, List.flatMap_cons, List.length_append]
    omega

theorem Code.length_of_patch? {code patched : Code}
    (h : code.patch? scope = some (patched, sites)) :
    patched.length = code.length + 14 * sites := by
  rw [Code.patch?_eq] at h
  split at h
  · obtain ⟨rfl, rfl⟩ := Prod.mk.inj (Option.some.inj h)
    rw [Piece.length_written, Code.before_pieces]
  · cases h

/-! ## Members -/

/-- A member is left alone, or named and patched. -/
theorem Member.patch_eq_ok_iff {p : Member × Nat} :
    m.patch scope names owner = .ok p ↔
      m.name ∉ names ∧ p = (m, 0) ∨
        m.name ∈ names ∧ ∃ code sites, m.code.patch? scope = some (code, sites) ∧
          p = ({ m with code }, sites) := by
  unfold Member.patch
  by_cases hname : m.name ∈ names
  · rw [if_pos (by simpa using hname)]
    rcases hpatch : m.code.patch? scope with - | ⟨code, sites⟩
    · simp [hname]
    · simp [hname, eq_comm]
  · rw [if_neg (by simpa using hname)]
    simp [hname, eq_comm]

theorem Member.patch_congr (h : ∀ name, name ∈ names ↔ name ∈ names') :
    Member.patch scope names = Member.patch scope names' := by
  funext owner m
  have hcontains : names.contains m.name = names'.contains m.name := by
    rw [Bool.eq_iff_iff, List.contains_iff_mem, List.contains_iff_mem]
    exact h m.name
  unfold Member.patch
  rw [hcontains]

/-- Larger code makes a larger member. -/
theorem Member.size_le (m : Member) {code : Code} (h : m.code.Sublist code) :
    size m.toJson ≤ size (toJson { m with code }) := by
  have hcode : size (.array (m.code.map Insn.toJson)) ≤ size (.array (code.map Insn.toJson)) :=
    Json.size_array_le_of_sublist (h.map Insn.toJson)
  exact Json.size_object_le (.cons ⟨rfl, Nat.le_refl _⟩ (.cons ⟨rfl, Nat.le_refl _⟩
    (.cons ⟨rfl, Nat.le_refl _⟩ (.cons ⟨rfl, hcode⟩ .nil))))

/-- With fewer names a member is patched too, into one no larger and with no more sites. -/
theorem Member.patch_of_subset (h : names ⊆ names') {p : Member × Nat}
    (hp : m.patch scope names' owner = .ok p) :
    ∃ q, m.patch scope names owner = .ok q ∧ size q.1.toJson ≤ size p.1.toJson ∧ q.2 ≤ p.2 := by
  by_cases hname : m.name ∈ names
  · have hsame : m.patch scope names owner = m.patch scope names' owner := by
      unfold Member.patch
      rw [if_pos (by simpa using hname), if_pos (by simpa using h hname)]
    exact ⟨p, hsame.trans hp, Nat.le_refl _, Nat.le_refl _⟩
  · have halone : m.patch scope names owner = .ok (m, 0) :=
      Member.patch_eq_ok_iff.2 (.inl ⟨hname, rfl⟩)
    rcases Member.patch_eq_ok_iff.1 hp with ⟨-, rfl⟩ | ⟨-, code, sites, hpatch, rfl⟩
    · exact ⟨_, halone, Nat.le_refl _, Nat.le_refl _⟩
    · exact ⟨_, halone, m.size_le (Code.sublist_of_patch? hpatch), Nat.zero_le _⟩

/-! ## Artifacts -/

/-- A pass over a list succeeds when it does so at each place. -/
theorem mapM_eq_ok_iff {ε α β : Type} {f : α → Except ε β} {as : List α} {bs : List β} :
    as.mapM f = .ok bs ↔ List.Forall₂ (fun a b => f a = .ok b) as bs := by
  induction as generalizing bs with
  | nil =>
    rw [List.mapM_nil]
    constructor
    · intro h
      cases h
      exact .nil
    · intro h
      cases h
      rfl
  | cons a as ih =>
    simp only [List.mapM_cons, bind_eq_ok_iff]
    constructor
    · rintro ⟨b, hb, bs', hbs, h⟩
      cases h
      exact .cons hb (ih.1 hbs)
    · intro h
      cases h with
      | cons hb hbs => exact ⟨_, hb, _, ih.2 hbs, rfl⟩

theorem Artifact.patch_eq_ok_iff {a b : Artifact} :
    a.patch scope names = .ok (b, sites) ↔
      ∃ ps, List.Forall₂ (fun m p => m.patch scope names a.name = .ok p) a.members ps ∧
        b = { a with members := ps.map Prod.fst } ∧
          sites = (ps.map Prod.snd).foldl (· + ·) 0 := by
  simp only [Artifact.patch, bind_eq_ok_iff, mapM_eq_ok_iff]
  refine exists_congr fun ps => and_congr_right fun _ => ?_
  simp [pure, Except.pure, eq_comm]

/-- More supertypes and larger members make a larger artifact. -/
theorem Artifact.length_document_le {a b : Artifact} (hname : a.name = b.name)
    (hsupertypes : a.supertypes.Sublist b.supertypes)
    (hmembers : size (.array (a.members.map Member.toJson)) ≤
      size (.array (b.members.map Member.toJson))) :
    a.document.length ≤ b.document.length := by
  have htypes : size (.array (a.supertypes.map Json.string)) ≤
      size (.array (b.supertypes.map Json.string)) :=
    Json.size_array_le_of_sublist (hsupertypes.map Json.string)
  exact Json.size_object_le (.cons ⟨rfl, Nat.le_of_eq (by rw [hname])⟩
    (.cons ⟨rfl, htypes⟩ (.cons ⟨rfl, hmembers⟩ .nil)))

/-- How many instructions the members have. -/
def Artifact.codeLength (a : Artifact) : Nat :=
  (a.members.flatMap Member.code).length

/-- **Each site makes an artifact longer.** -/
theorem Artifact.codeLength_patch {a b : Artifact} (h : a.patch scope names = .ok (b, sites)) :
    b.codeLength = a.codeLength + 14 * sites := by
  obtain ⟨ps, hps, rfl, rfl⟩ := Artifact.patch_eq_ok_iff.1 h
  have hone (m : Member) (p : Member × Nat) (hp : m.patch scope names a.name = .ok p) :
      p.1.code.length = m.code.length + 14 * p.2 := by
    rcases Member.patch_eq_ok_iff.1 hp with ⟨-, rfl⟩ | ⟨-, code, sites, hpatch, rfl⟩
    · rfl
    · exact Code.length_of_patch? hpatch
  rw [← List.sum_eq_foldl]
  show ((ps.map Prod.fst).flatMap Member.code).length =
    (a.members.flatMap Member.code).length + 14 * (ps.map Prod.snd).sum
  clear h
  generalize a.members = members at hps
  induction hps with
  | nil => rfl
  | cons hp _ ih =>
    have hfirst := hone _ _ hp
    simp only [List.map_cons, List.flatMap_cons, List.length_append, List.sum_cons]
    omega

/-- So a site makes another artifact. -/
theorem Artifact.ne_of_patch {a b : Artifact} (h : a.patch scope names = .ok (b, sites))
    (hsites : sites ≠ 0) : a ≠ b := by
  rintro rfl
  have hlength := Artifact.codeLength_patch h
  omega

/-- What is related at each place through some element is related through a list of them. -/
theorem exists_forall₂ {α β γ : Type} {R : α → β → Prop} {S : α → γ → Prop} {T : γ → β → Prop}
    (h : ∀ a b, R a b → ∃ c, S a c ∧ T c b) {as : List α} {bs : List β}
    (hs : List.Forall₂ R as bs) : ∃ cs, List.Forall₂ S as cs ∧ List.Forall₂ T cs bs := by
  induction hs with
  | nil => exact ⟨[], .nil, .nil⟩
  | cons hab _ ih =>
    obtain ⟨c, hac, hcb⟩ := h _ _ hab
    obtain ⟨cs, hacs, hcbs⟩ := ih
    exact ⟨c :: cs, .cons hac hacs, .cons hcb hcbs⟩

/-- With fewer names an artifact is patched too, into one no larger and with no more sites. -/
theorem Artifact.patch_of_subset (h : names ⊆ names') {a b : Artifact}
    (hb : a.patch scope names' = .ok (b, sites)) :
    ∃ c sites', a.patch scope names = .ok (c, sites') ∧
      c.document.length ≤ b.document.length ∧ sites' ≤ sites := by
  obtain ⟨ps, hps, rfl, rfl⟩ := Artifact.patch_eq_ok_iff.1 hb
  obtain ⟨qs, hqs, hles⟩ := exists_forall₂ (fun m p hp => Member.patch_of_subset h hp) hps
  refine ⟨_, _, Artifact.patch_eq_ok_iff.2 ⟨qs, hqs, rfl, rfl⟩, ?_, ?_⟩
  · have hmembers : size (.array ((qs.map Prod.fst).map Member.toJson)) ≤
        size (.array ((ps.map Prod.fst).map Member.toJson)) := by
      refine Json.size_array_le ?_
      simp only [List.forall₂_map_left_iff, List.forall₂_map_right_iff]
      exact hles.imp fun _ _ hle => hle.1
    exact Artifact.length_document_le rfl (List.Sublist.refl _) hmembers
  · have hadd (n m : Nat) (hn : n ≤ m) (k l : Nat) (hk : k ≤ l) : n + k ≤ m + l :=
      Nat.add_le_add hn hk
    refine List.rel_foldl (R := (· ≤ ·)) hadd (Nat.le_refl 0) ?_
    simp only [List.forall₂_map_left_iff, List.forall₂_map_right_iff]
    exact hles.imp fun _ _ hle => hle.2

/-! ## Bytes -/

/-- **The order of the names does not matter**, nor how often one is given. -/
theorem patchCallSites_congr (h : ∀ name, name ∈ names ↔ name ∈ names') :
    patchCallSites scope names = patchCallSites scope names' := by
  funext bytes
  unfold patchCallSites Artifact.patch
  rw [Member.patch_congr h]

/-- **If patching succeeds with some members, it succeeds with fewer of them.** -/
theorem patchCallSites_of_subset (h : names ⊆ names') {bytes : Bytes} {p : Patched}
    (hp : patchCallSites scope names' bytes = .ok p) :
    ∃ q, patchCallSites scope names bytes = .ok q := by
  obtain ⟨a, hdecode, b, sites, hb, hresult⟩ := patchCallSites_eq_ok_iff.1 hp
  obtain ⟨c, sites', hc, hlength, hsites⟩ := Artifact.patch_of_subset h hb
  by_cases hnone : sites' = 0
  · exact ⟨_, patchCallSites_eq_ok_iff.2 ⟨a, hdecode, c, sites', hc, .inl ⟨hnone, rfl⟩⟩⟩
  · rcases hresult with ⟨rfl, -⟩ | ⟨-, bytes', hencode, -⟩
    · omega
    · have hmax := Artifact.length_le_of_encode hencode
      obtain ⟨bytes'', hencode'⟩ :=
        Artifact.encode_of_length_le_default (Nat.le_trans hlength hmax)
      exact ⟨_, patchCallSites_eq_ok_iff.2 ⟨a, hdecode, c, sites', hc,
        .inr ⟨hnone, bytes'', hencode', rfl⟩⟩⟩

/-- Patching keeps the name and the supertypes. -/
theorem decode_of_patchCallSites {bytes : Bytes} {p : Patched}
    (hp : patchCallSites scope names bytes = .ok p) :
    ∃ a b, Artifact.decode bytes = .ok a ∧ Artifact.decode p.bytes = .ok b ∧
      b.name = a.name ∧ b.supertypes = a.supertypes := by
  obtain ⟨a, hdecode, b, sites, hb, hresult⟩ := patchCallSites_eq_ok_iff.1 hp
  obtain ⟨ps, -, rfl, -⟩ := Artifact.patch_eq_ok_iff.1 hb
  rcases hresult with ⟨-, rfl⟩ | ⟨-, bytes', hencode, rfl⟩
  · exact ⟨a, a, hdecode, hdecode, rfl, rfl⟩
  · exact ⟨a, _, hdecode, Artifact.decode_encode hencode, rfl, rfl⟩

end CallPatch
