import CallPatch.Proofs.Patch.LookAhead
import CallPatch.Proofs.Patch.Subset
/-!
# Patching — in stages

The members of an artifact can be patched all at once, or some of them now and others
later, the artifact being encoded and decoded between. It comes to the same
(`patchCallSites_append`). The calls of a member are looked for in its own code and its
label ids are counted from that code, so a member does not notice what became of the
others; and no stage is short of room where the whole is not, since a patched artifact is
never the smaller one (`Artifact.length_document_le_spliced`). A stage that finds nothing
leaves the bytes as they are spelled, which the next one decodes to the same artifact.

Overloads of a name are patched together. Were one name in both stages, the second would
patch the calls that the first kept as they stood, so the stages share none.
-/

namespace CallPatch

variable {scope : Scope} {names names' : List String} {m : Member} {a : Artifact}

/-! ## Code without calls -/

namespace Code

variable {code : Code}

/-- Where nothing is called, nothing is replaced. -/
theorem spliced_of_puts_eq_zero (h : code.puts scope = 0) (first : Nat) :
    code.spliced scope first = code := by
  induction code with
  | nil => rfl
  | cons insn rest ih =>
    have hinsn : ¬scope.targets insn = true := by
      intro htargets
      rw [puts, List.countP_cons_of_pos htargets] at h
      omega
    rw [puts, List.countP_cons_of_neg hinsn] at h
    rw [spliced_of_not_targets hinsn, ih h]

/-- Where the label ids suffice, the code is still there. -/
theorem sublist_spliced (h : code.firstFresh + 2 * code.puts scope ≤ UInt32.size) :
    code.Sublist (code.spliced scope code.firstFresh) := by
  have hpatch := patch?_eq_spliced scope code
  rw [if_pos h] at hpatch
  exact sublist_of_patch? hpatch

end Code

/-! ## One member -/

namespace Member

@[simp]
theorem name_spliced (scope : Scope) (names : List String) (m : Member) :
    (m.spliced scope names).name = m.name := by
  unfold spliced
  split <;> rfl

@[simp]
theorem desc_spliced (scope : Scope) (names : List String) (m : Member) :
    (m.spliced scope names).desc = m.desc := by
  unfold spliced
  split <;> rfl

theorem spliced_of_mem (h : m.name ∈ names) :
    m.spliced scope names = { m with code := m.code.spliced scope m.code.firstFresh } :=
  if_pos (List.contains_iff_mem.2 h)

theorem spliced_of_notMem (h : m.name ∉ names) : m.spliced scope names = m :=
  if_neg fun hmem => h (List.contains_iff_mem.1 hmem)

theorem puts_of_mem (h : m.name ∈ names) : m.puts scope names = m.code.puts scope :=
  if_pos (List.contains_iff_mem.2 h)

theorem puts_of_notMem (h : m.name ∉ names) : m.puts scope names = 0 :=
  if_neg fun hmem => h (List.contains_iff_mem.1 hmem)

/-- The ids run out in a member that is named and has more calls than there are ids for. -/
theorem exhausts_iff : m.exhausts scope names = true ↔
    m.name ∈ names ∧ UInt32.size < m.code.firstFresh + 2 * m.code.puts scope := by
  have hfresh := m.code.firstFresh_le
  simp only [exhausts, Bool.and_eq_true, decide_eq_true_iff, List.contains_iff_mem]
  constructor
  · rintro ⟨⟨hname, -⟩, hsize⟩
    exact ⟨hname, hsize⟩
  · rintro ⟨hname, hsize⟩
    exact ⟨⟨hname, by omega⟩, hsize⟩

theorem exhausts_of_notMem (h : m.name ∉ names) : m.exhausts scope names = false := by
  rw [← Bool.not_eq_true, exhausts_iff]
  exact fun hexhausts => h hexhausts.1

/-- A member without calls is left alone, named or not. -/
theorem spliced_of_puts_eq_zero (h : m.puts scope names = 0) : m.spliced scope names = m := by
  by_cases hname : m.name ∈ names
  · rw [puts_of_mem hname] at h
    rw [spliced_of_mem hname, Code.spliced_of_puts_eq_zero h]
  · exact spliced_of_notMem hname

/-- A member whose ids suffice becomes no smaller. -/
theorem size_le_spliced (h : m.exhausts scope names = false) :
    Json.size m.toJson ≤ Json.size (m.spliced scope names).toJson := by
  by_cases hname : m.name ∈ names
  · have hids : m.code.firstFresh + 2 * m.code.puts scope ≤ UInt32.size := by
      rw [← Bool.not_eq_true, exhausts_iff] at h
      by_contra hsize
      exact h ⟨hname, by omega⟩
    rw [spliced_of_mem hname]
    exact m.size_le (Code.sublist_spliced hids)
  · have hsame : m.spliced scope names = m := spliced_of_notMem hname
    exact Nat.le_of_eq (by rw [hsame])

/-- Of the names only that of the member counts. -/
theorem congr_names (scope : Scope) (m : Member) {names names' : List String}
    (h : m.name ∈ names ↔ m.name ∈ names') :
    m.spliced scope names = m.spliced scope names' ∧ m.puts scope names = m.puts scope names' ∧
      m.exhausts scope names = m.exhausts scope names' := by
  have hcontains : names.contains m.name = names'.contains m.name := by
    rw [Bool.eq_iff_iff, List.contains_iff_mem, List.contains_iff_mem]
    exact h
  simp only [spliced, puts, exhausts, hcontains, and_self]

/-- **A member is patched in the stage that names it.** In the other it is left alone, and its calls
and its label ids are what they would have been in one go. -/
theorem append_names (scope : Scope) (h : names.Disjoint names') (m : Member) :
    m.spliced scope (names ++ names') = (m.spliced scope names).spliced scope names' ∧
      m.puts scope (names ++ names') =
        m.puts scope names + (m.spliced scope names).puts scope names' ∧
      m.exhausts scope (names ++ names') =
        (m.exhausts scope names || (m.spliced scope names).exhausts scope names') := by
  by_cases hname : m.name ∈ names
  · have hlater : (m.spliced scope names).name ∉ names' := by
      rw [name_spliced]
      exact fun hname' => h hname hname'
    have hfirst : m.name ∈ names ++ names' ↔ m.name ∈ names := by simp [hname]
    obtain ⟨hspliced, hputs, hexhausts⟩ := congr_names scope m hfirst
    refine ⟨?_, ?_, ?_⟩
    · rw [hspliced, spliced_of_notMem hlater]
    · rw [hputs, puts_of_notMem hlater, Nat.add_zero]
    · rw [hexhausts, exhausts_of_notMem hlater, Bool.or_false]
  · have hlater : m.name ∈ names ++ names' ↔ m.name ∈ names' := by simp [hname]
    obtain ⟨hspliced, hputs, hexhausts⟩ := congr_names scope m hlater
    rw [hspliced, hputs, hexhausts, spliced_of_notMem hname, puts_of_notMem hname,
      exhausts_of_notMem hname, Nat.zero_add, Bool.false_or]
    exact ⟨rfl, rfl, rfl⟩

end Member

/-! ## One artifact -/

namespace Artifact

/-- No named member runs out of label ids. -/
def Suffices (scope : Scope) (names : List String) (a : Artifact) : Prop :=
  ∀ m ∈ a.members, m.exhausts scope names = false

instance : Decidable (a.Suffices scope names) :=
  inferInstanceAs (Decidable (∀ m ∈ a.members, m.exhausts scope names = false))

theorem suffices_iff_find? :
    a.Suffices scope names ↔ a.members.find? (Member.exhausts scope names) = none := by
  simp [Suffices, List.find?_eq_none]

theorem puts_eq_zero_iff :
    a.puts scope names = 0 ↔ ∀ m ∈ a.members, m.puts scope names = 0 := by
  rw [puts, ← List.sum_eq_foldl, List.sum_eq_zero_iff_forall_eq_nat]
  simp

/-- An artifact without calls is left alone. -/
theorem spliced_of_puts_eq_zero (h : a.puts scope names = 0) : a.spliced scope names = a := by
  have hmembers : a.members.map (Member.spliced scope names) = a.members.map id :=
    List.map_congr_left fun m hm =>
      Member.spliced_of_puts_eq_zero (puts_eq_zero_iff.1 h m hm)
  rw [List.map_id] at hmembers
  rw [spliced, hmembers]

/-- **A patched artifact is no smaller.** -/
theorem length_document_le_spliced (h : a.Suffices scope names) :
    a.document.length ≤ (a.spliced scope names).document.length := by
  have hmembers : Json.size (.array (a.members.map Member.toJson)) ≤
      Json.size (.array ((a.members.map (Member.spliced scope names)).map Member.toJson)) := by
    refine Json.size_array_le ?_
    simp only [List.forall₂_map_left_iff, List.forall₂_map_right_iff, List.forall₂_same]
    exact fun m hm => Member.size_le_spliced (h m hm)
  exact length_document_le rfl (List.Sublist.refl _) hmembers

/-- The members are patched stage by stage. -/
theorem spliced_append (h : names.Disjoint names') (a : Artifact) :
    a.spliced scope (names ++ names') = (a.spliced scope names).spliced scope names' := by
  have hmembers : a.members.map (Member.spliced scope (names ++ names')) =
      (a.members.map (Member.spliced scope names)).map (Member.spliced scope names') := by
    rw [List.map_map]
    exact List.map_congr_left fun m _ => (Member.append_names scope h m).1
  simp only [spliced, hmembers]

theorem puts_append (h : names.Disjoint names') (a : Artifact) :
    a.puts scope (names ++ names') =
      a.puts scope names + (a.spliced scope names).puts scope names' := by
  simp only [puts, spliced, ← List.sum_eq_foldl, List.map_map]
  generalize a.members = members
  induction members with
  | nil => rfl
  | cons m members ih =>
    have hfirst := (Member.append_names scope h m).2.1
    simp only [List.map_cons, List.sum_cons, Function.comp_apply] at ih ⊢
    omega

theorem suffices_append (h : names.Disjoint names') :
    a.Suffices scope (names ++ names') ↔
      a.Suffices scope names ∧ (a.spliced scope names).Suffices scope names' := by
  have hone (m : Member) : m.exhausts scope (names ++ names') = false ↔
      m.exhausts scope names = false ∧
        (m.spliced scope names).exhausts scope names' = false := by
    rw [(Member.append_names scope h m).2.2, Bool.or_eq_false_iff]
  simp only [Suffices, hone, spliced, List.forall_mem_map]
  exact forall₂_and

end Artifact

/-! ## Bytes -/

variable {bytes : Bytes} {p q r : Patched}

/-- **When patching succeeds, and with what.** -/
theorem patchCallSites_eq_ok_iff_spliced :
    patchCallSites scope names bytes = .ok p ↔
      ∃ a, Artifact.decode bytes = .ok a ∧ a.Suffices scope names ∧
        p.sites = a.puts scope names ∧
          (p.sites = 0 ∧ p.bytes = bytes ∨
            p.sites ≠ 0 ∧ (a.spliced scope names).encode = .ok p.bytes) := by
  rw [patchCallSites_eq_ok_iff]
  refine exists_congr fun a => and_congr_right fun _ => ?_
  rw [Artifact.patch_eq, Artifact.suffices_iff_find?]
  obtain ⟨bytes', sites'⟩ := p
  rcases a.members.find? (Member.exhausts scope names) with - | m
  · constructor
    · rintro ⟨b, sites, hb, hcases⟩
      cases hb
      rcases hcases with ⟨hsites, hp⟩ | ⟨hsites, bytes'', hencode, hp⟩
      · cases hp
        exact ⟨rfl, hsites.symm, .inl ⟨rfl, rfl⟩⟩
      · cases hp
        exact ⟨rfl, rfl, .inr ⟨hsites, hencode⟩⟩
    · rintro ⟨-, hsites, hcases⟩
      refine ⟨_, _, rfl, ?_⟩
      dsimp only at hsites hcases
      subst hsites
      rcases hcases with ⟨hsites, rfl⟩ | ⟨hsites, hencode⟩
      · exact .inl ⟨hsites, by rw [hsites]⟩
      · exact .inr ⟨hsites, _, hencode, rfl⟩
  · simp

/-- Where it succeeds, the ids suffice and the calls are those of the named members. -/
theorem suffices_of_patchCallSites (hdecode : Artifact.decode bytes = .ok a)
    (h : patchCallSites scope names bytes = .ok p) :
    a.Suffices scope names ∧ p.sites = a.puts scope names := by
  obtain ⟨a', ha', hsuffices, hsites, -⟩ := patchCallSites_eq_ok_iff_spliced.1 h
  obtain rfl : a = a' := Except.ok.inj (hdecode.symm.trans ha')
  exact ⟨hsuffices, hsites⟩

/-- What has been patched is the artifact with its calls replaced, also where there are none. -/
theorem decode_spliced (hdecode : Artifact.decode bytes = .ok a)
    (h : patchCallSites scope names bytes = .ok p) :
    Artifact.decode p.bytes = .ok (a.spliced scope names) := by
  obtain ⟨a', ha', -, hsites, hcases⟩ := patchCallSites_eq_ok_iff_spliced.1 h
  obtain rfl : a = a' := Except.ok.inj (hdecode.symm.trans ha')
  rcases hcases with ⟨hnone, hbytes⟩ | ⟨-, hencode⟩
  · rw [Artifact.spliced_of_puts_eq_zero (hsites.symm.trans hnone), hbytes, hdecode]
  · exact Artifact.decode_encode hencode

/-- What was written afresh before is so after. -/
theorem encode_spliced (hencode : a.encode = .ok bytes)
    (h : patchCallSites scope names bytes = .ok p) :
    (a.spliced scope names).encode = .ok p.bytes := by
  obtain ⟨a', ha', -, hsites, hcases⟩ := patchCallSites_eq_ok_iff_spliced.1 h
  obtain rfl : a = a' := Except.ok.inj ((Artifact.decode_encode hencode).symm.trans ha')
  rcases hcases with ⟨hnone, hbytes⟩ | ⟨-, hencode'⟩
  · rw [Artifact.spliced_of_puts_eq_zero (hsites.symm.trans hnone), hbytes, hencode]
  · exact hencode'

/-- Patching succeeds where the ids suffice and the patched artifact is not too large. -/
theorem exists_patchCallSites (hdecode : Artifact.decode bytes = .ok a)
    (hsuffices : a.Suffices scope names)
    (hlength : (a.spliced scope names).document.length ≤ Frame.defaultMax) :
    ∃ p, patchCallSites scope names bytes = .ok p := by
  by_cases hnone : a.puts scope names = 0
  · exact ⟨⟨bytes, 0⟩, patchCallSites_eq_ok_iff_spliced.2
      ⟨a, hdecode, hsuffices, hnone.symm, .inl ⟨rfl, rfl⟩⟩⟩
  · obtain ⟨bytes', hencode⟩ := Artifact.encode_of_length_le_default hlength
    exact ⟨⟨bytes', a.puts scope names⟩, patchCallSites_eq_ok_iff_spliced.2
      ⟨a, hdecode, hsuffices, rfl, .inr ⟨hnone, hencode⟩⟩⟩

/-- Two stages that succeed make up the whole. -/
theorem patchCallSites_append_of_ok (h : names.Disjoint names')
    (hq : patchCallSites scope names bytes = .ok q)
    (hr : patchCallSites scope names' q.bytes = .ok r) :
    patchCallSites scope (names ++ names') bytes = .ok ⟨r.bytes, q.sites + r.sites⟩ := by
  obtain ⟨a, hdecode, hfirst, hsites, hcases⟩ := patchCallSites_eq_ok_iff_spliced.1 hq
  obtain ⟨b, hdecode', hsecond, hsites', hcases'⟩ := patchCallSites_eq_ok_iff_spliced.1 hr
  obtain rfl : a.spliced scope names = b :=
    Except.ok.inj ((decode_spliced hdecode hq).symm.trans hdecode')
  refine patchCallSites_eq_ok_iff_spliced.2
    ⟨a, hdecode, (Artifact.suffices_append h).2 ⟨hfirst, hsecond⟩, ?_, ?_⟩
  · rw [Artifact.puts_append h, hsites, hsites']
  · dsimp only
    rw [Artifact.spliced_append h]
    rcases hcases' with ⟨hnone', hbytes'⟩ | ⟨hsome', hencode'⟩
    · -- the second stage has left the bytes as they were
      rw [Artifact.spliced_of_puts_eq_zero (hsites'.symm.trans hnone'), hbytes', hnone']
      rcases hcases with ⟨hnone, hbytes⟩ | ⟨hsome, hencode⟩
      · exact .inl ⟨hnone, hbytes⟩
      · exact .inr ⟨hsome, hencode⟩
    · exact .inr ⟨by omega, hencode'⟩

/-- Where the whole succeeds, each of the stages does. -/
theorem exists_stages (h : names.Disjoint names')
    (hp : patchCallSites scope (names ++ names') bytes = .ok p) :
    ∃ q r, patchCallSites scope names bytes = .ok q ∧
      patchCallSites scope names' q.bytes = .ok r := by
  obtain ⟨q, hq⟩ := patchCallSites_of_subset (List.subset_append_left names names') hp
  obtain ⟨a, hdecode, hboth, hsites, hcases⟩ := patchCallSites_eq_ok_iff_spliced.1 hp
  have hdecode' := decode_spliced hdecode hq
  have hsecond := ((Artifact.suffices_append h).1 hboth).2
  by_cases hnone : (a.spliced scope names).puts scope names' = 0
  · exact ⟨q, ⟨q.bytes, 0⟩, hq, patchCallSites_eq_ok_iff_spliced.2
      ⟨_, hdecode', hsecond, hnone.symm, .inl ⟨rfl, rfl⟩⟩⟩
  · -- the second stage writes what the whole writes
    rw [Artifact.puts_append h] at hsites
    have hencode := (hcases.resolve_left fun hcase => by omega).2
    rw [Artifact.spliced_append h] at hencode
    obtain ⟨r, hr⟩ := exists_patchCallSites hdecode' hsecond
      (Artifact.length_le_of_encode hencode)
    exact ⟨q, r, hq, hr⟩

/-- **Patching name by name is patching all at once.** With two lists that share no name, the
artifact is patched in one go just when it is patched with the one and then with the other; the
bytes are the same, and the sites add up. Which list it is counts only by the names in it. -/
theorem patchCallSites_append (scope : Scope) (bytes : Bytes) :
    (∀ names names' : List String, names.Disjoint names' → ∀ p,
      patchCallSites scope (names ++ names') bytes = .ok p ↔
        ∃ q r, patchCallSites scope names bytes = .ok q ∧
          patchCallSites scope names' q.bytes = .ok r ∧
            p.bytes = r.bytes ∧ p.sites = q.sites + r.sites) ∧
    ∀ names names' : List String, (∀ name, name ∈ names ↔ name ∈ names') →
      patchCallSites scope names bytes = patchCallSites scope names' bytes := by
  refine ⟨fun names names' h p => ⟨fun hp => ?_, ?_⟩, fun names names' h => ?_⟩
  · obtain ⟨q, r, hq, hr⟩ := exists_stages h hp
    have hboth := patchCallSites_append_of_ok h hq hr
    obtain rfl := Except.ok.inj (hp.symm.trans hboth)
    exact ⟨q, r, hq, hr, rfl, rfl⟩
  · rintro ⟨q, r, hq, hr, hbytes, hsites⟩
    rw [patchCallSites_append_of_ok h hq hr, ← hbytes, ← hsites]
  · rw [patchCallSites_congr h]

/-! ## A name in two overloads -/

namespace Overloaded

/-- Calls `put` on a store. -/
def call : Insn :=
  .invoke .interface Store.storeInterface Store.put Store.putDesc

/-- An owner with two members `record`, of which the second has a label of its own, and a member
that uses the result of its call. -/
def ledger : Artifact where
  name := "acme/Ledger"
  supertypes := []
  members := [
    { name := "record"
      desc := "(store,key)->void"
      access := .pub
      code := [.load 1, .load 2, .load 2, call, .pop, .ret] },
    { name := "audit"
      desc := "(store,key,value)->value"
      access := .pub
      code := [.load 1, .load 2, .load 3, call, .retValue] },
    { name := "record"
      desc := "(store,key,value)->void"
      access := .priv
      code := [.label 7, .load 1, .load 2, .load 3, call, .pop, .goto 7] }]

/-- The two members `record` are patched before `audit`, or with it. -/
theorem patchCallSites_append_ledger : ∃ bytes p q r, Artifact.decode bytes = .ok ledger ∧
    patchCallSites .interfacesOnly (["record"] ++ ["audit"]) bytes = .ok p ∧ p.sites = 3 ∧
      patchCallSites .interfacesOnly ["record"] bytes = .ok q ∧ q.sites = 2 ∧
        patchCallSites .interfacesOnly ["audit"] q.bytes = .ok r ∧ r.bytes = p.bytes := by
  obtain ⟨bytes, hencode⟩ := Artifact.encode_of_length_le_default (a := ledger) (by decide +kernel)
  obtain ⟨bytes', hencode'⟩ := Artifact.encode_of_length_le_default
    (a := ledger.spliced .interfacesOnly (["record"] ++ ["audit"])) (by decide +kernel)
  have hdecode : Artifact.decode bytes = .ok ledger := Artifact.decode_encode hencode
  have hsites : ledger.puts .interfacesOnly (["record"] ++ ["audit"]) = 3 := by decide
  have hp : patchCallSites .interfacesOnly (["record"] ++ ["audit"]) bytes = .ok ⟨bytes', 3⟩ :=
    patchCallSites_eq_ok_iff_spliced.2
      ⟨ledger, hdecode, by decide, hsites.symm, .inr ⟨Nat.succ_ne_zero 2, hencode'⟩⟩
  obtain ⟨q, r, hq, hr, hbytes, -⟩ :=
    ((patchCallSites_append .interfacesOnly bytes).1 ["record"] ["audit"] (by simp) _).1 hp
  obtain ⟨-, hfirst⟩ := suffices_of_patchCallSites hdecode hq
  exact ⟨bytes, _, q, r, hdecode, hp, rfl, hq, hfirst, hr, hbytes.symm⟩

end Overloaded

end CallPatch
