import CallPatch.Proofs.Machine.Execution
import CallPatch.Proofs.Patch.Pieces
/-!
# Patching — labels

The label ids of the replacements are counted up from one past the highest id
that the code mentions, so they clash neither with the code nor with each
other. A jump of the code therefore finds behind the pass what it found before
it (`from?_written`), and a jump inside a replacement finds its own label
(`from?_fallback`, `from?_done`).
-/

namespace CallPatch

namespace Code

theorem le_of_max? {ids : List UInt32} {highest id : UInt32} (h : ids.max? = some highest)
    (hid : id ∈ ids) : id ≤ highest := by
  have : Std.LawfulOrderSup UInt32 := ⟨fun a b c => by
    rw [show max a b = if a ≤ b then b else a from rfl]
    split <;> simp only [UInt32.le_iff_toNat_le] at * <;> omega⟩
  exact (List.max?_le_iff h).1 (UInt32.le_refl _) id hid

/-- The first fresh id is one past the highest that the code mentions, also past the last id. -/
theorem firstFresh_of_max? {code : Code} {highest : UInt32}
    (h : (code.filterMap Insn.label?).max? = some highest) :
    code.firstFresh = highest.toNat + 1 := by
  have hlt : highest.toNat < UInt32.size := highest.toNat_lt_size
  have hnext : code.nextLabel? = nextId? highest := by simp only [nextLabel?, h]
  unfold firstFresh
  rw [hnext, nextId?]
  by_cases hhighest : highest.toNat + 1 < UInt32.size
  · rw [if_pos hhighest]
    show (highest + 1).toNat = highest.toNat + 1
    rw [UInt32.toNat_add]
    exact Nat.mod_eq_of_lt hhighest
  · rw [if_neg hhighest]
    show UInt32.size = highest.toNat + 1
    omega

/-- Every label id that the code mentions lies below the first fresh one. -/
theorem lt_firstFresh {code : Code} {insn : Insn} {id : UInt32} (hinsn : insn ∈ code)
    (hid : insn.label? = some id) : id.toNat < code.firstFresh := by
  have hmem : id ∈ code.filterMap Insn.label? := List.mem_filterMap.2 ⟨insn, hinsn, hid⟩
  obtain ⟨highest, hmax⟩ := Option.isSome_iff_exists.1 (List.isSome_max?_of_mem hmem)
  have hle : id.toNat ≤ highest.toNat := UInt32.le_iff_toNat_le.1 (le_of_max? hmax hmem)
  rw [firstFresh_of_max? hmax]
  omega

/-! ## Finding a label -/

theorem from?_append {id : UInt32} {front : Code} (h : .label id ∉ front) (code : Code) :
    from? id (front ++ code) = from? id code := by
  induction front with
  | nil => rfl
  | cons insn front ih =>
    rw [List.mem_cons, not_or] at h
    rw [List.cons_append, from?, if_neg (Ne.symm h.1), ih h.2]

theorem from?_self (id : UInt32) (code : Code) :
    from? id (.label id :: code) = some (.label id :: code) :=
  if_pos rfl

end Code

/-! ## The labels that are written -/

theorem StorePut.label_mem_replacement {put : StorePut} {discarded : Bool}
    {fallback done id : UInt32} (h : .label id ∈ put.replacement discarded fallback done) :
    id = fallback ∨ id = done := by
  cases discarded <;> simpa [replacement, capableCall, call] using h

/-- A jump to the fallback of a replacement goes to the call as it stood. -/
theorem StorePut.from?_fallback (put : StorePut) (discarded : Bool) {fallback : UInt32}
    {front : Code} (done : UInt32) (h : .label fallback ∉ front) (rest : Code) :
    Code.from? fallback (front ++ (put.replacement discarded fallback done ++ rest)) =
      some (.label fallback :: .dupX2 :: .pop :: put.call ::
        ((if discarded then [.pop] else []) ++ .label done :: rest)) := by
  rw [Code.from?_append h]
  cases discarded <;> simp [replacement, capableCall, Code.from?]

/-- A jump to the end of a replacement goes behind it. -/
theorem StorePut.from?_done (put : StorePut) (discarded : Bool) {fallback done : UInt32}
    {front : Code} (hne : fallback ≠ done) (h : .label done ∉ front) (rest : Code) :
    Code.from? done (front ++ (put.replacement discarded fallback done ++ rest)) =
      some (.label done :: rest) := by
  rw [Code.from?_append h]
  cases discarded <;> simp [replacement, capableCall, call, Code.from?, hne]

namespace Piece

variable {first : Nat} {id : UInt32}

theorem label_mem_after {p : Piece} (hsize : first + p.labels ≤ UInt32.size)
    (h : .label id ∈ p.after first) :
    .label id ∈ p.before ∨ first ≤ id.toNat ∧ id.toNat < first + p.labels := by
  cases p with
  | kept insn => exact .inl h
  | site put discarded =>
    right
    simp only [labels] at hsize ⊢
    rcases StorePut.label_mem_replacement h with rfl | rfl
    · rw [UInt32.toNat_ofNat_of_lt' (by omega)]; omega
    · rw [UInt32.toNat_ofNat_of_lt' (by omega)]; omega

/-- A label that is written stands in the code or is one of the fresh ones. -/
theorem label_mem_written {ps : List Piece} (hsize : first + 2 * sites ps ≤ UInt32.size)
    (h : .label id ∈ written first ps) :
    .label id ∈ ps.flatMap before ∨ first ≤ id.toNat ∧ id.toNat < first + 2 * sites ps := by
  induction ps generalizing first with
  | nil => cases h
  | cons p ps ih =>
    rw [sites_cons] at hsize ⊢
    rw [List.flatMap_cons, List.mem_append]
    rcases List.mem_append.1 h with h | h
    · rcases label_mem_after (by omega) h with h | h
      · exact .inl (.inl h)
      · right; omega
    · rcases ih (by omega) h with h | h
      · exact .inl (.inr h)
      · right; omega

/-- Where a jump of the code goes, before the pass and behind it: nowhere, or to the same piece. -/
theorem from?_written (ps : List Piece) {first : Nat} (hid : id.toNat < first)
    (hsize : first + 2 * sites ps ≤ UInt32.size) :
    Code.from? id (ps.flatMap before) = none ∧ Code.from? id (written first ps) = none ∨
      ∃ passed ahead, ps = passed ++ ahead ∧
        Code.from? id (ps.flatMap before) = some (ahead.flatMap before) ∧
        Code.from? id (written first ps) = some (written (first + 2 * sites passed) ahead) := by
  induction ps generalizing first with
  | nil => exact .inl ⟨rfl, rfl⟩
  | cons p ps ih =>
    rw [sites_cons] at hsize
    by_cases hp : p = .kept (.label id)
    · subst hp
      exact .inr ⟨[], _, rfl, Code.from?_self _ _, Code.from?_self _ _⟩
    · have hbefore : .label id ∉ p.before := by
        intro h
        cases p with
        | kept insn => exact hp (by rw [List.mem_singleton.1 h])
        | site put discarded => cases discarded <;> simp [before, StorePut.call] at h
      have hafter : .label id ∉ p.after first := by
        intro h
        rcases label_mem_after (by omega) h with h | h
        · exact hbefore h
        · omega
      rw [List.flatMap_cons, written, Code.from?_append hbefore, Code.from?_append hafter]
      have hid' : id.toNat < first + p.labels := by omega
      rcases ih hid' (by omega) with h | h
      · exact .inl h
      · obtain ⟨passed, ahead, rfl, hfrom, hfrom'⟩ := h
        refine .inr ⟨p :: passed, ahead, rfl, hfrom, ?_⟩
        rw [hfrom', sites_cons, Nat.add_assoc]

/-- A fresh id is no label of what is written before its own replacement. -/
theorem not_mem_written {code : Code} {ps : List Piece}
    (hps : ∀ insn ∈ ps.flatMap before, insn ∈ code)
    (hsize : code.firstFresh + 2 * sites ps ≤ UInt32.size)
    (hid : code.firstFresh + 2 * sites ps ≤ id.toNat) :
    .label id ∉ written code.firstFresh ps := by
  intro h
  rcases label_mem_written hsize h with h | h
  · have := Code.lt_firstFresh (hps _ h) rfl
    omega
  · omega

end Piece

end CallPatch
