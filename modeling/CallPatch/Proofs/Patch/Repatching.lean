import CallPatch.Proofs.Patch.Labels
import CallPatch.Proofs.Patch.LookAhead
import Mathlib.Data.List.Nodup
/-!
# Patching — the same code again and again

A patched code still has all of its calls: each of them is made as it stood where the
receiver lacks the capability. Another pass finds them there and replaces them anew. What
one pass does to a code is said once (`Emits`): it puts a sequence in the place of each
call, and the label ids that the sequences take are the next ones in order. Everything
else about labels follows from that.

So the passes do not get in each other's way, however many there are
(`labels_kept_apart`): no id that a pass takes is mentioned in the code it is given, each
sequence jumps to labels of its own, and the first fresh id moves up by two for each call,
until the ids run out. The calls are the same ones in every pass, and so is what becomes of
their results, since the `pop` behind a call is written behind it again.
-/

namespace CallPatch

/-! ## Labels and jumps -/

namespace Insn

/-- The label id that the instruction defines. -/
def defines? : Insn → Option UInt32
  | .label id => some id
  | _ => none

/-- The label id that the instruction jumps to. -/
def jumpsTo? : Insn → Option UInt32
  | .ifEq target => some target
  | .goto target => some target
  | _ => none

end Insn

namespace Code

/-- The label ids that the code mentions, be it as labels or as targets of jumps. -/
def mentioned (code : Code) : List UInt32 :=
  code.filterMap Insn.label?

/-- The label ids that the code defines, once for each label. -/
def defined (code : Code) : List UInt32 :=
  code.filterMap Insn.defines?

/-- The label ids that the code jumps to. -/
def targeted (code : Code) : List UInt32 :=
  code.filterMap Insn.jumpsTo?

/-- No label id is defined twice. -/
def LabelsOnce (code : Code) : Prop :=
  code.defined.Nodup

/-- Every jump has a label to go to. -/
def JumpsLand (code : Code) : Prop :=
  code.targeted ⊆ code.defined

/-- The calls of `put` on a store, in order, each with whether its result is discarded. -/
def calls (scope : Scope) : Code → List (StorePut × Bool)
  | [] => []
  | insn :: rest =>
    match scope.storePut? insn with
    | some put => (put, rest.head? = some .pop) :: calls scope rest
    | none => calls scope rest

/-- The code after so many passes, if each of them succeeds. -/
def patchTimes? (scope : Scope) (code : Code) : Nat → Option Code
  | 0 => some code
  | n + 1 => (patchTimes? scope code n).bind fun before => (before.patch? scope).map Prod.fst

end Code

/-! ## What a pass emits -/

/-- A sequence that a pass emits: for which call, and with which label ids. -/
structure Emission where
  put : StorePut
  discarded : Bool
  fallback : UInt32
  done : UInt32
  deriving DecidableEq, Repr

namespace Emission

/-- The instructions in whose place the sequence comes. -/
def replaced (e : Emission) : Code :=
  e.put.call :: if e.discarded then [.pop] else []

/-- The instructions of the sequence. -/
def sequence (e : Emission) : Code :=
  e.put.replacement e.discarded e.fallback e.done

/-- The label ids that the sequence takes. -/
def ids (e : Emission) : List UInt32 :=
  [e.fallback, e.done]

/-- The call, with whether its result is discarded. -/
def site (e : Emission) : StorePut × Bool :=
  (e.put, e.discarded)

theorem defined_sequence (e : Emission) : e.sequence.defined = e.ids := by
  obtain ⟨put, discarded, fallback, done⟩ := e
  cases discarded <;> rfl

theorem targeted_sequence (e : Emission) : e.sequence.targeted = e.ids := by
  obtain ⟨put, discarded, fallback, done⟩ := e
  cases discarded <;> rfl

theorem mentioned_sequence (e : Emission) : e.sequence.mentioned = e.ids ++ e.ids := by
  obtain ⟨put, discarded, fallback, done⟩ := e
  cases discarded <;> rfl

theorem mem_mentioned_sequence {e : Emission} {id : UInt32} :
    id ∈ e.sequence.mentioned ↔ id ∈ e.ids := by
  rw [mentioned_sequence, List.mem_append, or_self]

end Emission

/-- The second code is the first one with each of the sequences in the place of a call. -/
inductive Splice : Code → List Emission → Code → Prop where
  | nil : Splice [] [] []
  | kept (insn : Insn) {before after : Code} {emitted : List Emission}
      (h : Splice before emitted after) : Splice (insn :: before) emitted (insn :: after)
  | emit (e : Emission) {before after : Code} {emitted : List Emission}
      (h : Splice before emitted after) :
      Splice (e.replaced ++ before) (e :: emitted) (e.sequence ++ after)

/-- **What one pass does.** It emits a sequence for each call, and the ids that the sequences take
are counted up from the first fresh one. The calls are still there. -/
structure Emits (scope : Scope) (before : Code) (emitted : List Emission) (after : Code) :
    Prop where
  splice : Splice before emitted after
  sites : emitted.map Emission.site = before.calls scope
  calls : after.calls scope = before.calls scope
  ids : emitted.flatMap Emission.ids =
    (List.range' before.firstFresh (2 * emitted.length)).map UInt32.ofNat
  room : before.firstFresh + 2 * emitted.length ≤ UInt32.size

/-- The labels of a pass keep to themselves. -/
structure Disciplined (before : Code) (emitted : List Emission) : Prop where
  /-- No id of a sequence is mentioned in the code that the pass is given. -/
  fresh : ∀ e ∈ emitted, e.sequence.mentioned.Disjoint before.mentioned
  /-- Nor is it mentioned in another sequence. -/
  apart : emitted.Pairwise fun e e' => e.sequence.mentioned.Disjoint e'.sequence.mentioned
  /-- A sequence jumps to labels of its own. -/
  closed : ∀ e ∈ emitted, e.sequence.JumpsLand

variable {scope : Scope} {before after code : Code} {emitted : List Emission} {id : UInt32}

/-! ## A pass over the pieces of a code -/

namespace Piece

/-- What is emitted for the pieces, if their label ids are counted from `first`. -/
def emissions : Nat → List Piece → List Emission
  | _, [] => []
  | first, .kept _ :: ps => emissions first ps
  | first, .site put discarded :: ps =>
    ⟨put, discarded, UInt32.ofNat first, UInt32.ofNat (first + 1)⟩ :: emissions (first + 2) ps

/-- The call that the piece is, if it is one. -/
def site? : Piece → Option (StorePut × Bool)
  | .kept _ => none
  | .site put discarded => some (put, discarded)

variable (first : Nat) (ps : List Piece)

theorem length_emissions : (emissions first ps).length = sites ps := by
  induction ps generalizing first with
  | nil => rfl
  | cons p ps ih =>
    have hsites := sites_cons p ps
    cases p with
    | kept insn =>
      rw [emissions, ih]
      simp only [labels] at hsites
      omega
    | site put discarded =>
      rw [emissions, List.length_cons, ih]
      simp only [labels] at hsites
      omega

theorem splice_emissions :
    Splice (ps.flatMap Piece.before) (emissions first ps) (written first ps) := by
  induction ps generalizing first with
  | nil => exact .nil
  | cons p ps ih =>
    cases p with
    | kept insn => exact .kept insn (ih first)
    | site put discarded => exact .emit ⟨put, discarded, _, _⟩ (ih (first + 2))

theorem map_site_emissions : (emissions first ps).map Emission.site = ps.filterMap site? := by
  induction ps generalizing first with
  | nil => rfl
  | cons p ps ih =>
    cases p with
    | kept insn => exact ih first
    | site put discarded => exact congrArg _ (ih (first + 2))

/-- The ids are taken in order. -/
theorem ids_emissions : (emissions first ps).flatMap Emission.ids =
    (List.range' first (2 * sites ps)).map UInt32.ofNat := by
  induction ps generalizing first with
  | nil => rfl
  | cons p ps ih =>
    rw [sites_cons]
    cases p with
    | kept insn => rw [emissions, ih, labels, Nat.zero_add]
    | site put discarded =>
      rw [emissions, List.flatMap_cons, ih, labels, Nat.add_comm 2, List.range'_succ,
        List.range'_succ]
      rfl

end Piece

/-! ## The calls are still there -/

namespace Code

theorem calls_of_none {insn : Insn} (h : scope.storePut? insn = none) (rest : Code) :
    calls scope (insn :: rest) = calls scope rest := by
  simp only [calls, h]

theorem calls_of_some {insn : Insn} {put : StorePut} (h : scope.storePut? insn = some put)
    (rest : Code) :
    calls scope (insn :: rest) = (put, decide (rest.head? = some .pop)) :: calls scope rest := by
  simp only [calls, h]

/-- The calls of a code are its pieces that are replaced. -/
theorem calls_eq (scope : Scope) (code : Code) :
    code.calls scope = (code.pieces scope).filterMap Piece.site? := by
  induction code with
  | nil => rfl
  | cons insn rest ih =>
    rcases hput : scope.storePut? insn with - | put
    · rw [calls_of_none hput, pieces_of_none hput, ih]
      rfl
    · rw [calls_of_some hput, pieces_of_some hput, ih]
      by_cases hpop : rest.head? = some .pop
      · obtain ⟨rest', rfl⟩ := List.head?_eq_some_iff.1 hpop
        rw [decide_eq_true hpop, pieces_of_none rfl, claim_of_pop]
        rfl
      · have hclaim : ∀ qs, pieces scope rest ≠ .kept .pop :: qs := by
          rcases rest with - | ⟨next, rest⟩
          · nofun
          · refine pieces_ne_pop ?_ rest
            rintro rfl
            exact hpop rfl
        rw [decide_eq_false hpop, claim_of_ne hclaim]
        rfl

/-- What is kept calls no `put` on a store. -/
theorem storePut?_of_kept_mem {insn : Insn} (h : .kept insn ∈ code.pieces scope) :
    scope.storePut? insn = none := by
  induction code with
  | nil => cases h
  | cons first rest ih =>
    rcases hput : scope.storePut? first with - | put
    · rw [pieces_of_none hput] at h
      rcases List.mem_cons.1 h with hfirst | hrest
      · cases hfirst
        exact hput
      · exact ih hrest
    · rw [pieces_of_some hput] at h
      have hsub : .kept insn ∈ pieces scope rest := by
        unfold claim at h
        split at h
        · next ps hps =>
          rw [hps]
          exact List.mem_cons_of_mem _ ((List.mem_cons.1 h).resolve_left nofun)
        · exact (List.mem_cons.1 h).resolve_left nofun
      exact ih hsub

theorem calls_append_of_none {front : Code} (h : ∀ insn ∈ front, scope.storePut? insn = none)
    (rest : Code) : calls scope (front ++ rest) = calls scope rest := by
  induction front with
  | nil => rfl
  | cons insn front ih =>
    rw [List.cons_append, calls_of_none (h insn List.mem_cons_self),
      ih fun insn' hinsn' => h insn' (List.mem_cons_of_mem insn hinsn')]

/-- **In the place of a call there is the same call**, and no other. -/
theorem calls_replacement {put : StorePut} (h : scope.covers put.kind put.owner = true)
    (discarded : Bool) (fallback done : UInt32) (rest : Code) :
    calls scope (put.replacement discarded fallback done ++ rest) =
      (put, discarded) :: calls scope rest := by
  have hcall : scope.storePut? put.call = some put := if_pos ⟨rfl, rfl, h⟩
  have hfast : Store.fastPath ≠ Store.put := by decide
  have hslow : Store.alternativeSlowPath ≠ Store.put := by decide
  have hsplit : put.replacement discarded fallback done ++ rest =
      [.dup2X1, .pop2, .dup, .instanceOf Store.marker, .ifEq fallback, .checkCast Store.marker,
        .dupX2, .pop, StorePut.capableCall discarded, .goto done, .label fallback, .dupX2, .pop] ++
      put.call :: ((if discarded then [.pop] else []) ++ .label done :: rest) := by
    simp [StorePut.replacement]
  rw [hsplit, calls_append_of_none _, calls_of_some hcall]
  · cases discarded with
    | true => rfl
    | false => rfl
  · cases discarded with
    | true => simp [Scope.storePut?, StorePut.capableCall, hfast]
    | false => simp [Scope.storePut?, StorePut.capableCall, hslow]

end Code

/-- What is written for the pieces of a code has the calls of the pieces. -/
theorem Piece.calls_written (first : Nat) {ps : List Piece}
    (hkept : ∀ insn, .kept insn ∈ ps → scope.storePut? insn = none)
    (hsite : ∀ put discarded, .site put discarded ∈ ps → scope.covers put.kind put.owner = true) :
    (written first ps).calls scope = ps.filterMap site? := by
  induction ps generalizing first with
  | nil => rfl
  | cons p ps ih =>
    have hrest := ih (first + p.labels) (fun insn h => hkept insn (List.mem_cons_of_mem p h))
      fun put discarded h => hsite put discarded (List.mem_cons_of_mem p h)
    rw [written]
    cases p with
    | kept insn =>
      have hinsn := hkept insn List.mem_cons_self
      exact (Code.calls_of_none hinsn _).trans hrest
    | site put discarded =>
      have hcovers := hsite put discarded List.mem_cons_self
      exact (Code.calls_replacement hcovers discarded _ _ _).trans (congrArg _ hrest)

/-! ## One pass -/

/-- **A pass that succeeds emits so.** -/
theorem Code.exists_emits {sites : Nat} (h : before.patch? scope = some (after, sites)) :
    ∃ emitted, Emits scope before emitted after ∧ emitted.length = sites := by
  rw [patch?_eq] at h
  split at h
  · next hsize =>
    obtain ⟨rfl, rfl⟩ := Prod.mk.inj (Option.some.inj h)
    have hlength := Piece.length_emissions before.firstFresh (pieces scope before)
    have hcalls : calls scope (Piece.written before.firstFresh (pieces scope before)) =
        (pieces scope before).filterMap Piece.site? := by
      refine Piece.calls_written _ (fun insn hinsn => ?_) fun put discarded hput => ?_
      · exact storePut?_of_kept_mem hinsn
      · exact covers_of_mem_pieces hput
    have hsplice := Piece.splice_emissions before.firstFresh (pieces scope before)
    rw [before_pieces] at hsplice
    refine ⟨_, ⟨hsplice, ?_, ?_, ?_, ?_⟩, hlength⟩
    · rw [Piece.map_site_emissions, calls_eq]
    · rw [hcalls, calls_eq]
    · rw [Piece.ids_emissions, hlength]
    · rwa [hlength]
  · cases h

/-- What a function on instructions finds behind a pass: what it found before, and what it finds in
the sequences. -/
theorem Splice.perm_filterMap (h : Splice before emitted after) (f : Insn → Option UInt32)
    (hcall : ∀ put : StorePut, f put.call = none) (hpop : f .pop = none) :
    (after.filterMap f).Perm
      (before.filterMap f ++ emitted.flatMap fun e => e.sequence.filterMap f) := by
  have hreplaced (e : Emission) : e.replaced.filterMap f = [] := by
    unfold Emission.replaced
    split <;> simp [hcall, hpop]
  induction h with
  | nil => exact .nil
  | kept insn h ih =>
    rw [List.filterMap_cons, List.filterMap_cons]
    split
    · exact ih
    · exact ih.cons _
  | @emit e before after emitted h ih =>
    rw [List.filterMap_append, List.filterMap_append, hreplaced, List.nil_append,
      List.flatMap_cons]
    refine (ih.append_left _).trans ?_
    rw [← List.append_assoc, ← List.append_assoc]
    exact List.perm_append_comm.append_right _

namespace Splice

variable (h : Splice before emitted after)
include h

/-- A pass defines the labels that there were and those of its sequences. -/
theorem perm_defined : after.defined.Perm (before.defined ++ emitted.flatMap Emission.ids) := by
  have hsequence : (fun e : Emission => e.sequence.filterMap Insn.defines?) = Emission.ids :=
    funext Emission.defined_sequence
  have hperm := h.perm_filterMap Insn.defines? (fun _ => rfl) rfl
  rwa [hsequence] at hperm

theorem mem_targeted :
    id ∈ after.targeted ↔ id ∈ before.targeted ∨ id ∈ emitted.flatMap Emission.ids := by
  have hsequence : (fun e : Emission => e.sequence.filterMap Insn.jumpsTo?) = Emission.ids :=
    funext Emission.targeted_sequence
  have hperm := h.perm_filterMap Insn.jumpsTo? (fun _ => rfl) rfl
  rw [hsequence] at hperm
  exact hperm.mem_iff.trans List.mem_append

theorem mem_mentioned :
    id ∈ after.mentioned ↔ id ∈ before.mentioned ∨ id ∈ emitted.flatMap Emission.ids := by
  have hperm := h.perm_filterMap Insn.label? (fun _ => rfl) rfl
  rw [Code.mentioned, hperm.mem_iff, List.mem_append, List.mem_flatMap, List.mem_flatMap]
  exact or_congr_right <| exists_congr fun e =>
    and_congr_right fun _ => Emission.mem_mentioned_sequence

end Splice

namespace Code

theorem mem_mentioned_of_mem_defined (h : id ∈ code.defined) : id ∈ code.mentioned := by
  obtain ⟨insn, hinsn, hid⟩ := List.mem_filterMap.1 h
  refine List.mem_filterMap.2 ⟨insn, hinsn, ?_⟩
  cases insn with
  | label id' => exact hid
  | _ => cases hid

theorem lt_firstFresh_of_mem_mentioned (h : id ∈ code.mentioned) :
    id.toNat < code.firstFresh := by
  obtain ⟨insn, hinsn, hid⟩ := List.mem_filterMap.1 h
  exact lt_firstFresh hinsn hid

/-- The first fresh id is the least one that lies above all ids that the code mentions. -/
theorem firstFresh_le_iff {n : Nat} :
    code.firstFresh ≤ n ↔ ∀ id ∈ code.mentioned, id.toNat < n := by
  constructor
  · intro hle id hid
    have hlt := lt_firstFresh_of_mem_mentioned hid
    omega
  · intro hall
    rcases hmax : code.mentioned.max? with - | highest
    · have hnone : code.nextLabel? = some 0 := by
        unfold nextLabel?
        rw [← mentioned, hmax]
      rw [firstFresh, hnone]
      exact Nat.zero_le n
    · have : Std.MaxEqOr UInt32 := ⟨fun a b => by
        rw [show max a b = if a ≤ b then b else a from rfl]
        split
        · exact .inr rfl
        · exact .inl rfl⟩
      have hlt := hall highest (List.max?_mem hmax)
      rw [firstFresh_of_max? hmax]
      omega

end Code

namespace Emits

variable (h : Emits scope before emitted after)
include h

theorem mem_ids : id ∈ emitted.flatMap Emission.ids ↔
    before.firstFresh ≤ id.toNat ∧ id.toNat < before.firstFresh + 2 * emitted.length := by
  have hroom := h.room
  rw [h.ids, List.mem_map]
  constructor
  · rintro ⟨n, hn, rfl⟩
    rw [List.mem_range'_1] at hn
    rw [UInt32.toNat_ofNat_of_lt' (by omega)]
    exact hn
  · intro hid
    exact ⟨id.toNat, List.mem_range'_1.2 hid, UInt32.ofNat_toNat⟩

/-- No id is taken twice. -/
theorem nodup_ids : (emitted.flatMap Emission.ids).Nodup := by
  have hroom := h.room
  rw [h.ids]
  refine List.Nodup.map_on (fun n hn m hm heq => ?_) List.nodup_range'
  rw [List.mem_range'_1] at hn hm
  have htoNat := congrArg UInt32.toNat heq
  rwa [UInt32.toNat_ofNat_of_lt' (by omega), UInt32.toNat_ofNat_of_lt' (by omega)] at htoNat

/-- An id that is taken is not mentioned in the code. -/
theorem disjoint_mentioned : before.mentioned.Disjoint (emitted.flatMap Emission.ids) := by
  intro id hbefore hid
  have hlt := Code.lt_firstFresh_of_mem_mentioned hbefore
  have hle := (h.mem_ids.1 hid).1
  omega

/-- **The labels of a pass keep to themselves.** -/
theorem disciplined : Disciplined before emitted where
  fresh := by
    intro e he id hid hbefore
    refine h.disjoint_mentioned hbefore (List.mem_flatMap.2 ⟨e, he, ?_⟩)
    exact Emission.mem_mentioned_sequence.1 hid
  apart := by
    refine (List.nodup_flatMap.1 h.nodup_ids).2.imp fun hdisjoint id hid hid' => ?_
    exact hdisjoint (Emission.mem_mentioned_sequence.1 hid) (Emission.mem_mentioned_sequence.1 hid')
  closed := by
    intro e _
    rw [Code.JumpsLand, Emission.targeted_sequence, Emission.defined_sequence]
    exact List.Subset.refl _

/-- No label id comes to be defined twice. -/
theorem labelsOnce (hbefore : before.LabelsOnce) : after.LabelsOnce := by
  rw [Code.LabelsOnce, h.splice.perm_defined.nodup_iff]
  refine List.Nodup.append hbefore h.nodup_ids fun id hdefined hid => ?_
  exact h.disjoint_mentioned (Code.mem_mentioned_of_mem_defined hdefined) hid

/-- No jump comes to have nowhere to go. -/
theorem jumpsLand (hbefore : before.JumpsLand) : after.JumpsLand := by
  intro id hid
  rw [h.splice.perm_defined.mem_iff, List.mem_append]
  exact (h.splice.mem_targeted.1 hid).imp (fun htarget => hbefore htarget) fun hnew => hnew

/-- **The first fresh id moves up by two for each call.** -/
theorem firstFresh_eq : after.firstFresh = before.firstFresh + 2 * emitted.length := by
  have hroom := h.room
  apply Nat.le_antisymm
  · rw [Code.firstFresh_le_iff]
    intro id hid
    rcases h.splice.mem_mentioned.1 hid with hold | hnew
    · have hlt := Code.lt_firstFresh_of_mem_mentioned hold
      omega
    · exact (h.mem_ids.1 hnew).2
  · rcases Nat.eq_zero_or_pos emitted.length with hnone | hsome
    · rw [hnone, Nat.mul_zero, Nat.add_zero, Code.firstFresh_le_iff]
      intro id hid
      exact Code.lt_firstFresh_of_mem_mentioned (h.splice.mem_mentioned.2 (.inl hid))
    · -- the last id that is taken lies below the first fresh one afterwards
      have hlast : (UInt32.ofNat (before.firstFresh + 2 * emitted.length - 1)).toNat =
          before.firstFresh + 2 * emitted.length - 1 := UInt32.toNat_ofNat_of_lt' (by omega)
      have htaken := h.mem_ids.2 (by rw [hlast]; omega)
      have hlt := Code.lt_firstFresh_of_mem_mentioned (h.splice.mem_mentioned.2 (.inr htaken))
      omega

end Emits

/-! ## Pass after pass -/

/-- What no number of passes changes. -/
theorem Code.kept_of_patchTimes? {n : Nat} (h : code.patchTimes? scope n = some before) :
    before.calls scope = code.calls scope ∧ (code.LabelsOnce → before.LabelsOnce) ∧
      (code.JumpsLand → before.JumpsLand) := by
  induction n generalizing before with
  | zero =>
    obtain rfl := Option.some.inj h
    exact ⟨rfl, fun honce => honce, fun hland => hland⟩
  | succ n ih =>
    obtain ⟨before', hbefore', hafter⟩ := Option.bind_eq_some_iff.1 h
    obtain ⟨⟨after, sites⟩, hpatch, rfl⟩ := Option.map_eq_some_iff.1 hafter
    obtain ⟨hcalls, honce, hland⟩ := ih hbefore'
    obtain ⟨emitted, hemits, -⟩ := exists_emits hpatch
    exact ⟨hemits.calls.trans hcalls, fun hlabels => hemits.labelsOnce (honce hlabels),
      fun hjumps => hemits.jumpsLand (hland hjumps)⟩

/-- **The labels are kept apart by any number of passes.** Each pass puts a sequence in the place of
each call. No label id of a sequence is mentioned in the code that the pass is given, or in another
sequence, and each sequence jumps to labels of its own. If the labels of the code were all
different they still are, and if its jumps had labels to go to they still have. The calls, and
which of their results are discarded, are those that the first pass found, and the first fresh id
moves up by two for each of them. -/
theorem labels_kept_apart (scope : Scope) (code : Code) (n : Nat) {before after : Code}
    {sites : Nat} (hbefore : code.patchTimes? scope n = some before)
    (hafter : before.patch? scope = some (after, sites)) :
    ∃ emitted, Splice before emitted after ∧ emitted.length = sites ∧
      Disciplined before emitted ∧
      (code.LabelsOnce → after.LabelsOnce) ∧ (code.JumpsLand → after.JumpsLand) ∧
      emitted.map Emission.site = code.calls scope ∧
      (∀ first k, code.patch? scope = some (first, k) → sites = k) ∧
      after.firstFresh = before.firstFresh + 2 * sites := by
  obtain ⟨emitted, hemits, rfl⟩ := Code.exists_emits hafter
  obtain ⟨hcalls, honce, hland⟩ := Code.kept_of_patchTimes? hbefore
  have hsites := hemits.sites.trans hcalls
  refine ⟨emitted, hemits.splice, rfl, hemits.disciplined, fun h => hemits.labelsOnce (honce h),
    fun h => hemits.jumpsLand (hland h), hsites, fun first k hfirst => ?_, hemits.firstFresh_eq⟩
  obtain ⟨emitted', hemits', rfl⟩ := Code.exists_emits hfirst
  have hsame := congrArg List.length (hsites.trans hemits'.sites.symm)
  rwa [List.length_map, List.length_map] at hsame

/-! ## Up to the last label id -/

namespace LastIds

/-- Calls `put` on a store. -/
def call : Insn :=
  .invoke .interface Store.storeInterface Store.put Store.putDesc

/-- Jumps back to its start if the call returns zero. Twelve label ids lie above its own. -/
def entry : Code :=
  [.label 4294967283, .load 1, .load 2, .load 3, call, .pop, .load 1, .load 2, .load 3, call,
    .ifEq 4294967283]

/-- Three passes take all the ids that there are. -/
theorem labels_kept_apart_entry : ∃ before after,
    entry.patchTimes? .interfacesOnly 2 = some before ∧
      before.patch? .interfacesOnly = some (after, 2) ∧
      after.LabelsOnce ∧ after.JumpsLand ∧ after.firstFresh = UInt32.size := by
  obtain ⟨before, hbefore⟩ : ∃ before, entry.patchTimes? .interfacesOnly 2 = some before :=
    ⟨_, rfl⟩
  obtain ⟨after, hafter⟩ : ∃ after, before.patch? .interfacesOnly = some (after, 2) := by
    obtain rfl := Option.some.inj hbefore
    exact ⟨_, rfl⟩
  have hfresh : before.firstFresh = UInt32.size - 4 := by
    obtain rfl := Option.some.inj hbefore
    rfl
  obtain ⟨emitted, -, -, -, honce, hland, -, -, hnext⟩ :=
    labels_kept_apart .interfacesOnly entry 2 hbefore hafter
  have hlabels : entry.LabelsOnce := List.nodup_singleton _
  have hjumps : entry.JumpsLand := List.Subset.refl _
  refine ⟨before, after, hbefore, hafter, honce hlabels, hland hjumps, ?_⟩
  rw [hnext, hfresh]
  rfl

end LastIds

end CallPatch
