import CallPatch.Patch.Code
/-!
# Patching — the pass, read with a look ahead

The pass over a code holds a `put` back until it has seen the next
instruction. Read with a look ahead of one instruction, the code falls into
*pieces*: an instruction that is kept, or a `put` on a store, together with
the `pop` right behind it if there is one. `patch?_eq` says that the pass
writes the pieces one after the other, each site with the next two label ids,
and that it fails exactly when the ids do not suffice.
-/

namespace CallPatch

/-! ## Label ids as numbers -/

/-- The label id of that number, if there is one. -/
def labelId? (n : Nat) : Option UInt32 :=
  if n < UInt32.size then some (UInt32.ofNat n) else none

theorem labelId?_of_lt {n : Nat} (h : n < UInt32.size) : labelId? n = some (UInt32.ofNat n) :=
  if_pos h

/-- Past the highest id there is none. -/
theorem labelId?_of_le {n : Nat} (h : UInt32.size ≤ n) : labelId? n = none :=
  if_neg (by omega)

/-- Counting on from an id is counting on from its number. -/
theorem nextId?_ofNat {n : Nat} (h : n < UInt32.size) :
    nextId? (UInt32.ofNat n) = labelId? (n + 1) := by
  have hn : (UInt32.ofNat n).toNat = n := UInt32.toNat_ofNat_of_lt' h
  unfold nextId? labelId?
  rw [hn]
  by_cases h' : n + 1 < UInt32.size
  · rw [if_pos h', if_pos h', UInt32.ofNat_add]
    rfl
  · rw [if_neg h', if_neg h']

namespace Code

/-- The number of the first fresh label id: one past the highest id that the code mentions. -/
def firstFresh (code : Code) : Nat :=
  match code.nextLabel? with
  | some id => id.toNat
  | none => UInt32.size

/-- The next label is the id of that number, if there is one. -/
theorem nextLabel?_eq (code : Code) : code.nextLabel? = labelId? code.firstFresh := by
  unfold firstFresh
  cases code.nextLabel? with
  | none => exact (labelId?_of_le (Nat.le_refl _)).symm
  | some id =>
    show some id = labelId? id.toNat
    rw [labelId?_of_lt id.toNat_lt_size, UInt32.ofNat_toNat]

/-- It is the number past the last id at most. -/
theorem firstFresh_le (code : Code) : code.firstFresh ≤ UInt32.size := by
  unfold firstFresh
  split
  · exact Nat.le_of_lt (UInt32.toNat_lt_size _)
  · exact Nat.le_refl _

end Code

/-! ## Pieces -/

/-- A piece of a code under the pass. -/
inductive Piece where
  | kept (insn : Insn)
  /-- A `put` on a store, with the `pop` behind it if its result is discarded. -/
  | site (put : StorePut) (discarded : Bool)

namespace Piece

/-- The instructions the piece is made of. -/
def before : Piece → Code
  | .kept insn => [insn]
  | .site put discarded => put.call :: if discarded then [.pop] else []

/-- How many label ids the piece takes. -/
def labels : Piece → Nat
  | .kept _ => 0
  | .site _ _ => 2

/-- Whether the piece is replaced. -/
def isSite : Piece → Bool
  | .kept _ => false
  | .site _ _ => true

/-- What is written for the piece, if its label ids are counted from `first`. -/
def after (first : Nat) : Piece → Code
  | .kept insn => [insn]
  | .site put discarded =>
    put.replacement discarded (UInt32.ofNat first) (UInt32.ofNat (first + 1))

/-- What is written for the pieces. -/
def written : Nat → List Piece → Code
  | _, [] => []
  | first, p :: rest => p.after first ++ written (first + p.labels) rest

/-- How many pieces are replaced. -/
def sites (ps : List Piece) : Nat :=
  ps.countP isSite

/-- Every site takes two ids. -/
theorem sites_cons (p : Piece) (ps : List Piece) :
    2 * sites (p :: ps) = p.labels + 2 * sites ps := by
  cases p with
  | kept insn => simp [sites, labels, isSite]
  | site put discarded =>
    have hsite : isSite (.site put discarded) = true := rfl
    rw [sites, List.countP_cons_of_pos hsite, sites, labels]
    omega

/-- The sites of two codes are those of each. -/
theorem sites_append (ps qs : List Piece) : sites (ps ++ qs) = sites ps + sites qs :=
  List.countP_append

/-- What stands behind has its labels counted on from what stands before. -/
theorem written_append (first : Nat) (ps qs : List Piece) :
    written first (ps ++ qs) = written first ps ++ written (first + 2 * sites ps) qs := by
  induction ps generalizing first with
  | nil => simp [written, sites]
  | cons p ps ih =>
    simp only [List.cons_append, written, ih, List.append_assoc]
    rw [show first + p.labels + 2 * sites ps = first + 2 * sites (p :: ps) by
      rw [sites_cons]; omega]

end Piece

namespace Code

/-- The pieces of a code that begins with a `put`, given the pieces of what is behind it. -/
def claim (put : StorePut) : List Piece → List Piece
  | .kept .pop :: ps => .site put true :: ps
  | ps => .site put false :: ps

/-- The pieces of the code. -/
def pieces (scope : Scope) : Code → List Piece
  | [] => []
  | insn :: rest =>
    match scope.storePut? insn with
    | some put => claim put (pieces scope rest)
    | none => .kept insn :: pieces scope rest

end Code

variable {scope : Scope} {insn : Insn} {put : StorePut}

/-- A call that is found is a `put` on a type that the scope covers. -/
theorem Scope.storePut?_eq_some (h : scope.storePut? insn = some put) :
    insn = put.call ∧ scope.covers put.kind put.owner := by
  unfold Scope.storePut? at h
  split at h
  · split at h
    · rename_i hput
      obtain ⟨rfl, rfl, hcovers⟩ := hput
      obtain rfl := Option.some.inj h
      exact ⟨rfl, hcovers⟩
    · cases h
  · cases h

namespace Code

/-- A `pop` right behind a `put` discards its result. -/
theorem claim_of_pop (ps : List Piece) : claim put (.kept .pop :: ps) = .site put true :: ps :=
  rfl

/-- Anything else behind a `put` leaves the result used. -/
theorem claim_of_ne {ps : List Piece} (h : ∀ qs, ps ≠ .kept .pop :: qs) :
    claim put ps = .site put false :: ps := by
  unfold claim
  split
  · exact absurd rfl (h _)
  · rfl

/-- A `put` on a store takes what it claims of what is behind it. -/
theorem pieces_of_some (h : scope.storePut? insn = some put) (rest : Code) :
    pieces scope (insn :: rest) = claim put (pieces scope rest) := by
  simp only [pieces, h]

/-- Every other instruction is a piece of its own. -/
theorem pieces_of_none (h : scope.storePut? insn = none) (rest : Code) :
    pieces scope (insn :: rest) = .kept insn :: pieces scope rest := by
  simp only [pieces, h]

/-- Only a `pop` makes a piece that a `put` in front of it claims. -/
theorem pieces_ne_pop (h : insn ≠ .pop) (rest : Code) (qs : List Piece) :
    pieces scope (insn :: rest) ≠ .kept .pop :: qs := by
  intro heq
  rcases hput : scope.storePut? insn with - | put
  · rw [pieces_of_none hput] at heq
    injection heq with hhead
    injection hhead with hinsn
    exact h hinsn
  · rw [pieces_of_some hput] at heq
    unfold claim at heq
    split at heq <;> cases heq

/-- A claim takes no instruction away. -/
theorem before_claim (put : StorePut) (ps : List Piece) :
    (claim put ps).flatMap Piece.before = put.call :: ps.flatMap Piece.before := by
  unfold claim
  split <;> simp [Piece.before]

/-- The pieces make up the code. -/
theorem before_pieces (code : Code) (scope : Scope) :
    (code.pieces scope).flatMap Piece.before = code := by
  induction code with
  | nil => rfl
  | cons insn rest ih =>
    rcases hput : scope.storePut? insn with - | put
    · rw [pieces_of_none hput, List.flatMap_cons, ih]
      rfl
    · rw [pieces_of_some hput, before_claim, ih, (Scope.storePut?_eq_some hput).1]

/-- Every site calls `put` on a store. -/
theorem covers_of_mem_pieces {discarded : Bool} {code : Code}
    (h : Piece.site put discarded ∈ code.pieces scope) : scope.covers put.kind put.owner := by
  induction code with
  | nil => cases h
  | cons insn rest ih =>
    rcases hput : scope.storePut? insn with - | put'
    · rw [pieces_of_none hput] at h
      rcases List.mem_cons.1 h with h | h
      · cases h
      · exact ih h
    · rw [pieces_of_some hput] at h
      have hcovers := (Scope.storePut?_eq_some hput).2
      unfold claim at h
      split at h
      · rename_i ps hps
        rcases List.mem_cons.1 h with h | h
        · cases h; exact hcovers
        · exact ih (by rw [hps]; exact List.mem_cons_of_mem _ h)
      · rcases List.mem_cons.1 h with h | h
        · cases h; exact hcovers
        · exact ih h

end Code

/-! ## The pass writes the pieces -/

namespace Code

namespace Pass

/-- The pass on what is left of the code, up to its end. -/
def finish (scope : Scope) (pass : Pass) (code : Code) : Option Pass :=
  (code.foldlM (Pass.step scope) pass).bind (release false)

/-- A pass behind the pieces, if the label ids suffice. -/
def behind (out : Code) (first sites : Nat) (ps : List Piece) : Option Pass :=
  if first + 2 * Piece.sites ps ≤ UInt32.size then
    some {
      written := (Piece.written first ps).reverse ++ out
      held := none
      fresh := labelId? (first + 2 * Piece.sites ps)
      sites := sites + Piece.sites ps }
  else none

variable {out : Code} {first sites : Nat} {discarded : Bool}

/-- The pass takes one instruction, then the rest of the code. -/
theorem finish_cons (pass : Pass) (insn : Insn) (rest : Code) :
    finish scope pass (insn :: rest) =
      (pass.step scope insn).bind fun pass => finish scope pass rest := by
  unfold finish
  rw [List.foldlM_cons]
  cases pass.step scope insn <;> rfl

theorem release_of_none (fresh : Option UInt32) :
    release discarded ⟨out, none, fresh, sites⟩ = some ⟨out, none, fresh, sites⟩ :=
  rfl

/-- Afterwards no call is held back. -/
theorem held_of_release {pass pass' : Pass} (h : release discarded pass = some pass') :
    pass'.held = none := by
  obtain ⟨out, held, fresh, sites⟩ := pass
  rcases held with - | put
  · cases h; rfl
  · simp only [release, Option.bind_eq_bind, Option.bind_eq_some_iff] at h
    obtain ⟨_, _, _, _, hpass⟩ := h
    cases hpass
    rfl

/-- A held call is written if two label ids are left. -/
theorem release_of_some (hfirst : first ≤ UInt32.size) :
    release discarded ⟨out, some put, labelId? first, sites⟩ =
      behind out first sites [.site put discarded] := by
  have hsites : Piece.sites [.site put discarded] = 1 := rfl
  have hwritten : Piece.written first [.site put discarded] =
      put.replacement discarded (UInt32.ofNat first) (UInt32.ofNat (first + 1)) := by
    simp [Piece.written, Piece.after]
  unfold behind
  rw [hsites, hwritten]
  -- both ids are left, only the first one is, or none
  rcases Nat.lt_or_ge first UInt32.size with hlt | hge
  · rw [labelId?_of_lt hlt]
    rcases Nat.lt_or_ge (first + 1) UInt32.size with hlt' | hge'
    · rw [if_pos (by omega)]
      simp only [release, Option.bind_eq_bind, Option.bind_some, nextId?_ofNat hlt,
        labelId?_of_lt hlt', nextId?_ofNat hlt']
      rfl
    · rw [if_neg (by omega)]
      simp only [release, Option.bind_eq_bind, Option.bind_some, nextId?_ofNat hlt,
        labelId?_of_le hge', Option.bind_none]
  · rw [labelId?_of_le hge, if_neg (by omega)]
    rfl

/-- A kept instruction is written as it is, and takes no id. -/
theorem behind_kept (out : Code) (first sites : Nat) (insn : Insn) (ps : List Piece) :
    behind out first sites (.kept insn :: ps) = behind (insn :: out) first sites ps := by
  have hsites : Piece.sites (.kept insn :: ps) = Piece.sites ps := rfl
  unfold behind
  rw [hsites]
  simp [Piece.written, Piece.after, Piece.labels]

/-- Behind a site, the pass goes on with two label ids fewer. -/
theorem behind_site (out : Code) (first sites : Nat) (put : StorePut) (discarded : Bool)
    (ps : List Piece) {next : Pass → Option Pass}
    (hnext : ∀ out sites, first + 2 ≤ UInt32.size →
      next ⟨out, none, labelId? (first + 2), sites⟩ = behind out (first + 2) sites ps) :
    behind out first sites (.site put discarded :: ps) =
      (behind out first sites [.site put discarded]).bind next := by
  have hlabels := Piece.sites_cons (.site put discarded) ps
  have hone : Piece.sites [.site put discarded] = 1 := rfl
  simp only [Piece.labels] at hlabels
  by_cases hfirst : first + 2 ≤ UInt32.size
  · have hbehind : behind out first sites [.site put discarded] = some {
        written := (Piece.written first [.site put discarded]).reverse ++ out
        held := none
        fresh := labelId? (first + 2)
        sites := sites + 1 } := by
      unfold behind
      rw [hone, if_pos (by omega)]
    rw [hbehind, Option.bind_some, hnext _ _ hfirst]
    unfold behind
    rw [hlabels, ← Nat.add_assoc]
    have hcount : sites + Piece.sites (.site put discarded :: ps) =
        sites + 1 + Piece.sites ps := by omega
    rw [hcount]
    simp [Piece.written, Piece.labels]
  · unfold behind
    rw [if_neg (by omega), if_neg (by omega)]
    rfl

/-- Unless a `pop` follows, a held call is written before the pass goes on. -/
theorem finish_of_ne_pop (hpop : insn ≠ .pop) (fresh : Option UInt32) (rest : Code) :
    finish scope ⟨out, some put, fresh, sites⟩ (insn :: rest) =
      (release false ⟨out, some put, fresh, sites⟩).bind fun pass =>
        finish scope pass (insn :: rest) := by
  have hstep : step scope ⟨out, some put, fresh, sites⟩ insn =
      (release false ⟨out, some put, fresh, sites⟩).map (take scope insn) := by
    simp [step, hpop]
  rw [finish_cons, hstep]
  rcases hrel : release false ⟨out, some put, fresh, sites⟩ with - | pass
  · rfl
  · have hheld : pass.held = none := held_of_release hrel
    have hstep' : step scope pass insn = some (take scope insn pass) := by
      simp [step, hheld, release]
    simp only [Option.map_some, Option.bind_some]
    rw [finish_cons, hstep', Option.bind_some]

/-- The pass from a state on, without a call held back and with one. A call that is held back is
written at the next instruction, which it claims if that is a `pop`. -/
theorem finish_eq (code : Code) (out : Code) {first : Nat} (sites : Nat)
    (hfirst : first ≤ UInt32.size) :
    finish scope ⟨out, none, labelId? first, sites⟩ code =
        behind out first sites (pieces scope code) ∧
      ∀ put, finish scope ⟨out, some put, labelId? first, sites⟩ code =
        behind out first sites (claim put (pieces scope code)) := by
  induction code generalizing out first sites with
  | nil =>
    refine ⟨?_, fun put => ?_⟩
    · simp [finish, release, behind, pieces, Piece.written, Piece.sites, hfirst]
    · exact release_of_some hfirst
  | cons insn rest ih =>
    -- the pass without a held call, at any point, since it comes there from the other case too
    have hfree : ∀ (out : Code) (first sites : Nat), first ≤ UInt32.size →
        finish scope ⟨out, none, labelId? first, sites⟩ (insn :: rest) =
          behind out first sites (pieces scope (insn :: rest)) := by
      intro out first sites hfirst
      have hstep : step scope ⟨out, none, labelId? first, sites⟩ insn =
          some (take scope insn ⟨out, none, labelId? first, sites⟩) := by
        simp [step, release_of_none]
      rw [finish_cons, hstep, Option.bind_some, take]
      rcases hput : scope.storePut? insn with - | put
      · rw [pieces_of_none hput, behind_kept]
        exact (ih _ _ hfirst).1
      · rw [pieces_of_some hput]
        exact (ih _ _ hfirst).2 put
    refine ⟨hfree out first sites hfirst, fun put => ?_⟩
    by_cases hpop : insn = .pop
    · subst hpop
      have hstep : step scope ⟨out, some put, labelId? first, sites⟩ .pop =
          release true ⟨out, some put, labelId? first, sites⟩ := by
        simp [step]
      have hpieces : pieces scope (.pop :: rest) = .kept .pop :: pieces scope rest :=
        pieces_of_none rfl rest
      rw [finish_cons, hstep, release_of_some hfirst, hpieces, claim_of_pop]
      exact (behind_site _ _ _ _ _ _ fun out sites h => (ih out sites h).1).symm
    · rw [finish_of_ne_pop hpop, release_of_some hfirst, claim_of_ne (pieces_ne_pop hpop rest)]
      exact (behind_site _ _ _ _ _ _ fun out sites h => hfree out _ sites h).symm

end Pass

/-- **What a pass writes.** The pieces of the code one after the other, the sites with label ids
counted up from the first fresh one; nothing if the ids do not suffice. -/
theorem patch?_eq (scope : Scope) (code : Code) :
    code.patch? scope =
      if code.firstFresh + 2 * Piece.sites (pieces scope code) ≤ UInt32.size then
        some (Piece.written code.firstFresh (pieces scope code),
          Piece.sites (pieces scope code))
      else none := by
  have hpatch : code.patch? scope = (Pass.finish scope
      ⟨[], none, labelId? code.firstFresh, 0⟩ code).map
        fun pass => (pass.written.reverse, pass.sites) := by
    unfold patch? Pass.finish Pass.start
    rw [nextLabel?_eq]
    rcases List.foldlM (Pass.step scope) ⟨[], none, labelId? code.firstFresh, 0⟩ code with - | pass
    · rfl
    · simp only [Option.bind_eq_bind, Option.bind_some]
      cases pass.release false <;> rfl
  rw [hpatch, (Pass.finish_eq code [] 0 code.firstFresh_le).1]
  unfold Pass.behind
  split <;> simp

end Code

end CallPatch
