import CallPatch.Proofs.Patch.Labels
/-!
# Patching — what patched code does

A patched code does what the code did, in every world in which the entry
points of a store with the capability keep their word: the alternative slow
path is the `put` it stands in for, the fast path is that `put` without a
result, and whatever is tested to have the marker can be cast to it.

The two runs go in lockstep from piece to piece. An instruction that is kept
does the same on either side. A replaced `put` takes its receiver from below
the arguments, tests it, and puts it back below them on either branch, so
that both branches reach their call on the stack the `put` was reached on and
leave the stack it left.
-/

namespace CallPatch

open Machine

/-- The entry point made for callers that discard the result. -/
def Store.fastPathCallee : Callee :=
  ⟨.interface, Store.marker, Store.fastPath, Store.setDesc⟩

/-- The entry point made for callers that use the result. -/
def Store.slowPathCallee : Callee :=
  ⟨.interface, Store.marker, Store.alternativeSlowPath, Store.putDesc⟩

/-- What the call names. -/
def StorePut.callee (put : StorePut) : Callee :=
  ⟨put.kind, put.owner, Store.put, Store.putDesc⟩

variable {ρ ω : Type}

/-- A `put` on a store takes receiver, key and value and leaves a result, and a store that has the
marker keeps the promises of its entry points. -/
structure KeepsPromises (I : Interpretation ρ ω) (scope : Scope) : Prop where
  put_takes : ∀ put : StorePut, scope.covers put.kind put.owner → I.takes put.callee = 3
  put_result : ∀ put : StorePut, scope.covers put.kind put.owner →
    ∀ args world result world',
      I.call put.callee args world = .returned result world' → result.isSome
  casts : ∀ receiver world, I.instanceOf Store.marker receiver world →
    I.casts Store.marker receiver world
  slow_takes : I.takes Store.slowPathCallee = 3
  slow_call : ∀ put : StorePut, scope.covers put.kind put.owner →
    ∀ receiver key value world, I.instanceOf Store.marker receiver world →
      I.call Store.slowPathCallee [receiver, key, value] world =
        I.call put.callee [receiver, key, value] world
  fast_takes : I.takes Store.fastPathCallee = 3
  fast_call : ∀ put : StorePut, scope.covers put.kind put.owner →
    ∀ receiver key value world, I.instanceOf Store.marker receiver world →
      I.call Store.fastPathCallee [receiver, key, value] world =
        (I.call put.callee [receiver, key, value] world).discarded

variable {I : Interpretation ρ ω} {scope : Scope} {put : StorePut} {discarded : Bool}
variable {code rest : Code} {fallback done : UInt32}
variable {receiver key value : Value ρ} {st : List (Value ρ)} {locals : UInt16 → Option (Value ρ)}
variable {world world' : ω}

/-! ## The call as it stood -/

theorem invoke_three {callee : Callee} (h : I.takes callee = 3) :
    invoke I callee ⟨value :: key :: receiver :: st, locals, world⟩ =
      match I.call callee [receiver, key, value] world with
      | .returned result world' => .proceed ⟨result.toList ++ st, locals, world'⟩
      | .failed world' => .stop (.failed world') := by
  have hlen : ¬ (value :: key :: receiver :: st).length < 3 := by simp
  unfold invoke
  rw [h, if_neg hlen]
  rfl

/-- What a `put` and the `pop` behind it leave on the stack. -/
def leftBy (discarded : Bool) (result : Value ρ) (st : List (Value ρ)) : List (Value ρ) :=
  if discarded then st else result :: st

theorem advances_call {result : Value ρ} (htakes : I.takes put.callee = 3)
    (hcall : I.call put.callee [receiver, key, value] world = .returned (some result) world') :
    Advances (next I code)
      ⟨put.call :: ((if discarded then [.pop] else []) ++ rest),
        ⟨value :: key :: receiver :: st, locals, world⟩⟩
      ⟨rest, ⟨leftBy discarded result st, locals, world'⟩⟩ := by
  have hput : effect I ⟨value :: key :: receiver :: st, locals, world⟩ put.call =
      .proceed ⟨result :: st, locals, world'⟩ := by
    show invoke I put.callee _ = _
    rw [invoke_three htakes, hcall]
    rfl
  cases discarded with
  | false => exact .single (steps_of_proceed hput)
  | true => exact .head (steps_of_proceed hput) (.single (steps_of_proceed rfl))

theorem reaches_call (htakes : I.takes put.callee = 3)
    (hcall : I.call put.callee [receiver, key, value] world = .failed world') :
    Reaches (next I code)
      ⟨put.call :: rest, ⟨value :: key :: receiver :: st, locals, world⟩⟩ (.failed world') := by
  refine reaches_of_stop ?_
  show invoke I put.callee _ = _
  rw [invoke_three htakes, hcall]

/-! ## The replacement -/

theorem StorePut.replacement_append (put : StorePut) (discarded : Bool) (fallback done : UInt32)
    (rest : Code) :
    put.replacement discarded fallback done ++ rest =
      .dup2X1 :: .pop2 :: .dup :: .instanceOf Store.marker :: .ifEq fallback ::
        .checkCast Store.marker :: .dupX2 :: .pop :: capableCall discarded :: .goto done ::
        .label fallback :: .dupX2 :: .pop :: put.call ::
          ((if discarded then [.pop] else []) ++ .label done :: rest) := by
  simp [replacement]

/-- The replacement tests the receiver, and keeps it above its arguments. -/
theorem advances_test (ahead : Code) :
    Advances (next I code)
      ⟨.dup2X1 :: .pop2 :: .dup :: .instanceOf Store.marker :: ahead,
        ⟨value :: key :: receiver :: st, locals, world⟩⟩
      ⟨ahead, ⟨.truth (I.instanceOf Store.marker receiver world) :: receiver :: value :: key :: st,
        locals, world⟩⟩ :=
  .head (steps_of_proceed rfl) <| .head (steps_of_proceed rfl) <|
    .head (steps_of_proceed rfl) <| .single (steps_of_proceed rfl)

/-- On either branch the receiver goes back below its arguments. -/
theorem advances_restore (ahead : Code) :
    Advances (next I code)
      ⟨.dupX2 :: .pop :: ahead, ⟨receiver :: value :: key :: st, locals, world⟩⟩
      ⟨ahead, ⟨value :: key :: receiver :: st, locals, world⟩⟩ :=
  .head (steps_of_proceed rfl) (.single (steps_of_proceed rfl))

/-- With the marker, the replacement reaches its entry point on the stack of the call. -/
theorem advances_capable (hmarker : I.instanceOf Store.marker receiver world)
    (hcast : I.casts Store.marker receiver world) :
    Advances (next I code)
      ⟨put.replacement discarded fallback done ++ rest,
        ⟨value :: key :: receiver :: st, locals, world⟩⟩
      ⟨StorePut.capableCall discarded :: .goto done :: .label fallback :: .dupX2 :: .pop ::
          put.call :: ((if discarded then [.pop] else []) ++ .label done :: rest),
        ⟨value :: key :: receiver :: st, locals, world⟩⟩ := by
  rw [StorePut.replacement_append]
  refine (advances_test _).trans ?_
  rw [hmarker]
  have hpass : effect I ⟨receiver :: value :: key :: st, locals, world⟩
      (.checkCast Store.marker) = .proceed ⟨receiver :: value :: key :: st, locals, world⟩ :=
    if_pos hcast
  exact .head (steps_of_proceed rfl) (.head (steps_of_proceed hpass) (advances_restore _))

/-- Without it, the replacement reaches the call as it stood. -/
theorem advances_fallback (hmarker : I.instanceOf Store.marker receiver world = false)
    {ahead : Code}
    (hfrom : code.from? fallback = some (.label fallback :: .dupX2 :: .pop :: ahead)) :
    Advances (next I code)
      ⟨put.replacement discarded fallback done ++ rest,
        ⟨value :: key :: receiver :: st, locals, world⟩⟩
      ⟨ahead, ⟨value :: key :: receiver :: st, locals, world⟩⟩ := by
  rw [StorePut.replacement_append]
  refine (advances_test _).trans ?_
  rw [hmarker]
  exact .head (steps_of_jump rfl hfrom) (.head (steps_of_proceed rfl) (advances_restore _))

/-- Behind the entry point the run skips the fallback. -/
theorem advances_done {s : State ρ ω} {ahead : Code}
    (hfrom : code.from? done = some (.label done :: rest)) :
    Advances (next I code) ⟨.goto done :: ahead, s⟩ ⟨rest, s⟩ :=
  .head (steps_of_jump rfl hfrom) (.single (steps_of_proceed rfl))

/-- The entry point leaves what the call and the `pop` behind it leave. -/
theorem effect_capableCall (hI : KeepsPromises I scope) (hcovers : scope.covers put.kind put.owner)
    (hmarker : I.instanceOf Store.marker receiver world) {result : Value ρ}
    (hcall : I.call put.callee [receiver, key, value] world = .returned (some result) world') :
    effect I ⟨value :: key :: receiver :: st, locals, world⟩ (StorePut.capableCall discarded) =
      .proceed ⟨leftBy discarded result st, locals, world'⟩ := by
  cases discarded with
  | false =>
    show invoke I Store.slowPathCallee _ = _
    rw [invoke_three hI.slow_takes, hI.slow_call put hcovers _ _ _ _ hmarker, hcall]
    rfl
  | true =>
    show invoke I Store.fastPathCallee _ = _
    rw [invoke_three hI.fast_takes, hI.fast_call put hcovers _ _ _ _ hmarker, hcall]
    rfl

/-- It fails where the call does. -/
theorem effect_capableCall_failed (hI : KeepsPromises I scope)
    (hcovers : scope.covers put.kind put.owner)
    (hmarker : I.instanceOf Store.marker receiver world)
    (hcall : I.call put.callee [receiver, key, value] world = .failed world') :
    effect I ⟨value :: key :: receiver :: st, locals, world⟩ (StorePut.capableCall discarded) =
      .stop (.failed world') := by
  cases discarded with
  | false =>
    show invoke I Store.slowPathCallee _ = _
    rw [invoke_three hI.slow_takes, hI.slow_call put hcovers _ _ _ _ hmarker, hcall]
  | true =>
    show invoke I Store.fastPathCallee _ = _
    rw [invoke_three hI.fast_takes, hI.fast_call put hcovers _ _ _ _ hmarker, hcall]
    rfl

/-! ## Piece by piece -/

variable {patched rest' : Code} {R : Point ρ ω → Point ρ ω → Prop}

/-- **A call and its replacement keep in step**, if the two codes behind them do. -/
theorem keeps_site (hI : KeepsPromises I scope) (hcovers : scope.covers put.kind put.owner)
    (hfallback : patched.from? fallback = some (.label fallback :: .dupX2 :: .pop :: put.call ::
      ((if discarded then [.pop] else []) ++ .label done :: rest')))
    (hdone : patched.from? done = some (.label done :: rest'))
    (hR : ∀ s, R ⟨rest, s⟩ ⟨rest', s⟩) (s : State ρ ω) :
    Keeps (next I code) (next I patched) R
      ⟨put.call :: ((if discarded then [.pop] else []) ++ rest), s⟩
      ⟨put.replacement discarded fallback done ++ rest', s⟩ := by
  have htakes := hI.put_takes put hcovers
  obtain ⟨stack, locals, world⟩ := s
  by_cases hlen : stack.length < 3
  · -- too few values: the call is stuck, and so is the first instruction of the replacement
    refine .inr ⟨.stuck world, reaches_of_stop ?_, reaches_of_stop ?_⟩
    · show invoke I put.callee _ = _
      unfold invoke
      rw [htakes, if_pos hlen]
    · rcases stack with - | ⟨v, - | ⟨k, - | ⟨r, st⟩⟩⟩
      · rfl
      · rfl
      · rfl
      · simp only [List.length_cons] at hlen; omega
  · obtain ⟨value, key, receiver, st, rfl⟩ : ∃ v k r st, stack = v :: k :: r :: st := by
      rcases stack with - | ⟨v, - | ⟨k, - | ⟨r, st⟩⟩⟩
      · simp at hlen
      · simp at hlen
      · simp at hlen
      · exact ⟨v, k, r, st, rfl⟩
    -- the call returns a result or fails; either way the replacement does so on both branches
    rcases hcall : I.call put.callee [receiver, key, value] world with ⟨result, world'⟩ | world'
    · obtain ⟨result, rfl⟩ := Option.isSome_iff_exists.1 (hI.put_result put hcovers _ _ _ _ hcall)
      refine .inl ⟨_, _, advances_call htakes hcall, ?_, hR ⟨_, locals, world'⟩⟩
      rcases hmarker : I.instanceOf Store.marker receiver world with - | -
      · refine (advances_fallback hmarker hfallback).trans ?_
        exact (advances_call htakes hcall).tail (steps_of_proceed rfl)
      · refine (advances_capable hmarker (hI.casts _ _ hmarker)).trans ?_
        exact .head (steps_of_proceed (effect_capableCall hI hcovers hmarker hcall))
          (advances_done hdone)
    · refine .inr ⟨.failed world', reaches_call htakes hcall, ?_⟩
      rcases hmarker : I.instanceOf Store.marker receiver world with - | -
      · exact (reaches_call htakes hcall).of_advances (advances_fallback hmarker hfallback)
      · exact (reaches_of_stop (effect_capableCall_failed hI hcovers hmarker hcall)).of_advances
          (advances_capable hmarker (hI.casts _ _ hmarker))

/-- **An instruction that is kept does the same on either side**, and where it jumps it goes to the
same piece. -/
theorem keeps_kept {insn : Insn} (hR : ∀ s, R ⟨rest, s⟩ ⟨rest', s⟩)
    (hjump : ∀ target, insn.label? = some target →
      code.from? target = none ∧ patched.from? target = none ∨
        ∃ ahead ahead', code.from? target = some ahead ∧ patched.from? target = some ahead' ∧
          ∀ s, R ⟨ahead, s⟩ ⟨ahead', s⟩) (s : State ρ ω) :
    Keeps (next I code) (next I patched) R ⟨insn :: rest, s⟩ ⟨insn :: rest', s⟩ := by
  rcases heffect : effect I s insn with s' | ⟨target, s'⟩ | o
  · exact .inl ⟨_, _, .single (steps_of_proceed heffect), .single (steps_of_proceed heffect), hR s'⟩
  · rcases hjump target (label?_of_jump heffect) with ⟨hfrom, hfrom'⟩ | ⟨_, _, hfrom, hfrom', hR'⟩
    · exact .inr ⟨_, reaches_of_lost_jump heffect hfrom, reaches_of_lost_jump heffect hfrom'⟩
    · exact .inl ⟨_, _, .single (steps_of_jump heffect hfrom),
        .single (steps_of_jump heffect hfrom'), hR' s'⟩
  · exact .inr ⟨o, reaches_of_stop heffect, reaches_of_stop heffect⟩

/-! ## The whole code -/

/-- The two runs stand at the same piece, in the same state. -/
def AtSamePiece (first : Nat) (ps : List Piece) (p p' : Point ρ ω) : Prop :=
  ∃ passed ahead s, ps = passed ++ ahead ∧ p = ⟨ahead.flatMap Piece.before, s⟩ ∧
    p' = ⟨Piece.written (first + 2 * Piece.sites passed) ahead, s⟩

theorem atSamePiece (first : Nat) {ps : List Piece} (passed ahead : List Piece)
    (h : ps = passed ++ ahead) (s : State ρ ω) :
    AtSamePiece first ps ⟨ahead.flatMap Piece.before, s⟩
      ⟨Piece.written (first + 2 * Piece.sites passed) ahead, s⟩ :=
  ⟨passed, ahead, s, h, rfl, rfl⟩

/-- **The runs of a code and of what the pass writes for it keep in step.** -/
theorem keeps_atSamePiece (hI : KeepsPromises I scope)
    (hsize : code.firstFresh + 2 * Piece.sites (code.pieces scope) ≤ UInt32.size)
    (p p' : Point ρ ω) (h : AtSamePiece code.firstFresh (code.pieces scope) p p') :
    Keeps (next I code) (next I (Piece.written code.firstFresh (code.pieces scope)))
      (AtSamePiece code.firstFresh (code.pieces scope)) p p' := by
  obtain ⟨passed, ahead, s, hps, rfl, rfl⟩ := h
  have hcode := code.before_pieces scope
  have hcovers : ∀ put discarded, .site put discarded ∈ ahead →
      scope.covers put.kind put.owner := fun put discarded hmem =>
    Code.covers_of_mem_pieces (hps ▸ List.mem_append_right _ hmem)
  generalize code.pieces scope = ps at *
  rcases ahead with - | ⟨⟨insn⟩ | ⟨put, discarded⟩, ahead⟩
  · -- behind the last piece both runs are stuck
    exact .inr ⟨_, reaches_of_stops rfl, reaches_of_stops rfl⟩
  · have hR : ∀ s : State ρ ω, AtSamePiece code.firstFresh ps ⟨ahead.flatMap Piece.before, s⟩
        ⟨Piece.written (code.firstFresh + 2 * Piece.sites passed) ahead, s⟩ := by
      intro s
      have := atSamePiece code.firstFresh (passed ++ [.kept insn]) ahead (by simpa using hps) s
      rwa [Piece.sites_append] at this
    refine keeps_kept hR (fun target htarget => ?_) s
    -- a label that the code mentions is none of the fresh ones, so it is found at its piece
    have hmem : insn ∈ code := by
      rw [← hcode, hps, List.flatMap_append, List.flatMap_cons]
      simp [Piece.before]
    rcases Piece.from?_written ps (Code.lt_firstFresh hmem htarget) hsize with
      hnone | ⟨passed', ahead', hps', hfrom, hfrom'⟩
    · rw [hcode] at hnone
      exact .inl hnone
    · rw [hcode] at hfrom
      exact .inr ⟨_, _, hfrom, hfrom', atSamePiece _ _ _ hps'⟩
  · have hR : ∀ s : State ρ ω, AtSamePiece code.firstFresh ps ⟨ahead.flatMap Piece.before, s⟩
        ⟨Piece.written (code.firstFresh + 2 * Piece.sites passed + 2) ahead, s⟩ := by
      intro s
      have := atSamePiece code.firstFresh (passed ++ [.site put discarded]) ahead
        (by simpa using hps) s
      rwa [Piece.sites_append] at this
    have hpassed : ∀ insn ∈ passed.flatMap Piece.before, insn ∈ code := by
      intro insn hinsn
      rw [← hcode, hps, List.flatMap_append]
      exact List.mem_append_left _ hinsn
    have hfit : code.firstFresh + 2 * Piece.sites passed + 2 ≤ UInt32.size := by
      have := Piece.sites_cons (.site put discarded) ahead
      rw [hps, Piece.sites_append] at hsize
      simp only [Piece.labels] at this
      omega
    -- the two label ids of this site are new to what is written in front of it
    rw [hps, Piece.written_append]
    generalize hn : code.firstFresh + 2 * Piece.sites passed = n at *
    have hfallback : (UInt32.ofNat n).toNat = n := UInt32.toNat_ofNat_of_lt' (by omega)
    have hdone : (UInt32.ofNat (n + 1)).toNat = n + 1 := UInt32.toNat_ofNat_of_lt' (by omega)
    have hne : UInt32.ofNat n ≠ UInt32.ofNat (n + 1) := by
      intro heq
      rw [heq, hdone] at hfallback
      omega
    refine keeps_site hI (hcovers put discarded List.mem_cons_self)
      (put.from?_fallback discarded _ ?_ _) (put.from?_done discarded hne ?_ _) (hps ▸ hR) s
    · exact Piece.not_mem_written hpassed (by omega) (by omega)
    · exact Piece.not_mem_written hpassed (by omega) (by omega)

/-- **Patched code does what the code did.** From every state on, the two runs have the same
outcomes: what is returned, the stack, the locals and the world left behind, failures and stuck runs
included. A run that has no outcome on one side has none on the other. -/
theorem ends_patched_iff {sites : Nat} (hI : KeepsPromises I scope)
    (hpatch : code.patch? scope = some (patched, sites)) (s : State ρ ω) (o : Outcome ρ ω) :
    Ends I patched s o ↔ Ends I code s o := by
  rw [Code.patch?_eq] at hpatch
  split at hpatch
  · rename_i hsize
    obtain ⟨rfl, -⟩ := Prod.mk.inj (Option.some.inj hpatch)
    have hstart := atSamePiece code.firstFresh [] (code.pieces scope) rfl s
    rw [Code.before_pieces] at hstart
    exact (reaches_iff_of_lockstep (keeps_atSamePiece hI hsize) hstart).symm
  · cases hpatch

/-! ## A loop over a store

A world that writes down what is put, and code that puts twice: the receiver
has the marker, so that the patched code takes the fast path each time. -/

namespace Ledger

/-- Every store writes its arguments down; a static call says whether there is room for more. A
reference is whether the store has the marker. -/
def ledger : Interpretation Bool (List (Value Bool)) where
  instanceOf type v _ := type = Store.marker && v = .reference true
  casts type v _ := type = Store.marker && v = .reference true
  takes callee := if callee.kind = .static then 0 else 3
  call callee args written :=
    if callee.kind = .static then .returned (some (.truth (written.length < 6))) written
    else if callee.desc = Store.putDesc then .returned (some (.number 0)) (args ++ written)
    else .returned none (args ++ written)

/-- The interface of stores. -/
def stores : Scope := { interfaces := [Store.storeInterface], capable := fun _ => false }

/-- Puts 2 under 1 as long as there is room. -/
def loop : Code :=
  [.label 0, .load 0, .const 1, .const 2,
    .invoke .interface Store.storeInterface Store.put Store.putDesc, .pop,
    .invoke .static "acme/Clock" "room" "()->bool", .ifEq 1, .goto 0, .label 1, .ret]

/-- Every local is the store, and nothing is written down but that list. -/
def holding (written : List (Value Bool)) : State Bool (List (Value Bool)) :=
  { stack := [], locals := fun _ => some (.reference true), world := written }

theorem kind_ne_static {put : StorePut} (h : stores.covers put.kind put.owner) :
    put.callee.kind ≠ .static := by
  intro hkind
  obtain ⟨kind, owner⟩ := put
  cases (hkind : kind = .static)
  cases h

theorem call_put {put : StorePut} (h : stores.covers put.kind put.owner)
    (args written : List (Value Bool)) :
    ledger.call put.callee args written = .returned (some (.number 0)) (args ++ written) := by
  have hdesc : put.callee.desc = Store.putDesc := rfl
  show (if _ then _ else if _ then _ else _) = _
  rw [if_neg (kind_ne_static h), if_pos hdesc]

theorem keepsPromises : KeepsPromises ledger stores where
  put_takes put h := if_neg (kind_ne_static h)
  put_result put h args world result world' hcall := by
    rw [call_put h] at hcall
    cases hcall
    rfl
  casts _ _ h := h
  slow_takes := rfl
  slow_call put h receiver key value world _ := by
    rw [call_put h]
    rfl
  fast_takes := rfl
  fast_call put h receiver key value world _ := by
    rw [call_put h]
    rfl

/-- The patched loop puts twice, as the loop does. -/
theorem ends_patched_loop :
    ∃ patched, loop.patch? stores = some (patched, 1) ∧
      Ends ledger patched (holding [])
        (.returned none (holding [.reference true, .number 1, .number 2,
          .reference true, .number 1, .number 2])) := by
  have hends : Ends ledger loop (holding []) (.returned none (holding
      [.reference true, .number 1, .number 2, .reference true, .number 1, .number 2])) :=
    ⟨40, rfl⟩
  obtain ⟨patched, hpatch⟩ : ∃ patched, loop.patch? stores = some (patched, 1) := ⟨_, rfl⟩
  exact ⟨patched, hpatch, (ends_patched_iff keepsPromises hpatch _ _).2 hends⟩

end Ledger

end CallPatch
