import CallPatch.Patch.CallSites
import CallPatch.Proofs.Patch.Pieces
/-!
# Patching — told with a look ahead

The pass over a code holds a call back, and finds out that it is short of label
ids when it writes the second id of some replacement. Told in advance, a code is
patched in one go (`Code.spliced`): an instruction that calls `put` on a store
is replaced together with a `pop` right behind it or on its own, and the ids are
counted up from the first fresh one. The ids do not suffice just when twice the
number of calls is more than what is left of them, which the count alone tells
(`Member.exhausts`).

`patchCallSites_eq_lookAhead` says so of encoded artifacts, errors included, and
whatever the bytes, the names and the types that count as stores.
-/

namespace CallPatch

/-! ## The specification -/

/-- The instruction calls `put` with a result, through an interface that counts as a store or on a
type with the capability. -/
def Scope.targets (scope : Scope) : Insn → Bool
  | .invoke .interface owner name desc =>
    name = Store.put && desc = Store.putDesc && scope.interfaces.contains owner
  | .invoke .virtual owner name desc =>
    name = Store.put && desc = Store.putDesc && scope.capable owner
  | _ => false

/-- Goes by the interfaces alone, as where no type has the capability. -/
def Scope.interfacesOnly : Scope :=
  ⟨Store.defaultInterfaces, fun _ => false⟩

/-- What replaces a call with the `pop` behind it. -/
def discardedSequence (call : Insn) (fallback done : UInt32) : Code :=
  [.dup2X1, .pop2, .dup, .instanceOf Store.marker, .ifEq fallback,
    .checkCast Store.marker, .dupX2, .pop,
    .invoke .interface Store.marker Store.fastPath Store.setDesc, .goto done,
    .label fallback, .dupX2, .pop, call, .pop, .label done]

/-- What replaces a call whose result is used. -/
def usedSequence (call : Insn) (fallback done : UInt32) : Code :=
  [.dup2X1, .pop2, .dup, .instanceOf Store.marker, .ifEq fallback,
    .checkCast Store.marker, .dupX2, .pop,
    .invoke .interface Store.marker Store.alternativeSlowPath Store.putDesc, .goto done,
    .label fallback, .dupX2, .pop, call, .label done]

/-- How many instructions call `put` on a store. -/
def Code.puts (scope : Scope) (code : Code) : Nat :=
  code.countP scope.targets

/-- The code with its calls replaced, each with the next two label ids from `first` on. -/
def Code.spliced (scope : Scope) : Nat → Code → Code
  | _, [] => []
  | first, insn :: rest =>
    if scope.targets insn then
      match rest with
      | .pop :: rest =>
        discardedSequence insn (UInt32.ofNat first) (UInt32.ofNat (first + 1)) ++
          spliced scope (first + 2) rest
      | rest =>
        usedSequence insn (UInt32.ofNat first) (UInt32.ofNat (first + 1)) ++
          spliced scope (first + 2) rest
    else insn :: spliced scope first rest

namespace Member

/-- How many calls are replaced in the member: none if it is not named. -/
def puts (scope : Scope) (names : List String) (m : Member) : Nat :=
  if names.contains m.name then m.code.puts scope else 0

/-- The member with its calls replaced, if it is named. -/
def spliced (scope : Scope) (names : List String) (m : Member) : Member :=
  if names.contains m.name then { m with code := m.code.spliced scope m.code.firstFresh } else m

/-- The member is named and has calls, and twice as many label ids are not left. -/
def exhausts (scope : Scope) (names : List String) (m : Member) : Bool :=
  names.contains m.name && 0 < m.code.puts scope &&
    UInt32.size < m.code.firstFresh + 2 * m.code.puts scope

end Member

namespace Artifact

/-- How many calls are replaced in the members together. -/
def puts (scope : Scope) (names : List String) (a : Artifact) : Nat :=
  (a.members.map (Member.puts scope names)).foldl (· + ·) 0

/-- The artifact with the calls of its named members replaced, and nothing else. -/
def spliced (scope : Scope) (names : List String) (a : Artifact) : Artifact :=
  { a with members := a.members.map (Member.spliced scope names) }

end Artifact

/-- What patching the call sites of an encoded artifact comes to: the bytes, whether they were
transformed, and the number of calls replaced. -/
def lookAhead (scope : Scope) (names : List String) (bytes : Bytes) :
    Except PatchError (Bytes × Bool × Nat) :=
  match Artifact.decode bytes with
  | .error e => .error (.frame e)
  | .ok a =>
    match a.members.find? (Member.exhausts scope names) with
    | some m => .error (.labelsExhausted a.name m.name)
    | none =>
      if a.puts scope names = 0 then .ok (bytes, false, 0)
      else
        match (a.spliced scope names).encode with
        | .ok bytes => .ok (bytes, true, a.puts scope names)
        | .error _ =>
          .error (.frame (.tooLarge (a.spliced scope names).document.length Frame.defaultMax))

/-! ## Calls -/

variable {scope : Scope} {names : List String} {insn : Insn} {put : StorePut} {code rest : Code}

/-- The pass looks for the same instructions. -/
theorem Scope.isSome_storePut? (scope : Scope) (insn : Insn) :
    (scope.storePut? insn).isSome = scope.targets insn := by
  cases insn with
  | invoke kind owner name desc =>
    have htargets : scope.targets (.invoke kind owner name desc) =
        decide (name = Store.put ∧ desc = Store.putDesc ∧ scope.covers kind owner = true) := by
      rw [Bool.eq_iff_iff, decide_eq_true_iff]
      cases kind <;> simp [targets, covers, and_assoc]
    rw [htargets, storePut?]
    split
    · next hput => rw [decide_eq_true hput, Option.isSome_some]
    · next hput => rw [decide_eq_false hput, Option.isSome_none]
  | _ => rfl

/-- A call that is found is one that is to be replaced. -/
theorem Scope.targets_of_some (h : scope.storePut? insn = some put) :
    scope.targets insn = true := by
  rw [← scope.isSome_storePut?, h]
  rfl

/-- And there is no other. -/
theorem Scope.targets_of_none (h : scope.storePut? insn = none) :
    scope.targets insn = false := by
  rw [← scope.isSome_storePut?, h]
  rfl

/-- A call whose result is discarded gets the sequence that leaves nothing. -/
theorem Piece.after_discarded (put : StorePut) (first : Nat) :
    after first (.site put true) =
      discardedSequence put.call (UInt32.ofNat first) (UInt32.ofNat (first + 1)) :=
  rfl

/-- Any other gets the one that leaves the result. -/
theorem Piece.after_used (put : StorePut) (first : Nat) :
    after first (.site put false) =
      usedSequence put.call (UInt32.ofNat first) (UInt32.ofNat (first + 1)) :=
  rfl

/-! ## One code -/

namespace Code

/-- A claim makes one site more. -/
theorem sites_claim (put : StorePut) (ps : List Piece) :
    Piece.sites (claim put ps) = Piece.sites ps + 1 := by
  unfold claim
  split
  · rw [Piece.sites, Piece.sites, List.countP_cons_of_pos rfl,
      List.countP_cons_of_neg Bool.false_ne_true]
  · rw [Piece.sites, Piece.sites, List.countP_cons_of_pos rfl]

/-- Every call makes a site. -/
theorem sites_pieces (scope : Scope) (code : Code) :
    Piece.sites (pieces scope code) = code.puts scope := by
  induction code with
  | nil => rfl
  | cons insn rest ih =>
    rw [puts] at ih ⊢
    rcases hput : scope.storePut? insn with - | put
    · rw [pieces_of_none hput, List.countP_cons_of_neg (by simp [Scope.targets_of_none hput])]
      exact ih
    · rw [pieces_of_some hput, sites_claim, ih,
        List.countP_cons_of_pos (Scope.targets_of_some hput)]

/-- The `pop` behind a call is taken together with it. -/
theorem spliced_of_pop (h : scope.targets insn = true) (first : Nat) (rest : Code) :
    spliced scope first (insn :: .pop :: rest) =
      discardedSequence insn (UInt32.ofNat first) (UInt32.ofNat (first + 1)) ++
        spliced scope (first + 2) rest := by
  simp only [spliced, h, if_true]

/-- Without one, the call is taken alone. -/
theorem spliced_of_ne_pop (h : scope.targets insn = true) (first : Nat)
    (hrest : ∀ rest', rest ≠ .pop :: rest') :
    spliced scope first (insn :: rest) =
      usedSequence insn (UInt32.ofNat first) (UInt32.ofNat (first + 1)) ++
        spliced scope (first + 2) rest := by
  rw [spliced.eq_def]
  dsimp only
  rw [if_pos h]
  split
  · exact absurd rfl (hrest _)
  · rfl

/-- Everything else stays where it is. -/
theorem spliced_of_not_targets (h : ¬scope.targets insn = true) (first : Nat) (rest : Code) :
    spliced scope first (insn :: rest) = insn :: spliced scope first rest := by
  rw [spliced.eq_def]
  exact if_neg h

/-- The pieces are written as the code is spliced. -/
theorem written_pieces (scope : Scope) (first : Nat) (code : Code) :
    Piece.written first (pieces scope code) = code.spliced scope first := by
  -- the recursion of the splice: past a call and the `pop` behind it, or past one instruction
  induction first, code using spliced.induct scope with
  | case1 first => rfl
  | case2 first insn htargets rest ih =>
    obtain ⟨put, hput⟩ := Option.isSome_iff_exists.1
      ((scope.isSome_storePut? insn).trans htargets)
    have hpop : pieces scope (.pop :: rest) = .kept .pop :: pieces scope rest :=
      pieces_of_none rfl rest
    rw [spliced_of_pop htargets, pieces_of_some hput, hpop, claim_of_pop, Piece.written,
      Piece.after_discarded, ← (Scope.storePut?_eq_some hput).1, Piece.labels, ih]
  | case3 first insn htargets rest hrest ih =>
    obtain ⟨put, hput⟩ := Option.isSome_iff_exists.1
      ((scope.isSome_storePut? insn).trans htargets)
    have hclaim : ∀ qs, pieces scope rest ≠ .kept .pop :: qs := by
      rcases rest with - | ⟨next, rest⟩
      · intro qs hqs
        cases hqs
      · refine pieces_ne_pop ?_ rest
        rintro rfl
        exact hrest rest rfl
    rw [spliced_of_ne_pop htargets first hrest, pieces_of_some hput, claim_of_ne hclaim,
      Piece.written, Piece.after_used, ← (Scope.storePut?_eq_some hput).1, Piece.labels, ih]
  | case4 first insn rest htargets ih =>
    have hput : scope.storePut? insn = none := by
      rw [← Option.not_isSome_iff_eq_none, scope.isSome_storePut?]
      exact htargets
    rw [spliced_of_not_targets htargets, pieces_of_none hput, Piece.written, Piece.labels,
      Nat.add_zero, ih]
    rfl

/-- **The pass is the splice**, and fails just when the label ids do not suffice for it. -/
theorem patch?_eq_spliced (scope : Scope) (code : Code) :
    code.patch? scope =
      if code.firstFresh + 2 * code.puts scope ≤ UInt32.size then
        some (code.spliced scope code.firstFresh, code.puts scope)
      else none := by
  rw [patch?_eq, sites_pieces, written_pieces]

/-- Of two calls behind each other the second takes one `pop` with it. -/
example :
    let put : Insn := .invoke .interface Store.storeInterface Store.put Store.putDesc
    patch? ⟨[Store.storeInterface], fun _ => false⟩ [put, put, .pop, .pop] =
      some (usedSequence put 0 1 ++ discardedSequence put 2 3 ++ [.pop], 2) :=
  rfl

end Code

/-! ## One member -/

/-- **One member**: it is spliced, unless its labels are exhausted. -/
theorem Member.patch_eq (scope : Scope) (names : List String) (owner : String) (m : Member) :
    m.patch scope names owner =
      if m.exhausts scope names then .error (.labelsExhausted owner m.name)
      else .ok (m.spliced scope names, m.puts scope names) := by
  have hfresh := m.code.firstFresh_le
  unfold patch exhausts spliced puts
  by_cases hname : names.contains m.name = true
  · rw [if_pos hname, if_pos hname, if_pos hname, hname, Bool.true_and, Code.patch?_eq_spliced]
    by_cases hsize : m.code.firstFresh + 2 * m.code.puts scope ≤ UInt32.size
    · rw [if_pos hsize, if_neg (by simpa using fun _ => hsize)]
    · -- without calls the ids would suffice
      have hcalls : 0 < m.code.puts scope := by omega
      rw [if_neg hsize, if_pos (by simpa using ⟨hcalls, Nat.lt_of_not_le hsize⟩)]
  · have hnot : names.contains m.name = false := Bool.not_eq_true _ ▸ hname
    rw [hnot]
    rfl

/-! ## All members -/

/-- A pass over a list fails at the first place that it fails at. -/
theorem mapM_eq_find? {ε α β : Type} {f : α → Except ε β} {p : α → Bool} {e : α → ε} {g : α → β}
    (hf : ∀ a, f a = if p a then .error (e a) else .ok (g a)) (as : List α) :
    as.mapM f =
      match as.find? p with
      | some a => .error (e a)
      | none => .ok (as.map g) := by
  induction as with
  | nil => rfl
  | cons a as ih =>
    rw [List.mapM_cons, hf, List.find?_cons]
    by_cases ha : p a
    · simp only [ha, if_true]
      rfl
    · simp only [ha, Bool.false_eq_true, if_false, ih]
      rcases as.find? p with - | a' <;> rfl

/-- **The whole artifact**, where the first exhausted member decides what is told. -/
theorem Artifact.patch_eq (scope : Scope) (names : List String) (a : Artifact) :
    a.patch scope names =
      match a.members.find? (Member.exhausts scope names) with
      | some m => .error (.labelsExhausted a.name m.name)
      | none => .ok (a.spliced scope names, a.puts scope names) := by
  have hmembers := mapM_eq_find? (Member.patch_eq scope names a.name) a.members
  rw [Artifact.patch, hmembers]
  rcases a.members.find? (Member.exhausts scope names) with - | m
  · simp only [bind, Except.bind, pure, Except.pure, List.map_map]
    rfl
  · rfl

/-- Encoding fails only by its length. -/
theorem Artifact.eq_tooLarge_of_encode {a : Artifact} {e : FrameError}
    (h : a.encode = .error e) : e = .tooLarge a.document.length Frame.defaultMax := by
  unfold encode Frame.wrap at h
  split at h
  · exact (Except.error.inj h).symm
  · cases h

theorem PatchError.ofFrame_ok {α : Type} (a : α) : PatchError.ofFrame (.ok a) = .ok a :=
  rfl

theorem PatchError.ofFrame_error {α : Type} (e : FrameError) :
    PatchError.ofFrame (.error e : Except FrameError α) = .error (.frame e) :=
  rfl

/-- **Patching call sites is told in advance**, errors included. -/
theorem patchCallSites_eq_lookAhead (scope : Scope) (names : List String) (bytes : Bytes) :
    (patchCallSites scope names bytes).map (fun p => (p.bytes, p.transformed, p.sites)) =
      lookAhead scope names bytes := by
  unfold patchCallSites lookAhead
  rcases Artifact.decode bytes with e | a
  · rfl
  · rw [PatchError.ofFrame_ok]
    simp only [bind, Except.bind, Artifact.patch_eq]
    rcases a.members.find? (Member.exhausts scope names) with - | m
    · dsimp only
      by_cases hputs : a.puts scope names = 0
      · rw [if_pos hputs, if_pos hputs, hputs]
        rfl
      · rw [if_neg hputs, if_neg hputs]
        rcases hencode : (a.spliced scope names).encode with e | bytes'
        · rw [Artifact.eq_tooLarge_of_encode hencode, PatchError.ofFrame_error]
          rfl
        · have htransformed : decide (a.puts scope names ≠ 0) = true := decide_eq_true hputs
          rw [PatchError.ofFrame_ok]
          show Except.ok (bytes', decide (a.puts scope names ≠ 0), a.puts scope names) = _
          rw [htransformed]
    · rfl

end CallPatch
