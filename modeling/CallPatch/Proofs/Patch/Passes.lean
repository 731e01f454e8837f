import CallPatch.Patch.Extension
/-!
# Patching — passes that succeed

What it takes for a pass to give a result: each of its steps gives one. The
results of the two passes over encoded artifacts are described by the
artifacts they decode and encode.
-/

namespace CallPatch

/-- A chain of two steps gives a result when each of them does. -/
theorem bind_eq_ok_iff {ε α β : Type} {x : Except ε α} {f : α → Except ε β} {b : β} :
    x >>= f = .ok b ↔ ∃ a, x = .ok a ∧ f a = .ok b := by
  cases x with
  | error e =>
    constructor
    · intro h
      cases h
    · rintro ⟨a, h, -⟩
      cases h
  | ok a =>
    constructor
    · exact fun h => ⟨a, rfl, h⟩
    · rintro ⟨a', h, h'⟩
      cases h
      exact h'

/-- And so does one that is mapped. -/
theorem map_eq_ok_iff {ε α β : Type} {x : Except ε α} {f : α → β} {b : β} :
    x.map f = .ok b ↔ ∃ a, x = .ok a ∧ f a = b := by
  cases x with
  | error e =>
    constructor
    · intro h
      cases h
    · rintro ⟨a, h, -⟩
      cases h
  | ok a =>
    constructor
    · exact fun h => ⟨a, rfl, Except.ok.inj h⟩
    · rintro ⟨a', h, h'⟩
      cases h
      exact congrArg Except.ok h'

theorem PatchError.ofFrame_eq_ok_iff {α : Type} {r : Except FrameError α} {a : α} :
    PatchError.ofFrame r = .ok a ↔ r = .ok a := by
  cases r with
  | error e => exact ⟨nofun, nofun⟩
  | ok a' =>
    constructor
    · intro h
      cases h
      rfl
    · intro h
      cases h
      rfl

/-- A store is extended when it has a `set` and a `put`. -/
theorem Artifact.extend_eq_ok_iff {a b : Artifact} :
    a.extend = .ok b ↔
      (a.member? Store.set Store.setDesc).isSome = true ∧
        (a.member? Store.put Store.putDesc).isSome = true ∧
          b = { a.modifyMember Store.put Store.putDesc Store.demote with
            supertypes := a.supertypes ++ [Store.marker]
            members := (a.modifyMember Store.put Store.putDesc Store.demote).members ++
              Store.entryPoints a.name } := by
  unfold extend
  rcases a.member? Store.set Store.setDesc with - | set
  · simp
  · rcases a.member? Store.put Store.putDesc with - | put
    · simp
    · simp [eq_comm]

/-- An extension leaves a store with the marker alone and encodes any other with the capability. -/
theorem extendStore_eq_ok_iff {bytes : Bytes} {e : Extended} :
    extendStore bytes = .ok e ↔ ∃ a, Artifact.decode bytes = .ok a ∧
      (a.declares Store.marker = true ∧ e = ⟨bytes, false⟩ ∨
        a.declares Store.marker = false ∧ ∃ b, a.extend = .ok b ∧
          ∃ bytes', b.encode = .ok bytes' ∧ e = ⟨bytes', true⟩) := by
  simp only [extendStore, bind_eq_ok_iff, PatchError.ofFrame_eq_ok_iff]
  refine exists_congr fun a => and_congr_right fun _ => ?_
  cases a.declares Store.marker with
  | true => simp [pure, Except.pure, eq_comm]
  | false =>
    simp only [Bool.false_eq_true, if_false, bind_eq_ok_iff, PatchError.ofFrame_eq_ok_iff]
    simp [pure, Except.pure, eq_comm]

/-- Patching leaves bytes without a call site alone and encodes any other artifact afresh. -/
theorem patchCallSites_eq_ok_iff {scope : Scope} {names : List String} {bytes : Bytes}
    {p : Patched} :
    patchCallSites scope names bytes = .ok p ↔ ∃ a, Artifact.decode bytes = .ok a ∧
      ∃ b sites, a.patch scope names = .ok (b, sites) ∧
        (sites = 0 ∧ p = ⟨bytes, 0⟩ ∨
          sites ≠ 0 ∧ ∃ bytes', b.encode = .ok bytes' ∧ p = ⟨bytes', sites⟩) := by
  simp only [patchCallSites, bind_eq_ok_iff, PatchError.ofFrame_eq_ok_iff, Prod.exists]
  refine exists_congr fun a => and_congr_right fun _ =>
    exists_congr fun b => exists_congr fun sites => and_congr_right fun _ => ?_
  by_cases hsites : sites = 0
  · simp [hsites, pure, Except.pure, eq_comm]
  · simp only [hsites, if_false, bind_eq_ok_iff, PatchError.ofFrame_eq_ok_iff]
    simp [hsites, pure, Except.pure, eq_comm]

end CallPatch
