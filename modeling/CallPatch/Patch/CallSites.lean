import CallPatch.Artifact.Frame
import CallPatch.EntryKey
import CallPatch.Patch.Code
/-!
# Patching — call sites

Patches every `put` on a store inside the named members of an encoded
artifact. Members that share a name are all patched. When nothing is found
the bytes come back as they were, whatever their spelling; otherwise the
artifact is encoded afresh.
-/

namespace CallPatch

/-- Why a pass left an artifact alone. -/
inductive PatchError where
  /-- The bytes cannot be decoded, or the result cannot be encoded. -/
  | frame (cause : FrameError)
  | missingMember (owner member : String)
  /-- Too few label ids are left for the replacements. -/
  | labelsExhausted (owner member : String)
  deriving DecidableEq, Repr

namespace PatchError

/-- The error in words. -/
def message : PatchError → String
  | .frame cause => s!"artifact codec: {cause.message}"
  | .missingMember owner member => s!"{owner} has no member {member}"
  | .labelsExhausted owner member => s!"{joinKey owner member} has no free label ids"

/-- The error underneath, if there is one. -/
def cause? : PatchError → Option FrameError
  | .frame cause => some cause
  | _ => none

/-- An encoding or decoding, as a step of a pass. -/
def ofFrame {α : Type} (r : Except FrameError α) : Except PatchError α :=
  r.mapError PatchError.frame

end PatchError

/-- The outcome of patching call sites. -/
structure Patched where
  bytes : Bytes
  /-- How many calls were replaced. -/
  sites : Nat
  deriving DecidableEq, Repr

namespace Patched

/-- Whether any call was replaced; without one the bytes are those given. -/
def transformed (p : Patched) : Bool :=
  p.sites ≠ 0

end Patched

namespace Member

/-- Patches the member if its name is among `names`. -/
def patch (scope : Scope) (names : List String) (owner : String) (m : Member) :
    Except PatchError (Member × Nat) :=
  if names.contains m.name then
    match m.code.patch? scope with
    | some (code, sites) => .ok ({ m with code }, sites)
    | none => .error (.labelsExhausted owner m.name)
  else .ok (m, 0)

end Member

namespace Artifact

/-- Patches the named members in order, with the number of calls replaced. -/
def patch (scope : Scope) (names : List String) (a : Artifact) :
    Except PatchError (Artifact × Nat) := do
  let patched ← a.members.mapM (Member.patch scope names a.name)
  let sites := (patched.map Prod.snd).foldl (· + ·) 0
  return ({ a with members := patched.map Prod.fst }, sites)

end Artifact

/-- Patches the call sites inside the named members of an encoded artifact. -/
def patchCallSites (scope : Scope) (names : List String) (bytes : Bytes) :
    Except PatchError Patched := do
  let a ← PatchError.ofFrame (Artifact.decode bytes)
  let (patched, sites) ← a.patch scope names
  if sites = 0 then
    return { bytes, sites }
  else
    return { bytes := ← PatchError.ofFrame patched.encode, sites }

end CallPatch
