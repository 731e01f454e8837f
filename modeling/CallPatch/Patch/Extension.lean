import CallPatch.Patch.CallSites
/-!
# Patching — extending a store

Gives a base store the capability. Its `put` stays as a private member under
another name, and three members are added: a `put` that notifies the agent
and then does what the first one did, a fast path that is the store's `set`,
and an alternative slow path that is the first `put` without the
notification. A store that declares the marker already is left alone, even
if it lacks a `put` or a `set`.
-/

namespace CallPatch

/-- The outcome of extending a store. -/
structure Extended where
  bytes : Bytes
  /-- Whether the store was extended; otherwise the bytes are those given. -/
  transformed : Bool
  deriving DecidableEq, Repr

namespace Store

/-- Calls another member of the store with the receiver and the two arguments. -/
def delegate (owner name desc : String) : Code :=
  [.load 0, .load 1, .load 2, .invoke .virtual owner name desc]

/-- A `put` that notifies the agent first. -/
def notifyingPut (owner : String) : Member where
  name := put
  desc := putDesc
  access := .pub
  code := [.invoke .static notifyOwner notifyName notifyDesc, .pop]
    ++ delegate owner keptSlowPath putDesc ++ [.retValue]

/-- A fast path that is the `set` of the store. -/
def fastPathMember (owner : String) : Member where
  name := fastPath
  desc := setDesc
  access := .pub
  code := delegate owner set setDesc ++ [.ret]

/-- A slow path that notifies nobody. -/
def alternativeSlowPathMember (owner : String) : Member where
  name := alternativeSlowPath
  desc := putDesc
  access := .pub
  code := delegate owner keptSlowPath putDesc ++ [.retValue]

/-- The members an extension adds, in order. -/
def entryPoints (owner : String) : List Member :=
  [notifyingPut owner, fastPathMember owner, alternativeSlowPathMember owner]

/-- What becomes of the store's own `put`. -/
def demote (m : Member) : Member :=
  { m with name := keptSlowPath, access := .priv }

end Store

namespace Artifact

/-- The store with the capability, unless its `set` or its `put` is missing. -/
def extend (a : Artifact) : Except PatchError Artifact :=
  if (a.member? Store.set Store.setDesc).isNone then .error (.missingMember a.name Store.set)
  else if (a.member? Store.put Store.putDesc).isNone then .error (.missingMember a.name Store.put)
  else
    let demoted := a.modifyMember Store.put Store.putDesc Store.demote
    .ok { demoted with
      supertypes := a.supertypes ++ [Store.marker]
      members := demoted.members ++ Store.entryPoints a.name }

end Artifact

/-- Extends an encoded store that does not declare the marker yet. -/
def extendStore (bytes : Bytes) : Except PatchError Extended := do
  let a ← PatchError.ofFrame (Artifact.decode bytes)
  if a.declares Store.marker then
    return { bytes, transformed := false }
  else
    let extended ← a.extend
    return { bytes := ← PatchError.ofFrame extended.encode, transformed := true }

end CallPatch
