import CallPatch.Artifact.Frame
import CallPatch.Host.Supertypes
import CallPatch.Text.Order
/-!
# Hosts — what is loaded

A host keeps, for every loaded owner, the bytes it was defined from and the
bytes it runs now. Retransforming an owner starts from the first and replaces
the second. A host can be told to refuse an owner.
-/

namespace CallPatch

/-- Why a host does not do what it is asked. -/
inductive HostError where
  | notLoaded (owner : String)
  | refused (owner reason : String)
  /-- What the owner runs is no artifact. -/
  | malformed (owner reason : String)
  deriving DecidableEq, Repr

namespace HostError

/-- The error in words. -/
def message : HostError → String
  | .notLoaded owner => s!"{owner} is not loaded"
  | .refused owner reason => s!"host refused to retransform {owner}: {reason}"
  | .malformed owner reason => s!"artifact for {owner} is malformed: {reason}"

end HostError

/-- What a host keeps of a loaded owner. -/
structure LoadedArtifact where
  /-- The bytes it was defined from. -/
  defined : Bytes
  /-- The bytes it runs now. -/
  current : Bytes
  /-- How often it has been retransformed. -/
  retransforms : Nat
  deriving DecidableEq, Repr

/-- The loaded owners and those to refuse. -/
structure Host where
  loaded : Table String LoadedArtifact
  /-- The owners to refuse, with the reason to give. -/
  refusals : Table String String
  deriving DecidableEq, Repr

namespace Host

/-- Nothing loaded, nobody refused. -/
def empty : Host :=
  { loaded := [], refusals := [] }

/-- The loaded owners in order. -/
def loadedOwners (h : Host) : List String :=
  Text.sort (h.loaded.map Prod.fst)

/-- The bytes an owner runs. -/
def currentBytes? (h : Host) (owner : String) : Option Bytes :=
  (Table.get? owner h.loaded).map LoadedArtifact.current

/-- The artifact an owner runs. -/
def currentArtifact (h : Host) (owner : String) : Except HostError Artifact :=
  match h.currentBytes? owner with
  | none => .error (.notLoaded owner)
  | some bytes => (Artifact.decode bytes).mapError fun e => .malformed owner e.message

/-- How often an owner has been retransformed since it was defined. -/
def retransformCount (h : Host) (owner : String) : Nat :=
  ((Table.get? owner h.loaded).map LoadedArtifact.retransforms).getD 0

/-- The types that the bytes declare; none if they are no artifact. -/
def declaredBy (bytes : Bytes) : List String :=
  match Artifact.decode bytes with
  | .ok a => a.supertypes
  | .error _ => []

/-- The supertypes that what is running declares. -/
def supertypeTable (h : Host) : Supertypes :=
  h.loaded.map fun (owner, loaded) => (owner, declaredBy loaded.current)

/-- The types a loaded owner declares. -/
def supertypes (h : Host) (owner : String) : List String :=
  h.supertypeTable.of owner

/-- From now on, requests to retransform the owner are refused. -/
def refuse (h : Host) (owner reason : String) : Host :=
  { h with refusals := Table.put owner reason h.refusals }

/-- Requests to retransform the owner are no longer refused. -/
def accept (h : Host) (owner : String) : Host :=
  { h with refusals := Table.remove owner h.refusals }

/-- Loads an owner, in place of what was loaded under the name. -/
def load (h : Host) (owner : String) (defined current : Bytes) : Host :=
  { h with loaded := Table.put owner { defined, current, retransforms := 0 } h.loaded }

/-- The bytes a retransformation of the owner starts from. -/
def definitionOf (h : Host) (owner : String) : Except HostError Bytes :=
  match Table.get? owner h.refusals with
  | some reason => .error (.refused owner reason)
  | none =>
    match Table.get? owner h.loaded with
    | none => .error (.notLoaded owner)
    | some loaded => .ok loaded.defined

/-- Replaces what a loaded owner runs, and counts the retransformation. -/
def replace (h : Host) (owner : String) (current : Bytes) : Host :=
  match Table.get? owner h.loaded with
  | none => h
  | some loaded =>
    { h with
      loaded := Table.put owner
        { loaded with current, retransforms := loaded.retransforms + 1 } h.loaded }

end Host

end CallPatch
