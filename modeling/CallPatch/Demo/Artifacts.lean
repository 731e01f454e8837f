import CallPatch.Artifact.Basic
import CallPatch.Store.Names
/-!
# Demonstration artifacts

A caller whose members each put one value into a store and discard the
result, and a store whose `put` and `set` insert it.
-/

namespace CallPatch.Demo

/-- Loads a store, a key and a value, and calls `put` for nothing but its effect. -/
def putAndDiscard : Code :=
  [.load 1, .load 2, .load 3,
    .invoke .interface Store.storeInterface Store.put Store.putDesc, .pop, .ret]

/-- An owner whose members are all `putAndDiscard`. -/
def caller (owner : String) (members : List String) : Artifact where
  name := owner
  supertypes := []
  members := members.map fun name =>
    { name, desc := "(store,key,value)->void", access := .pub, code := putAndDiscard }

/-- The owner of the demonstration store. -/
def hashStoreName : String := "demo/HashStore"

/-- Hands the arguments on to `insert`, whose result is left on the stack. -/
def insertArguments : Code :=
  [.load 0, .load 1, .load 2, .invoke .special hashStoreName "insert" Store.putDesc]

/-- A store that can be extended. -/
def hashStore : Artifact where
  name := hashStoreName
  supertypes := [Store.storeInterface]
  members :=
    [{ name := Store.put, desc := Store.putDesc, access := .pub,
       code := insertArguments ++ [.retValue] },
     { name := Store.set, desc := Store.setDesc, access := .pub,
       code := insertArguments ++ [.pop, .ret] }]

end CallPatch.Demo
