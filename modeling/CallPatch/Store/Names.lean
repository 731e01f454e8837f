/-!
# Stores — the names of their protocol

The member names, descriptors and types by which callers, stores and the
agent know each other. A `put` returns the value it replaces; a `set` returns
nothing. A store with the capability declares the marker and has two more
entry points: a fast path for callers that discard the result of a `put`, and
an alternative slow path for callers that use it.
-/

namespace CallPatch.Store

/-- Stores a value under a key and returns the one it replaces. -/
def put : String := "put"

/-- Stores a value under a key and returns nothing. -/
def set : String := "set"

/-- A `put` whose result is discarded. -/
def fastPath : String := "put$fastPath"

/-- The `put` a store had before it was extended. -/
def keptSlowPath : String := "put$originalSlowPath"

/-- A `put` that does not report its caller. -/
def alternativeSlowPath : String := "put$alternativeSlowPath"

/-- The descriptor of `put`. -/
def putDesc : String := "(key,value)->value"

/-- The descriptor of `set`. -/
def setDesc : String := "(key,value)->void"

/-- The type a store declares once it has the capability. -/
def marker : String := "voidput/NonReturnStore"

/-- The interface of every store. -/
def storeInterface : String := "voidput/Store"

/-- The interface of the stores that threads share. -/
def concurrentStoreInterface : String := "voidput/ConcurrentStore"

/-- The interfaces through which a `put` counts as a store's where nothing else is configured. -/
def defaultInterfaces : List String :=
  [storeInterface, concurrentStoreInterface]

/-! ## The notification call -/

/-- Who is told about a call of `put`. -/
def notifyOwner : String := "voidput/Agent"

/-- The member that is called to tell it. -/
def notifyName : String := "report_call_site"

/-- The descriptor of that member. -/
def notifyDesc : String := "()->bool"

end CallPatch.Store
