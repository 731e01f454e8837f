import CallPatch.EntryKey
import CallPatch.Store.Names
/-!
# Call sites — who called `put`

A call site is the operation that was called and the frame it was called
from. A host reports it as a stack, innermost frame first: the capture of the
stack, the notification, the instrumented operation, and the code that called
it.
-/

namespace CallPatch

/-- One frame of a stack. -/
structure StackFrame where
  owner : String
  member : String
  /-- A native frame has no artifact that could be patched. -/
  native : Bool
  deriving DecidableEq, Repr

/-- An operation and the frame that called it. -/
structure CallSite where
  operation : String
  caller : StackFrame
  deriving DecidableEq, Repr

/-- Why a stack or a call site is no call of `put`. -/
inductive SiteDefect where
  /-- The stack ends before the caller. -/
  | shallow (frames : Nat)
  /-- The frame of the operation is another member. -/
  | otherFrame (owner member : String)
  | otherOperation (operation : String)
  deriving DecidableEq, Repr

namespace CallSite

/-- How many frames a stack needs. -/
def requiredDepth : Nat := 4

/-- The frame of the operation, counted from the innermost one. -/
def operationFrame : Nat := 2

/-- A call of `put` from that frame. -/
def ofCaller (caller : StackFrame) : CallSite :=
  { operation := Store.put, caller }

/-- The call site a stack shows. -/
def ofStack : List StackFrame → Except SiteDefect CallSite
  | _capture :: _notification :: operation :: caller :: _ =>
    if operation.member = Store.put then .ok { operation := operation.member, caller }
    else .error (.otherFrame operation.owner operation.member)
  | frames => .error (.shallow frames.length)

/-- The entry a call site is reported as. -/
def key (site : CallSite) : EntryKey :=
  { owner := site.caller.owner, member := site.caller.member }

/-- What speaks against reporting the site, if anything does. -/
def defect? (site : CallSite) : Option SiteDefect :=
  if site.operation = Store.put then none else some (.otherOperation site.operation)

end CallSite

namespace SiteDefect

/-- The reason in words. -/
def message : SiteDefect → String
  | .shallow frames => s!"stack has {frames} frames, need at least {CallSite.requiredDepth}"
  | .otherFrame owner member =>
    s!"frame {CallSite.operationFrame} is {joinKey owner member}, expected {Store.put}"
  | .otherOperation operation => s!"operation is {operation}, expected {Store.put}"

end SiteDefect

end CallPatch
