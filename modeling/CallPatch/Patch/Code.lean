import CallPatch.Artifact.Basic
import CallPatch.Store.Names
/-!
# Patching — the code of one member

A `put` on a store is replaced by a test of the receiver for the capability:
with it, the call goes to the fast path if the result is discarded and to the
alternative slow path if it is used; without it, the call is made as it
stood. One forward pass does this. A matched `put` is held back until the
next instruction shows whether its result is discarded: a `pop` directly
behind it is taken into the replacement.

Each replacement takes two fresh label ids, counted up from one past the
highest id the code mentions. The pass fails when the ids run out.
-/

namespace CallPatch

/-- Which calls of `put` are calls on a store. -/
structure Scope where
  /-- The types that count when the call goes through an interface. -/
  interfaces : List String
  /-- Whether a concrete type has the capability, itself or by inheritance. -/
  capable : String → Bool

/-- A `put` on a store: how it was called, and on which type. -/
structure StorePut where
  kind : InvokeKind
  owner : String
  deriving DecidableEq, Repr

namespace Scope

/-- Whether a call of that kind on that type is a call on a store. -/
def covers (scope : Scope) (kind : InvokeKind) (owner : String) : Bool :=
  match kind with
  | .interface => scope.interfaces.contains owner
  | .virtual => scope.capable owner
  | .static => false
  | .special => false

/-- The `put` on a store that the instruction is, if it is one. -/
def storePut? (scope : Scope) : Insn → Option StorePut
  | .invoke kind owner name desc =>
    if name = Store.put ∧ desc = Store.putDesc ∧ scope.covers kind owner then some ⟨kind, owner⟩
    else none
  | _ => none

end Scope

namespace StorePut

/-- The call as it stood. -/
def call (p : StorePut) : Insn :=
  .invoke p.kind p.owner Store.put Store.putDesc

/-- The call made on a receiver with the capability. -/
def capableCall (discarded : Bool) : Insn :=
  if discarded then .invoke .interface Store.marker Store.fastPath Store.setDesc
  else .invoke .interface Store.marker Store.alternativeSlowPath Store.putDesc

/-- What replaces the call, on a stack that ends in receiver, key and value. The receiver is
brought on top to be tested, and put back below its arguments on either branch. -/
def replacement (p : StorePut) (discarded : Bool) (fallback done : UInt32) : Code :=
  [.dup2X1, .pop2, .dup, .instanceOf Store.marker, .ifEq fallback,
    .checkCast Store.marker, .dupX2, .pop, capableCall discarded, .goto done,
    .label fallback, .dupX2, .pop, p.call]
  ++ (if discarded then [.pop] else []) ++ [.label done]

end StorePut

namespace Code

/-- A pass under way. -/
structure Pass where
  /-- What is written so far, the last instruction first. -/
  written : Code
  /-- The `put` held back until its use is known. -/
  held : Option StorePut
  /-- The next fresh label id, if any is left. -/
  fresh : Option UInt32
  /-- How many calls have been replaced. -/
  sites : Nat

namespace Pass

/-- A pass before its first instruction. -/
def start (code : Code) : Pass :=
  { written := [], held := none, fresh := code.nextLabel?, sites := 0 }

/-- Writes the replacement of the call held back, if one is. Fails without two label ids. -/
def release (discarded : Bool) (pass : Pass) : Option Pass :=
  match pass.held with
  | none => some pass
  | some p => do
    let fallback ← pass.fresh
    let done ← nextId? fallback
    return {
      written := (p.replacement discarded fallback done).reverse ++ pass.written
      held := none
      fresh := nextId? done
      sites := pass.sites + 1 }

/-- Takes an instruction that no held call claims. -/
def take (scope : Scope) (insn : Insn) (pass : Pass) : Pass :=
  match scope.storePut? insn with
  | some p => { pass with held := some p }
  | none => { pass with written := insn :: pass.written }

/-- Takes the next instruction of the code. -/
def step (scope : Scope) (pass : Pass) (insn : Insn) : Option Pass :=
  if insn = .pop ∧ pass.held.isSome then pass.release true
  else (pass.release false).map (take scope insn)

end Pass

/-- The patched code, with the number of calls replaced. None when the label ids run out. -/
def patch? (scope : Scope) (code : Code) : Option (Code × Nat) := do
  let pass ← code.foldlM (Pass.step scope) (Pass.start code)
  let pass ← pass.release false
  return (pass.written.reverse, pass.sites)

end Code

end CallPatch
