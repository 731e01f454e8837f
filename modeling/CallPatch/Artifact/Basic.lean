import CallPatch.FirstMatch
/-!
# Artifacts — loadable code

An artifact is a named owner with the types it declares and its members, and
a member is a name, a descriptor and code for a stack machine. Stack effects
are written `[before] => [after]`, the top of the stack last. The queries
here are the ones the passes and the agent ask.
-/

namespace CallPatch

/-- Who may call a member. -/
inductive Access where
  | pub
  | priv
  deriving DecidableEq, Repr

/-- How a call finds its target. -/
inductive InvokeKind where
  | static
  | virtual
  | interface
  | special
  deriving DecidableEq, Repr

/-- An instruction of the stack machine. -/
inductive Insn where
  /-- `[] => [local]` -/
  | load (slot : UInt16)
  /-- `[value] => []` -/
  | store (slot : UInt16)
  /-- `[] => [constant]` -/
  | const (value : Int64)
  /-- `[receiver?, arguments] => [result?]` -/
  | invoke (kind : InvokeKind) (owner name desc : String)
  /-- `[value] => [bool]` -/
  | instanceOf (type : String)
  /-- `[value] => [value]` -/
  | checkCast (type : String)
  /-- `[a] => []` -/
  | pop
  /-- `[a, b] => []` -/
  | pop2
  /-- `[a] => [a, a]` -/
  | dup
  /-- `[a, b, c] => [c, a, b, c]` -/
  | dupX2
  /-- `[a, b, c] => [b, c, a, b, c]` -/
  | dup2X1
  | label (id : UInt32)
  /-- `[bool] => []`, jumps when false. -/
  | ifEq (target : UInt32)
  | goto (target : UInt32)
  | ret
  /-- `[value] => []` -/
  | retValue
  deriving DecidableEq, Repr

/-- The code of a member. -/
abbrev Code := List Insn

/-- A member: what it is called, who may call it, and what it does. -/
structure Member where
  name : String
  desc : String
  access : Access
  code : Code
  deriving DecidableEq, Repr

/-- A named owner and its members. -/
structure Artifact where
  name : String
  /-- The interfaces and markers the artifact declares. -/
  supertypes : List String
  members : List Member
  deriving DecidableEq, Repr

namespace Insn

/-- The label id an instruction mentions, as its own or as a jump target. -/
def label? : Insn → Option UInt32
  | .label id => some id
  | .ifEq target => some target
  | .goto target => some target
  | _ => none

/-- A call of the member with that name and descriptor, whoever owns it. -/
def isInvokeOf (name desc : String) : Insn → Bool
  | .invoke _ _ n d => n = name && d = desc
  | _ => false

end Insn

/-- The id after `id`, unless `id` is the last one. -/
def nextId? (id : UInt32) : Option UInt32 :=
  if id.toNat + 1 < UInt32.size then some (id + 1) else none

/-- One past the highest label id mentioned in the code: the first id for code without any,
none when the last id is taken. -/
def Code.nextLabel? (code : Code) : Option UInt32 :=
  match (code.filterMap Insn.label?).max? with
  | none => some 0
  | some highest => nextId? highest

namespace Member

/-- Whether the member is the one with that name and descriptor. -/
def isNamed (name desc : String) (m : Member) : Bool :=
  m.name = name && m.desc = desc

end Member

namespace Artifact

/-- Whether the artifact declares the type itself. -/
def declares (a : Artifact) (type : String) : Bool :=
  a.supertypes.contains type

/-- The first member with that name and descriptor. -/
def member? (a : Artifact) (name desc : String) : Option Member :=
  a.members.find? (Member.isNamed name desc)

/-- Applies `f` to the first member with that name and descriptor. -/
def modifyMember (a : Artifact) (name desc : String) (f : Member → Member) : Artifact :=
  { a with members := modifyFirst (Member.isNamed name desc) f a.members }

/-- How many members carry the name, whatever their descriptors. -/
def countNamed (a : Artifact) (name : String) : Nat :=
  a.members.countP fun m => m.name = name

end Artifact

end CallPatch
