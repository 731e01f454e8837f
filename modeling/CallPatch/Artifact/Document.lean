import CallPatch.Artifact.Basic
import CallPatch.Json.Characters
import CallPatch.Json.Printer
import CallPatch.Json.Reader
/-!
# Artifacts — as a document

The JSON form of an artifact. Writing names the fields in a fixed order.
Reading is more lenient: fields may come in any order and unknown ones are
passed over, but every known field of an artifact or a member has to be there
exactly once. Inside an instruction a repeated field is allowed and the last
one counts, though each has to be readable. A simple instruction is its name
alone.
-/

namespace CallPatch

namespace Access

/-- The name of an access in a document. -/
def name : Access → String
  | .pub => "public"
  | .priv => "private"

/-- The access of that name. -/
def ofName? : String → Option Access
  | "public" => some .pub
  | "private" => some .priv
  | _ => none

/-- Reads an access. -/
def reader : Json.Reader Access :=
  .alternative ofName? fun _ => none

end Access

namespace InvokeKind

/-- The name of a kind of call in a document. -/
def name : InvokeKind → String
  | .static => "static"
  | .virtual => "virtual"
  | .interface => "interface"
  | .special => "special"

/-- The kind of call of that name. -/
def ofName? : String → Option InvokeKind
  | "static" => some .static
  | "virtual" => some .virtual
  | "interface" => some .interface
  | "special" => some .special
  | _ => none

/-- Reads a kind of call. -/
def reader : Json.Reader InvokeKind :=
  .alternative ofName? fun _ => none

end InvokeKind

namespace Insn

/-- An instruction with operands: an object with the name of the instruction as its only key. -/
def withOperands (name : String) (operands : List (String × Json)) : Json :=
  .object [(name, .object operands)]

/-- The document of an instruction. -/
def toJson : Insn → Json
  | .load slot => withOperands "load" [("slot", .ofNat slot.toNat)]
  | .store slot => withOperands "store" [("slot", .ofNat slot.toNat)]
  | .const value => withOperands "const" [("value", .number value.toInt)]
  | .invoke kind owner name desc =>
    withOperands "invoke" [("kind", .string kind.name), ("owner", .string owner),
      ("name", .string name), ("desc", .string desc)]
  | .instanceOf type => withOperands "instance_of" [("ty", .string type)]
  | .checkCast type => withOperands "check_cast" [("ty", .string type)]
  | .pop => .string "pop"
  | .pop2 => .string "pop2"
  | .dup => .string "dup"
  | .dupX2 => .string "dup_x2"
  | .dup2X1 => .string "dup2_x1"
  | .label id => withOperands "label" [("id", .ofNat id.toNat)]
  | .ifEq target => withOperands "if_eq" [("target", .ofNat target.toNat)]
  | .goto target => withOperands "goto" [("target", .ofNat target.toNat)]
  | .ret => .string "return"
  | .retValue => .string "return_value"

/-- The simple instruction of that name. -/
def ofName? : String → Option Insn
  | "pop" => some .pop
  | "pop2" => some .pop2
  | "dup" => some .dup
  | "dup_x2" => some .dupX2
  | "dup2_x1" => some .dup2X1
  | "return" => some .ret
  | "return_value" => some .retValue
  | _ => none

/-- Reads a local variable slot. -/
def slot : Json.Reader UInt16 :=
  (Json.Reader.integer 0 0xFFFF).map fun i => UInt16.ofNat i.toNat

/-- Reads a label id. -/
def id : Json.Reader UInt32 :=
  (Json.Reader.integer 0 0xFFFFFFFF).map fun i => UInt32.ofNat i.toNat

/-- Reads a constant. -/
def constant : Json.Reader Int64 :=
  (Json.Reader.integer (-0x8000000000000000) 0x7FFFFFFFFFFFFFFF).map Int64.ofInt

/-- The fields of a call that have been read. -/
structure CallFields where
  kind : Option InvokeKind
  owner : Option String
  name : Option String
  desc : Option String

namespace CallFields

/-- No field. -/
def none : CallFields :=
  { kind := .none, owner := .none, name := .none, desc := .none }

/-- The reader of the field of that name. -/
def field (key : String) (c : CallFields) : Option (Json.Reader CallFields) :=
  match key with
  | "kind" => some (InvokeKind.reader.map fun v => { c with kind := some v })
  | "owner" => some (Json.Reader.text.map fun v => { c with owner := some v })
  | "name" => some (Json.Reader.text.map fun v => { c with name := some v })
  | "desc" => some (Json.Reader.text.map fun v => { c with desc := some v })
  | _ => .none

/-- The call, when no field is missing. -/
def insn? (c : CallFields) : Option Insn := do
  return .invoke (← c.kind) (← c.owner) (← c.name) (← c.desc)

end CallFields

/-- The reader of the operands of the instruction of that name. -/
def operands (name : String) : Option (Json.Reader Insn) :=
  match name with
  | "load" => some ((slot.field "slot").map .load)
  | "store" => some ((slot.field "slot").map .store)
  | "const" => some ((constant.field "value").map .const)
  | "invoke" => some ((Json.Reader.object .none CallFields.field).refine CallFields.insn?)
  | "instance_of" => some ((Json.Reader.text.field "ty").map .instanceOf)
  | "check_cast" => some ((Json.Reader.text.field "ty").map .checkCast)
  | "label" => some ((id.field "id").map .label)
  | "if_eq" => some ((id.field "target").map .ifEq)
  | "goto" => some ((id.field "target").map .goto)
  | _ => none

/-- Reads an instruction: a simple one by its name, another as an object with one key. -/
def reader : Json.Reader Insn :=
  .alternative ofName? operands

end Insn

namespace Member

/-- The document of a member. -/
def toJson (m : Member) : Json :=
  .object [("name", .string m.name), ("desc", .string m.desc), ("access", .string m.access.name),
    ("code", .array (m.code.map Insn.toJson))]

/-- The fields of a member that have been read. -/
structure Fields where
  name : Option String
  desc : Option String
  access : Option Access
  code : Option (List Insn)

namespace Fields

/-- No field. -/
def none : Fields :=
  { name := .none, desc := .none, access := .none, code := .none }

/-- The reader of the field of that name. -/
def field (key : String) (m : Fields) : Option (Json.Reader Fields) :=
  match key with
  | "name" => some ((Json.Reader.text.once m.name).map fun v => { m with name := v })
  | "desc" => some ((Json.Reader.text.once m.desc).map fun v => { m with desc := v })
  | "access" => some ((Access.reader.once m.access).map fun v => { m with access := v })
  | "code" => some ((Insn.reader.list.once m.code).map fun v => { m with code := v })
  | _ => .none

/-- The member, when no field is missing. -/
def member? (m : Fields) : Option Member := do
  return { name := ← m.name, desc := ← m.desc, access := ← m.access, code := ← m.code }

end Fields

/-- Reads a member. -/
def reader : Json.Reader Member :=
  (Json.Reader.object .none Fields.field).refine Fields.member?

end Member

namespace Artifact

/-- The document of an artifact, before it is written out. -/
def toJson (a : Artifact) : Json :=
  .object [("name", .string a.name), ("supertypes", .array (a.supertypes.map Json.string)),
    ("members", .array (a.members.map Member.toJson))]

/-- The fields of an artifact that have been read. -/
structure Fields where
  name : Option String
  supertypes : Option (List String)
  members : Option (List Member)

namespace Fields

/-- No field. -/
def none : Fields :=
  { name := .none, supertypes := .none, members := .none }

/-- The reader of the field of that name. -/
def field (key : String) (a : Fields) : Option (Json.Reader Fields) :=
  match key with
  | "name" => some ((Json.Reader.text.once a.name).map fun v => { a with name := v })
  | "supertypes" =>
    some ((Json.Reader.text.list.once a.supertypes).map fun v => { a with supertypes := v })
  | "members" =>
    some ((Member.reader.list.once a.members).map fun v => { a with members := v })
  | _ => .none

/-- The artifact, when no field is missing. -/
def artifact? (a : Fields) : Option Artifact := do
  return { name := ← a.name, supertypes := ← a.supertypes, members := ← a.members }

end Fields

/-- Reads an artifact. -/
def reader : Json.Reader Artifact :=
  (Json.Reader.object .none Fields.field).refine Fields.artifact?

/-- The document of an artifact, as bytes. -/
def document (a : Artifact) : Bytes :=
  Utf8.encode (Json.render a.toJson)

/-- The artifact whose document opens the bytes. What follows the document is not looked at. -/
def ofDocument? (body : Bytes) : Option Artifact :=
  (reader.run (Json.events (Json.characters body))).map Prod.fst

end Artifact

end CallPatch
