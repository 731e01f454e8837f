import CallPatch.Artifact.Document
/-!
# Artifacts — on the wire

An encoded artifact is a frame: four bytes of magic, the length of the body
as a big-endian number of four bytes, then the body, which is the document of
the artifact. Decoding checks the frame in that order and looks at the body
last; the size limit is checked against the announced length, before the
actual one.
-/

namespace CallPatch

/-- Why bytes are no artifact, or an artifact cannot be encoded. -/
inductive FrameError where
  /-- Fewer bytes than the header needs. -/
  | truncated (length : Nat)
  | magicMismatch (expected actual : Nat)
  | tooLarge (length max : Nat)
  /-- The header announces another body length than the one that follows. -/
  | bodyLength (announced actual : Nat)
  /-- The body is no document of an artifact. -/
  | document (reason : String)
  deriving DecidableEq, Repr

namespace FrameError

/-- A word of 32 bits as eight hexadecimal digits. -/
def hexWord (n : Nat) : String :=
  "0x" ++ String.ofList (Numeral.hex 8 n)

/-- The error in words. -/
def message : FrameError → String
  | .truncated length => s!"artifact truncated at {length} bytes"
  | .magicMismatch expected actual =>
    s!"artifact magic mismatch: expected {hexWord expected}, got {hexWord actual}"
  | .tooLarge length max => s!"artifact body too large: {length} > {max}"
  | .bodyLength announced actual =>
    s!"artifact body is {actual} bytes, header says {announced}"
  | .document reason => s!"artifact body: {reason}"

end FrameError

namespace Frame

/-- The four bytes every frame opens with, as a number: `VPA1`. -/
def magic : Nat := 0x56504131

/-- The size limit of a body where none is given: 16 MiB. -/
def defaultMax : Nat := 16 * 1024 * 1024

/-- A number as four bytes, the highest first. -/
def word (n : Nat) : Bytes :=
  [(n / 0x1000000).toUInt8, (n / 0x10000).toUInt8, (n / 0x100).toUInt8, n.toUInt8]

/-- The number four bytes make, the highest first. -/
def ofWord (a b c d : UInt8) : Nat :=
  ((a.toNat * 0x100 + b.toNat) * 0x100 + c.toNat) * 0x100 + d.toNat

/-- A number of 32 bits is made by its own four bytes. -/
theorem exists_word_eq {n : Nat} (h : n < 0x100000000) :
    ∃ a b c d, word n = [a, b, c, d] ∧ ofWord a b c d = n := by
  refine ⟨_, _, _, _, rfl, ?_⟩
  simp only [ofWord, Nat.toUInt8_eq, UInt8.toNat_ofNat']
  omega

/-- A body behind its header, unless the body exceeds the limit or the length field. -/
def wrap (max : Nat) (body : Bytes) : Except FrameError Bytes :=
  if max < body.length ∨ 0xFFFFFFFF < body.length then .error (.tooLarge body.length max)
  else .ok (word magic ++ word body.length ++ body)

/-- The body of a frame, when the header is right about it. -/
def body (max : Nat) (bytes : Bytes) : Except FrameError Bytes :=
  match bytes with
  | m0 :: m1 :: m2 :: m3 :: l0 :: l1 :: l2 :: l3 :: body =>
    let announced := ofWord l0 l1 l2 l3
    if ofWord m0 m1 m2 m3 ≠ magic then .error (.magicMismatch magic (ofWord m0 m1 m2 m3))
    else if max < announced then .error (.tooLarge announced max)
    else if body.length ≠ announced then .error (.bodyLength announced body.length)
    else .ok body
  | _ => .error (.truncated bytes.length)

end Frame

namespace Artifact

/-- The bytes of an artifact whose document keeps to the limit. -/
def encode (a : Artifact) (max : Nat := Frame.defaultMax) : Except FrameError Bytes :=
  Frame.wrap max a.document

/-- The artifact in a frame whose body keeps to the limit. -/
def decode (bytes : Bytes) (max : Nat := Frame.defaultMax) : Except FrameError Artifact := do
  let body ← Frame.body max bytes
  match ofDocument? body with
  | some a => .ok a
  | none => .error (.document "not the document of an artifact")

end Artifact

end CallPatch
