import CallPatch.Artifact.Frame
import CallPatch.Proofs.Json.Reads
/-!
# Artifacts — written and read back

Every artifact is read back from its document: each part is read as what it
was written for (`Artifact.reads_toJson`), whatever its texts, and every
number keeps to the width of its type. With the frame around it an artifact
is read back from its bytes wherever the limit admits the body, so that no
two artifacts have bytes in common, and what is read from any bytes is
written in one way only (`round_trip`).
-/

namespace CallPatch

open Json (Fitting walk fitting_walk_array fitting_walk_number fitting_walk_object
  fitting_walk_string)
open Json.Reader (ReadsFields reads_content reads_field reads_integer reads_list reads_object
  reads_plain reads_text)

/-! ## Instructions -/

theorem Access.reads_name (a : Access) : Access.reader.Reads (.string a.name) a :=
  reads_plain (by cases a <;> rfl)

theorem InvokeKind.reads_name (k : InvokeKind) : InvokeKind.reader.Reads (.string k.name) k :=
  reads_plain (by cases k <;> rfl)

namespace Insn

/-- A slot is read back in 16 bits. -/
theorem reads_slot (s : UInt16) : slot.Reads (.ofNat s.toNat) s := by
  have hlt := s.toNat_lt
  have hread : slot.Reads (.ofNat s.toNat) (UInt16.ofNat (s.toNat : Int).toNat) :=
    (reads_integer (by omega) (by omega)).map _
  simpa using hread

/-- A label id in 32. -/
theorem reads_id (l : UInt32) : id.Reads (.ofNat l.toNat) l := by
  have hlt := l.toNat_lt
  have hread : id.Reads (.ofNat l.toNat) (UInt32.ofNat (l.toNat : Int).toNat) :=
    (reads_integer (by omega) (by omega)).map _
  simpa using hread

/-- And a constant in 64, with its sign. -/
theorem reads_constant (c : Int64) : constant.Reads (.number c.toInt) c := by
  have hlow := c.le_toInt
  have hhigh := c.toInt_lt
  have hread : constant.Reads (.number c.toInt) (Int64.ofInt c.toInt) :=
    (reads_integer (by omega) (by omega)).map _
  simpa using hread

/-- A call is read back by its four fields. -/
theorem reads_invoke (kind : InvokeKind) (owner name desc : String) :
    (Json.Reader.object .none CallFields.field).Reads
      (.object [("kind", .string kind.name), ("owner", .string owner), ("name", .string name),
        ("desc", .string desc)])
      { kind := some kind, owner := some owner, name := some name, desc := some desc } :=
  reads_object (.cons rfl (kind.reads_name.map _) (.cons rfl ((reads_text owner).map _)
    (.cons rfl ((reads_text name).map _) (.cons rfl ((reads_text desc).map _) (.nil _)))))

/-- **Every instruction is read back.** -/
theorem reads_toJson (i : Insn) : reader.Reads i.toJson i := by
  cases i with
  | load s => exact reads_content rfl rfl ((reads_field "slot" (reads_slot s)).map _)
  | store s => exact reads_content rfl rfl ((reads_field "slot" (reads_slot s)).map _)
  | const c => exact reads_content rfl rfl ((reads_field "value" (reads_constant c)).map _)
  | invoke kind owner name desc =>
    exact reads_content rfl rfl ((reads_invoke kind owner name desc).refine rfl)
  | instanceOf type => exact reads_content rfl rfl ((reads_field "ty" (reads_text type)).map _)
  | checkCast type => exact reads_content rfl rfl ((reads_field "ty" (reads_text type)).map _)
  | label l => exact reads_content rfl rfl ((reads_field "id" (reads_id l)).map _)
  | ifEq l => exact reads_content rfl rfl ((reads_field "target" (reads_id l)).map _)
  | goto l => exact reads_content rfl rfl ((reads_field "target" (reads_id l)).map _)
  | pop | pop2 | dup | dupX2 | dup2X1 | ret | retValue => exact reads_plain rfl

/-- An instruction fits if its operands do. -/
theorem fitting_withOperands {name : String} {operands : List (String × Json)}
    (h : ∀ p ∈ operands, Fitting (walk p.2)) : Fitting (walk (withOperands name operands)) :=
  fitting_walk_object fun p hp => by
    obtain rfl := List.mem_singleton.1 hp
    exact fitting_walk_object h

theorem fitting_withOperand {name key : String} {v : Json} (h : Fitting (walk v)) :
    Fitting (walk (withOperands name [(key, v)])) :=
  fitting_withOperands fun p hp => by
    obtain rfl := List.mem_singleton.1 hp
    exact h

/-- A number of 32 bits fits. -/
theorem fitting_ofNat {n : Nat} (h : n < 0x100000000) : Fitting (walk (.ofNat n)) :=
  fitting_walk_number ⟨by omega, by omega⟩

/-- The operands keep to their types. -/
theorem fitting_toJson (i : Insn) : Fitting (walk i.toJson) := by
  cases i with
  | load s | store s =>
    have hlt := s.toNat_lt
    exact fitting_withOperand (fitting_ofNat (by omega))
  | const c =>
    have hlow := c.le_toInt
    have hhigh := c.toInt_lt
    exact fitting_withOperand (fitting_walk_number ⟨by omega, by omega⟩)
  | invoke kind owner name desc =>
    refine fitting_withOperands fun p hp => ?_
    simp only [List.mem_cons, List.not_mem_nil, or_false] at hp
    rcases hp with rfl | rfl | rfl | rfl <;> exact fitting_walk_string _
  | instanceOf type | checkCast type => exact fitting_withOperand (fitting_walk_string type)
  | label l | ifEq l | goto l => exact fitting_withOperand (fitting_ofNat l.toNat_lt)
  | pop | pop2 | dup | dupX2 | dup2X1 | ret | retValue => exact fitting_walk_string _

end Insn

/-! ## Members and artifacts -/

/-- **A member is read back**, with every instruction of its code. -/
theorem Member.reads_toJson (m : Member) : Member.reader.Reads m.toJson m := by
  have hcode := reads_list fun i (_ : i ∈ m.code) => i.reads_toJson
  have hfields : ReadsFields Fields.field .none
      [("name", .string m.name), ("desc", .string m.desc), ("access", .string m.access.name),
        ("code", .array (m.code.map Insn.toJson))]
      { name := some m.name, desc := some m.desc, access := some m.access, code := some m.code } :=
    .cons rfl ((reads_text m.name).once.map _) (.cons rfl ((reads_text m.desc).once.map _)
      (.cons rfl (m.access.reads_name.once.map _) (.cons rfl (hcode.once.map _) (.nil _))))
  exact (reads_object hfields).refine rfl

/-- Its numbers are all narrow enough to be read. -/
theorem Member.fitting_toJson (m : Member) : Fitting (walk m.toJson) := by
  refine fitting_walk_object fun p hp => ?_
  simp only [List.mem_cons, List.not_mem_nil, or_false] at hp
  rcases hp with rfl | rfl | rfl | rfl
  case inr.inr.inr =>
    refine fitting_walk_array fun v hv => ?_
    obtain ⟨i, -, rfl⟩ := List.mem_map.1 hv
    exact i.fitting_toJson
  all_goals exact fitting_walk_string _

namespace Artifact

/-- **Every artifact is read back**, whatever its texts and its parts. -/
theorem reads_toJson (a : Artifact) : reader.Reads a.toJson a := by
  have hsupertypes := reads_list fun s (_ : s ∈ a.supertypes) => reads_text s
  have hmembers := reads_list fun m (_ : m ∈ a.members) => m.reads_toJson
  have hfields : ReadsFields Fields.field .none
      [("name", .string a.name), ("supertypes", .array (a.supertypes.map Json.string)),
        ("members", .array (a.members.map Member.toJson))]
      { name := some a.name, supertypes := some a.supertypes, members := some a.members } :=
    .cons rfl ((reads_text a.name).once.map _) (.cons rfl (hsupertypes.once.map _)
      (.cons rfl (hmembers.once.map _) (.nil _)))
  exact (reads_object hfields).refine rfl

/-- So are those of the whole artifact. -/
theorem fitting_toJson (a : Artifact) : Fitting (walk a.toJson) := by
  refine fitting_walk_object fun p hp => ?_
  simp only [List.mem_cons, List.not_mem_nil, or_false] at hp
  rcases hp with rfl | rfl | rfl
  · exact fitting_walk_string _
  · refine fitting_walk_array fun v hv => ?_
    obtain ⟨s, -, rfl⟩ := List.mem_map.1 hv
    exact fitting_walk_string s
  · refine fitting_walk_array fun v hv => ?_
    obtain ⟨m, -, rfl⟩ := List.mem_map.1 hv
    exact m.fitting_toJson

/-- An artifact is read back from its document. -/
theorem ofDocument?_document (a : Artifact) : ofDocument? a.document = some a := by
  have hread := a.reads_toJson []
  rw [List.append_nil] at hread
  rw [ofDocument?, document, Json.events_render a.fitting_toJson, hread]
  rfl

end Artifact

/-! ## Frames -/

/-- The header in front of a body is right about it. -/
theorem Frame.body_wrap {max : Nat} {body bytes : Bytes} (h : wrap max body = .ok bytes)
    {max' : Nat} (hmax : body.length ≤ max') : Frame.body max' bytes = .ok body := by
  unfold wrap at h
  split at h
  · cases h
  · cases h
    obtain ⟨m0, m1, m2, m3, hmagic, hofMagic⟩ := exists_word_eq (show magic < 0x100000000 by decide)
    obtain ⟨l0, l1, l2, l3, hlength, hofLength⟩ :=
      exists_word_eq (show body.length < 0x100000000 by omega)
    rw [hmagic, hlength]
    simp only [Frame.body, List.cons_append, List.nil_append, hofMagic, hofLength, ne_eq,
      not_true_eq_false, if_false]
    rw [if_neg (by omega)]

/-- What is framed stands behind the magic and its length. -/
theorem Frame.wrap_eq {max : Nat} {body bytes : Bytes} (h : wrap max body = .ok bytes) :
    bytes = word magic ++ word body.length ++ body := by
  unfold wrap at h
  split at h
  · cases h
  · cases h
    rfl

/-- A frame is eight bytes longer than what it holds. -/
theorem Frame.length_wrap {max : Nat} {body bytes : Bytes} (h : wrap max body = .ok bytes) :
    bytes.length = 8 + body.length := by
  rw [wrap_eq h]
  simp [word]
  omega

namespace Artifact

/-- An artifact is read back from its bytes by whoever admits its document. -/
theorem decode_of_encode {a : Artifact} {max : Nat} {bytes : Bytes} (h : a.encode max = .ok bytes)
    {max' : Nat} (hmax : a.document.length ≤ max') : decode bytes max' = .ok a := by
  have hbody := Frame.body_wrap h hmax
  simp [decode, hbody, bind, Except.bind, ofDocument?_document]

theorem length_le_of_encode {a : Artifact} {max : Nat} {bytes : Bytes}
    (h : a.encode max = .ok bytes) : a.document.length ≤ max := by
  unfold encode Frame.wrap at h
  split at h
  · cases h
  · omega

/-- What is written within a limit is read within it. -/
theorem decode_encode {a : Artifact} {max : Nat} {bytes : Bytes} (h : a.encode max = .ok bytes) :
    decode bytes max = .ok a :=
  decode_of_encode h (length_le_of_encode h)

/-- Encoding fails only by its length. -/
theorem encode_of_length_le {a : Artifact} {max : Nat} (hmax : a.document.length ≤ max)
    (hword : a.document.length ≤ 0xFFFFFFFF) : ∃ bytes, a.encode max = .ok bytes :=
  ⟨_, if_neg (by omega)⟩

/-- The default limit is within the reach of the length field. -/
theorem encode_of_length_le_default {a : Artifact} (h : a.document.length ≤ Frame.defaultMax) :
    ∃ bytes, a.encode = .ok bytes := by
  have hword : Frame.defaultMax ≤ 0xFFFFFFFF := by decide
  exact encode_of_length_le h (Nat.le_trans h hword)

/-- **What is written is read back.** The bytes of an artifact give it back to whoever admits their
body, so no two artifacts have bytes in common. An artifact read from any bytes, however they
spell it, is written again unless its document exceeds the limit or the length field, and those
bytes give it back and are written for it once more. -/
theorem round_trip :
    (∀ (a : Artifact) (max n : Nat) (bytes : Bytes),
      a.encode max = .ok bytes → bytes.length = 8 + n →
        ∀ max', n ≤ max' → decode bytes max' = .ok a) ∧
    (∀ (a b : Artifact) (max max' : Nat) (bytes : Bytes),
      a.encode max = .ok bytes → b.encode max' = .ok bytes → a = b) ∧
    (∀ (bytes : Bytes) (max : Nat) (a : Artifact), decode bytes max = .ok a → ∀ max',
      ((max' < a.document.length ∨ 0xFFFFFFFF < a.document.length) ∧
        a.encode max' = .error (.tooLarge a.document.length max')) ∨
      ∃ bytes', a.encode max' = .ok bytes' ∧ decode bytes' max' = .ok a ∧
        (decode bytes' max' >>= fun b => b.encode max') = .ok bytes') := by
  refine ⟨?read, ?injective, ?again⟩
  case read =>
    intro a max n bytes h hlength max' hmax
    have hbody := Frame.length_wrap h
    exact decode_of_encode h (by omega)
  case injective =>
    intro a b max max' bytes ha hb
    -- A limit that admits both documents.
    have hreadA := decode_of_encode ha (Nat.le_max_left a.document.length b.document.length)
    have hreadB := decode_of_encode hb (Nat.le_max_right a.document.length b.document.length)
    exact Except.ok.inj (hreadA.symm.trans hreadB)
  case again =>
    intro bytes max a _ max'
    by_cases hlarge : max' < a.document.length ∨ 0xFFFFFFFF < a.document.length
    · exact .inl ⟨hlarge, if_pos hlarge⟩
    · have hmax : a.document.length ≤ max' := by omega
      obtain ⟨bytes', h⟩ := encode_of_length_le hmax (by omega)
      have hread := decode_of_encode h hmax
      exact .inr ⟨bytes', h, hread, by rw [hread]; exact h⟩

namespace Unusual

/-- Texts that need escapes, and operands at the ends of their types. -/
def artifact : Artifact where
  name := "quote \" slash \\ bell \x07 delete \x7f accent é"
  supertypes := []
  members := [{ name := "m", desc := "()V", access := .priv
                code := [.load 65535, .const (-9223372036854775808), .label 4294967295,
                  .invoke .special "" "\n" "😀", .dup2X1, .ret] }]

theorem round_trip_artifact :
    ∃ bytes n, artifact.encode 400 = .ok bytes ∧ bytes.length = 8 + n ∧ n ≤ 400 ∧
      decode bytes 400 = .ok artifact ∧
      ∃ bytes', artifact.encode 350 = .ok bytes' ∧ bytes' = bytes := by
  have hfits : artifact.document.length ≤ 350 := by decide +kernel
  obtain ⟨bytes, h⟩ := encode_of_length_le (show artifact.document.length ≤ 400 by omega) (by omega)
  have hlength := Frame.length_wrap h
  have hread := round_trip.1 artifact 400 _ bytes h hlength 400 (by omega)
  rcases round_trip.2.2 bytes 400 artifact hread 350 with ⟨hlarge, -⟩ | ⟨bytes', h', -⟩
  · omega
  · have hsame : bytes' = bytes := (Frame.wrap_eq h').trans (Frame.wrap_eq h).symm
    exact ⟨bytes, _, h, hlength, by omega, hread, bytes', h', hsame⟩

end Unusual

end Artifact

end CallPatch
