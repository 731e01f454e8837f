import CallPatch.Proofs.Artifact.RoundTrip
/-!
# Frames — what is taken, and what is not

The header of a frame is looked at in a fixed order, and the first fault decides
(`Frame.body_of_le`): too few bytes for a header, another magic than `VPA1`, an
announced length above the limit, another length than the announced one. A frame
without a fault is sound, and only then is its body read, all of it and nothing
else (`Artifact.fault_iff`, `Artifact.decode_of_sound`). Bodies that the length
field cannot tell are not written, so what is written announces the length of
its body (`Frame.sound_of_wrap`).

The announced length says where a frame ends. Of two frames that are decoded
neither begins the other (`Artifact.eq_of_opens`): what is written can be
neither cut short nor continued.
-/

namespace CallPatch

namespace Frame

variable {bytes bytes' body : Bytes} {max max' : Nat}

/-- The number that bytes make, the highest first. -/
def bigEndian (bytes : Bytes) : Nat :=
  bytes.foldl (fun n b => n * 0x100 + b.toNat) 0

/-- What every frame opens with. -/
def tag : Bytes :=
  Utf8.ofString "VPA1"

/-- The length that the header announces. -/
def announced (bytes : Bytes) : Nat :=
  bigEndian ((bytes.drop 4).take 4)

/-- What follows the header. -/
def behind (bytes : Bytes) : Bytes :=
  bytes.drop 8

/-- There is a header, and it opens with the tag. -/
def Tagged (bytes : Bytes) : Prop :=
  8 ≤ bytes.length ∧ bytes.take 4 = tag

instance (bytes : Bytes) : Decidable (Tagged bytes) :=
  inferInstanceAs (Decidable (_ ∧ _))

/-! ## Headers -/

theorem bigEndian_four (a b c d : UInt8) : bigEndian [a, b, c, d] = ofWord a b c d := by
  simp [bigEndian, ofWord]

theorem bigEndian_tag : bigEndian tag = magic := by
  decide

/-- The magic is made by the tag alone. -/
theorem ofWord_eq_magic_iff {a b c d : UInt8} : ofWord a b c d = magic ↔ [a, b, c, d] = tag := by
  have htag : tag = [0x56, 0x50, 0x41, 0x31] := by decide
  constructor
  · intro h
    have ha := a.toNat_lt
    have hb := b.toNat_lt
    have hc := c.toNat_lt
    have hd := d.toNat_lt
    simp only [ofWord, magic] at h
    rw [htag]
    have ha' : a = 0x56 := UInt8.toNat_inj.1 (by omega : a.toNat = 0x56)
    have hb' : b = 0x50 := UInt8.toNat_inj.1 (by omega : b.toNat = 0x50)
    have hc' : c = 0x41 := UInt8.toNat_inj.1 (by omega : c.toNat = 0x41)
    have hd' : d = 0x31 := UInt8.toNat_inj.1 (by omega : d.toNat = 0x31)
    rw [ha', hb', hc', hd']
  · intro h
    rw [← bigEndian_four, h, bigEndian_tag]

theorem body_of_lt (h : bytes.length < 8) (max : Nat) :
    Frame.body max bytes = .error (.truncated bytes.length) := by
  unfold Frame.body
  split
  · simp only [List.length_cons] at h
    omega
  · rfl

/-- **The header decides in a fixed order.** -/
theorem body_of_le (h : 8 ≤ bytes.length) (max : Nat) :
    Frame.body max bytes =
      if bytes.take 4 ≠ tag then .error (.magicMismatch (bigEndian tag) (bigEndian (bytes.take 4)))
      else if max < announced bytes then .error (.tooLarge (announced bytes) max)
      else if (behind bytes).length ≠ announced bytes then
        .error (.bodyLength (announced bytes) (behind bytes).length)
      else .ok (behind bytes) := by
  match bytes, h with
  | m0 :: m1 :: m2 :: m3 :: l0 :: l1 :: l2 :: l3 :: rest, _ =>
    have hannounced : announced (m0 :: m1 :: m2 :: m3 :: l0 :: l1 :: l2 :: l3 :: rest) =
        ofWord l0 l1 l2 l3 := bigEndian_four l0 l1 l2 l3
    have htaken : (m0 :: m1 :: m2 :: m3 :: l0 :: l1 :: l2 :: l3 :: rest).take 4 =
        [m0, m1, m2, m3] := rfl
    have hbehind : behind (m0 :: m1 :: m2 :: m3 :: l0 :: l1 :: l2 :: l3 :: rest) = rest := rfl
    rw [hannounced, htaken, hbehind, bigEndian_four, bigEndian_tag]
    simp only [Frame.body, ne_eq, ofWord_eq_magic_iff]

/-- The first fault of a frame under a limit, with what it is told by. -/
inductive Fault (bytes : Bytes) (max : Nat) : FrameError → Prop where
  | truncated (short : bytes.length < 8) : Fault bytes max (.truncated bytes.length)
  | magicMismatch (header : 8 ≤ bytes.length) (foreign : bytes.take 4 ≠ tag) :
      Fault bytes max (.magicMismatch (bigEndian tag) (bigEndian (bytes.take 4)))
  /-- Whatever the length of what follows. -/
  | tooLarge (tagged : Tagged bytes) (large : max < announced bytes) :
      Fault bytes max (.tooLarge (announced bytes) max)
  | bodyLength (tagged : Tagged bytes) (admitted : announced bytes ≤ max)
      (differs : announced bytes ≠ (behind bytes).length) :
      Fault bytes max (.bodyLength (announced bytes) (behind bytes).length)

/-- The header is right about what follows it, and the limit admits that. -/
structure Sound (bytes : Bytes) (max : Nat) : Prop where
  tagged : Tagged bytes
  admitted : announced bytes ≤ max
  length : announced bytes = (behind bytes).length

theorem body_of_fault {e : FrameError} (h : Fault bytes max e) :
    Frame.body max bytes = .error e := by
  cases h with
  | truncated short => exact body_of_lt short max
  | magicMismatch header foreign => rw [body_of_le header, if_pos foreign]
  | tooLarge tagged large =>
    rw [body_of_le tagged.1, if_neg (not_not_intro tagged.2), if_pos large]
  | bodyLength tagged admitted differs =>
    rw [body_of_le tagged.1, if_neg (not_not_intro tagged.2), if_neg (Nat.not_lt.2 admitted),
      if_pos (Ne.symm differs)]

theorem body_of_sound (h : Sound bytes max) : Frame.body max bytes = .ok (behind bytes) := by
  rw [body_of_le h.tagged.1, if_neg (not_not_intro h.tagged.2), if_neg (Nat.not_lt.2 h.admitted),
    if_neg (not_not_intro h.length.symm)]

/-- A frame is sound or it has a fault. -/
theorem sound_or_fault (bytes : Bytes) (max : Nat) :
    Sound bytes max ∨ ∃ e, Fault bytes max e := by
  by_cases hheader : 8 ≤ bytes.length
  case neg => exact .inr ⟨_, .truncated (by omega)⟩
  by_cases htag : bytes.take 4 = tag
  case neg => exact .inr ⟨_, .magicMismatch hheader htag⟩
  by_cases hadmitted : announced bytes ≤ max
  case neg => exact .inr ⟨_, .tooLarge ⟨hheader, htag⟩ (by omega)⟩
  by_cases hlength : announced bytes = (behind bytes).length
  case neg => exact .inr ⟨_, .bodyLength ⟨hheader, htag⟩ hadmitted hlength⟩
  exact .inl ⟨⟨hheader, htag⟩, hadmitted, hlength⟩

theorem sound_of_body (h : Frame.body max bytes = .ok body) :
    Sound bytes max ∧ body = behind bytes := by
  rcases sound_or_fault bytes max with hsound | ⟨e, hfault⟩
  · exact ⟨hsound, Except.ok.inj (h.symm.trans (body_of_sound hsound))⟩
  · rw [body_of_fault hfault] at h
    cases h

/-- Bytes that open alike announce the same length. -/
theorem announced_of_opens (h : bytes <+: bytes') (hheader : 8 ≤ bytes.length) :
    announced bytes' = announced bytes := by
  obtain ⟨more, rfl⟩ := h
  have hfour : 4 ≤ (bytes.drop 4).length := by
    rw [List.length_drop]
    omega
  rw [announced, announced, List.drop_append_of_le_length (by omega),
    List.take_append_of_le_length hfour]

/-- The announced length says how long the frame is. -/
theorem Sound.length_eq (h : Sound bytes max) : bytes.length = 8 + announced bytes := by
  have hheader := h.tagged.1
  have hlength := h.length
  rw [behind, List.length_drop] at hlength
  omega

/-- So of two sound frames neither begins the other, whatever the limits. -/
theorem Sound.eq_of_opens (h : Sound bytes max) (h' : Sound bytes' max')
    (hfront : bytes <+: bytes') : bytes = bytes' := by
  have hsame := announced_of_opens hfront h.tagged.1
  have hlength := h.length_eq
  have hlength' := h'.length_eq
  exact hfront.eq_of_length (by omega)

/-! ## What is written -/

/-- What is written announces the length of its body, which follows. -/
theorem sound_of_wrap (h : wrap max body = .ok bytes) :
    Sound bytes body.length ∧ announced bytes = body.length ∧ behind bytes = body := by
  obtain ⟨hsound, hbehind⟩ := sound_of_body (body_wrap h (Nat.le_refl body.length))
  exact ⟨hsound, by rw [hsound.length, ← hbehind], hbehind.symm⟩

theorem wrap_eq_error_iff {e : FrameError} :
    wrap max body = .error e ↔
      (max < body.length ∨ 0xFFFFFFFF < body.length) ∧ e = .tooLarge body.length max := by
  unfold wrap
  split
  · next hlarge => simp [hlarge, eq_comm]
  · next hlarge => simp [hlarge]

end Frame

namespace Artifact

open CallPatch.Frame (Fault Sound announced behind bigEndian tag)

variable {a b : Artifact} {bytes bytes' : Bytes} {e : FrameError} {max max' n : Nat}

/-! ## What is read -/

/-- What a body comes to. -/
def ofBody (body : Bytes) : Except FrameError Artifact :=
  match ofDocument? body with
  | some a => .ok a
  | none => .error (.document "not the document of an artifact")

/-- It is the body that is no document of an artifact. -/
def InDocument (e : FrameError) : Prop :=
  ∃ reason, e = .document reason

theorem decode_of_fault (h : Fault bytes max e) : decode bytes max = .error e := by
  rw [decode, Frame.body_of_fault h]
  rfl

theorem decode_of_sound (h : Sound bytes max) : decode bytes max = ofBody (behind bytes) := by
  rw [decode, Frame.body_of_sound h]
  rfl

/-- Whatever is decoded, its frame is sound. -/
theorem sound_of_decode (h : decode bytes max = .ok a) : Sound bytes max := by
  rcases Frame.sound_or_fault bytes max with hsound | ⟨e, hfault⟩
  · exact hsound
  · rw [decode_of_fault hfault] at h
    cases h

/-- **Decoding fails by the header just when the frame has a fault**, and by that fault. -/
theorem fault_iff : Fault bytes max e ↔ decode bytes max = .error e ∧ ¬ InDocument e := by
  constructor
  · intro h
    refine ⟨decode_of_fault h, ?_⟩
    rintro ⟨reason, rfl⟩
    cases h
  · rintro ⟨h, hnot⟩
    rcases Frame.sound_or_fault bytes max with hsound | ⟨e', hfault⟩
    · rw [decode_of_sound hsound, ofBody] at h
      split at h
      · cases h
      · exact absurd ⟨_, (Except.error.inj h).symm⟩ hnot
    · rw [decode_of_fault hfault] at h
      exact Except.error.inj h ▸ hfault

/-- Of two frames that are decoded neither begins the other. -/
theorem eq_of_opens (h : decode bytes max = .ok a) (h' : decode bytes' max' = .ok b)
    (hfront : bytes <+: bytes') : bytes = bytes' :=
  (sound_of_decode h).eq_of_opens (sound_of_decode h') hfront

/-! ## What is written, and read under any limit -/

theorem encode_eq_error_iff :
    a.encode max = .error e ↔
      (max < a.document.length ∨ 0xFFFFFFFF < a.document.length) ∧
        e = .tooLarge a.document.length max :=
  Frame.wrap_eq_error_iff

/-- What is written is too large for the limits below its body, and for no others. -/
theorem decode_eq_tooLarge_iff (h : a.encode max = .ok bytes) {length limit : Nat} :
    decode bytes max' = .error (.tooLarge length limit) ↔
      max' < a.document.length ∧ length = a.document.length ∧ limit = max' := by
  obtain ⟨hsound, hannounced, -⟩ := Frame.sound_of_wrap h
  constructor
  · intro hlarge
    cases fault_iff.2 ⟨hlarge, nofun⟩ with
    | tooLarge tagged large => exact ⟨hannounced ▸ large, hannounced, rfl⟩
  · rintro ⟨hlarge, rfl, rfl⟩
    rw [← hannounced] at hlarge ⊢
    exact decode_of_fault (.tooLarge hsound.tagged hlarge)

/-- **Frames are taken just when they are sound, and the limit means the same both ways.** Decoding
fails by the first fault of the frame, if it has one, and otherwise comes to what its whole body
comes to. Encoding fails by the limit or the length field alone, and what it writes announces the
length of its body. The limits below this length refuse what was written and all others admit it,
and under no limit is a part of it decoded, or a continuation. -/
theorem framing_exact :
    (∀ (bytes : Bytes) (max : Nat),
      (∀ e, decode bytes max = .error e ∧ ¬ InDocument e ↔ Fault bytes max e) ∧
        (Sound bytes max ↔ ∀ e, ¬ Fault bytes max e) ∧
          (Sound bytes max →
            decode bytes max = ofBody (behind bytes) ∧ (behind bytes).length ≤ max)) ∧
    (∀ (a : Artifact) (max : Nat),
      (∀ e, a.encode max = .error e ↔
        (max < a.document.length ∨ 0xFFFFFFFF < a.document.length) ∧
          e = .tooLarge a.document.length max) ∧
        ∀ bytes, a.encode max = .ok bytes →
          bytes.take 4 = tag ∧ announced bytes = a.document.length ∧ behind bytes = a.document) ∧
    ∀ (a : Artifact) (max n : Nat) (bytes : Bytes),
      a.encode max = .ok bytes → bytes.length = 8 + n →
        (∀ max' length limit, decode bytes max' = .error (.tooLarge length limit) ↔
          max' < n ∧ length = n ∧ limit = max') ∧
        (∀ max', decode bytes max' = .ok a ↔ n ≤ max') ∧
        (∀ part max' b, part <+: bytes → part ≠ bytes → decode part max' ≠ .ok b) ∧
        ∀ more max' b, more ≠ [] → decode (bytes ++ more) max' ≠ .ok b := by
  refine ⟨?read, ?write, ?both⟩
  case read =>
    intro bytes max
    refine ⟨fun e => fault_iff.symm, ?_, fun hsound => ⟨decode_of_sound hsound, ?_⟩⟩
    · constructor
      · intro hsound e hfault
        have hok := Frame.body_of_sound hsound
        rw [Frame.body_of_fault hfault] at hok
        cases hok
      · intro hnone
        refine (Frame.sound_or_fault bytes max).resolve_right ?_
        rintro ⟨e, hfault⟩
        exact hnone e hfault
    · exact hsound.length ▸ hsound.admitted
  case write =>
    intro a max
    refine ⟨fun e => encode_eq_error_iff, fun bytes h => ?_⟩
    obtain ⟨hsound, hannounced, hbehind⟩ := Frame.sound_of_wrap h
    exact ⟨hsound.tagged.2, hannounced, hbehind⟩
  case both =>
    intro a max n bytes h hlength
    have hbody := Frame.length_wrap h
    obtain rfl : a.document.length = n := by omega
    have hdecoded := decode_encode h
    refine ⟨fun max' length limit => decode_eq_tooLarge_iff h, fun max' => ?_, ?_, ?_⟩
    · refine ⟨fun hok => Nat.le_of_not_lt fun hlarge => ?_, decode_of_encode h⟩
      rw [(decode_eq_tooLarge_iff h).2 ⟨hlarge, rfl, rfl⟩] at hok
      cases hok
    · intro part max' b hfront hne hpart
      exact hne (eq_of_opens hpart hdecoded hfront)
    · intro more max' b hmore hcontinued
      have hsame := eq_of_opens hdecoded hcontinued (List.prefix_append ..)
      exact hmore (List.append_right_eq_self.1 hsame.symm)

namespace Unusual

/-- A limit that is one too low, a byte that is missing and a byte too many. Of a header on its own
the magic is looked at before the limit, and the limit before the length. -/
theorem framing_exact_artifact :
    (∃ bytes n, artifact.encode 400 = .ok bytes ∧ bytes.length = 8 + n ∧ 0 < n ∧
      decode bytes (n - 1) = .error (.tooLarge n (n - 1)) ∧
      (∀ max b, decode bytes.dropLast max ≠ .ok b) ∧
        ∀ max b, decode (bytes ++ [0]) max ≠ .ok b) ∧
    decode [0xCA, 0xFE, 0x41, 0x31, 0, 0, 0, 5] 4 = .error (.magicMismatch 0x56504131 0xCAFE4131) ∧
      decode [0x56, 0x50, 0x41, 0x31, 0, 0, 0, 5] 4 = .error (.tooLarge 5 4) ∧
        decode [0x56, 0x50, 0x41, 0x31, 0, 0, 0, 5] 5 = .error (.bodyLength 5 0) := by
  have hfault {bytes : Bytes} {max : Nat} {e : FrameError} (h : Fault bytes max e) :
      decode bytes max = .error e := (((framing_exact.1 bytes max).1 e).2 h).1
  refine ⟨?_, hfault (.magicMismatch (by decide) (by decide)),
    hfault (.tooLarge (by decide) (by decide)),
    hfault (.bodyLength (by decide) (by decide) (by decide))⟩
  have hfits : artifact.document.length ≤ 400 := by decide +kernel
  obtain ⟨bytes, h⟩ := encode_of_length_le hfits (by omega)
  have hlength := Frame.length_wrap h
  have hpos : 0 < artifact.document.length := by decide +kernel
  obtain ⟨hlarge, -, hpart, hmore⟩ := framing_exact.2.2 artifact 400 _ bytes h hlength
  have hne : bytes.dropLast ≠ bytes := fun heq => by
    have hshorter := congrArg List.length heq
    rw [List.length_dropLast] at hshorter
    omega
  exact ⟨bytes, _, h, hlength, hpos, (hlarge _ _ _).2 ⟨by omega, rfl, rfl⟩,
    fun max b => hpart _ max b (List.dropLast_prefix _) hne,
    fun max b => hmore [0] max b (List.cons_ne_nil _ _)⟩

end Unusual

end Artifact

end CallPatch
