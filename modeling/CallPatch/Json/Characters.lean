import CallPatch.Text.Utf8
/-!
# JSON — the characters of a document

A document comes as bytes. Its characters are UTF-8 sequences, but for the
byte behind a backslash, which is a character alone: the one of its number,
whether or not it could begin a sequence. Reading stops at the first byte
that begins no character. A text with nothing but ASCII behind its
backslashes is read back from its bytes (`characters_encode`).
-/

namespace CallPatch.Json

/-- Reads on after the characters `done`, the last of them first. -/
def charactersOnto (done : List Char) (bs : Bytes) : List Char :=
  match bs with
  | 0x5C :: b :: rest => charactersOnto (Char.ofUInt8 b :: '\\' :: done) rest
  | bs =>
    match _h : Utf8.head? bs with
    | none => done.reverse
    | some c => charactersOnto (c :: done) (bs.drop c.utf8Size)
termination_by bs.length
decreasing_by
  · simp only [List.length_cons]
    omega
  · exact Utf8.length_drop_lt_of_head? _h

/-- The characters that the bytes open with. -/
def characters (bs : Bytes) : List Char :=
  charactersOnto [] bs

/-- Whether every backslash that is not itself escaped has an ASCII character behind it. -/
def escapesAscii : List Char → Bool
  | '\\' :: c :: rest => c.toNat < 0x80 && escapesAscii rest
  | _ :: rest => escapesAscii rest
  | [] => true

theorem charactersOnto_nil (done : List Char) : charactersOnto done [] = done.reverse := by
  rw [charactersOnto]
  · split
    · rfl
    · rename_i c hsome
      rw [Utf8.head?_nil] at hsome
      cases hsome
  · intro b rest h
    cases h

/-- An escaped character of ASCII is read as itself. -/
theorem charactersOnto_escape (done : List Char) {c : Char} (rest : Bytes) (h : c.toNat < 0x80) :
    charactersOnto done (String.utf8EncodeChar '\\' ++ (String.utf8EncodeChar c ++ rest))
      = charactersOnto (c :: '\\' :: done) rest := by
  have hle : c.toNat ≤ 127 := by omega
  have hc : String.utf8EncodeChar c = [UInt8.ofNat c.toNat] := by
    simp [String.utf8EncodeChar, hle]
  have hback : Char.ofUInt8 (UInt8.ofNat c.toNat) = c := by
    have hval : (Char.ofUInt8 (UInt8.ofNat c.toNat)).val = (UInt8.ofNat c.toNat).toUInt32 := rfl
    refine Char.ext (UInt32.toNat_inj.1 ?_)
    rw [hval, UInt8.toNat_toUInt32, UInt8.toNat_ofNat']
    exact Nat.mod_eq_of_lt (by omega)
  have hstep : charactersOnto done (0x5C :: UInt8.ofNat c.toNat :: rest)
      = charactersOnto (Char.ofUInt8 (UInt8.ofNat c.toNat) :: '\\' :: done) rest := by
    rw [charactersOnto]
  rw [hback] at hstep
  rw [hc]
  exact hstep

/-- A character that opens no escape is read as UTF-8 has it. -/
theorem charactersOnto_encodeChar_append (done : List Char) (c : Char) (rest : Bytes)
    (h : c = '\\' → rest = []) :
    charactersOnto done (String.utf8EncodeChar c ++ rest) = charactersOnto (c :: done) rest := by
  have hdrop : (String.utf8EncodeChar c ++ rest).drop c.utf8Size = rest := by
    rw [← String.length_utf8EncodeChar, List.drop_left]
  have hhead := Utf8.head?_encodeChar_append c rest
  rw [charactersOnto]
  · split
    · rename_i hnone
      rw [hhead] at hnone
      cases hnone
    · rename_i d hsome
      rw [hhead] at hsome
      cases hsome
      rw [hdrop]
  · intro b more heq
    have hc : c = '\\' := by
      rw [heq] at hhead
      exact Option.some.inj (hhead.symm.trans (Utf8.head?_encodeChar_append '\\' (b :: more)))
    subst hc
    rw [h rfl] at heq
    cases heq

theorem charactersOnto_encode (done cs : List Char) (h : escapesAscii cs = true) :
    charactersOnto done (Utf8.encode cs) = done.reverse ++ cs := by
  fun_induction escapesAscii cs generalizing done with
  | case1 c rest ih =>
    simp only [Bool.and_eq_true, decide_eq_true_eq] at h
    rw [Utf8.encode_cons, Utf8.encode_cons, charactersOnto_escape done _ h.1, ih _ h.2]
    simp
  | case2 c rest hne ih =>
    rw [Utf8.encode_cons, charactersOnto_encodeChar_append, ih _ h]
    · simp
    · rintro rfl
      cases rest with
      | nil => rfl
      | cons d more => exact absurd rfl (hne d more rfl)
  | case3 =>
    rw [List.append_nil]
    exact charactersOnto_nil done

/-- **A text with ASCII escapes is read back from its bytes.** -/
theorem characters_encode {cs : List Char} (h : escapesAscii cs = true) :
    characters (Utf8.encode cs) = cs := by
  rw [characters, charactersOnto_encode [] cs h]
  rfl

end CallPatch.Json
