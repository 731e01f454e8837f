/-!
# UTF-8

Bytes of a text, and the text at the front of some bytes. Reading stops at
the first byte that begins no well-formed sequence: what is read is the
longest well-formed front, and nothing is replaced or guessed. Bytes written
for a text are read back to the end (`decode_encode`).
-/

namespace CallPatch

/-- A byte string. -/
abbrev Bytes := List UInt8

namespace Utf8

/-- The bytes of the characters, one after another. -/
def encode (cs : List Char) : Bytes :=
  cs.flatMap String.utf8EncodeChar

theorem encode_cons (c : Char) (cs : List Char) :
    encode (c :: cs) = String.utf8EncodeChar c ++ encode cs := by
  simp [encode]

/-- The bytes of a text. -/
def ofString (s : String) : Bytes :=
  encode s.toList

/-- The character whose sequence begins the bytes, if one does. No sequence is longer than four. -/
def head? (bs : Bytes) : Option Char :=
  (bs.take 4).toByteArray.utf8DecodeChar? 0

theorem head?_nil : head? [] = none := by
  decide

/-- A character is read back from the bytes that stand for it, whatever is behind them. -/
theorem head?_encodeChar_append (c : Char) (rest : Bytes) :
    head? (String.utf8EncodeChar c ++ rest) = some c := by
  have htake : (String.utf8EncodeChar c ++ rest).take 4
      = String.utf8EncodeChar c ++ rest.take (4 - c.utf8Size) := by
    have hle : (String.utf8EncodeChar c).length ≤ 4 := by
      rw [String.length_utf8EncodeChar]
      exact c.utf8Size_le_four
    rw [List.take_append, List.take_of_length_le hle, String.length_utf8EncodeChar]
  rw [head?, htake, List.toByteArray_append]
  exact ByteArray.utf8DecodeChar?_utf8EncodeChar_append

/-- A character takes at least one byte. -/
theorem length_drop_lt_of_head? {bs : Bytes} {c : Char} (h : head? bs = some c) :
    (bs.drop c.utf8Size).length < bs.length := by
  have hne : bs ≠ [] := by
    rintro rfl
    simp [head?_nil] at h
  have := List.length_pos_iff.2 hne
  have := c.utf8Size_pos
  simp only [List.length_drop]
  omega

/-- Reads on after the characters `done`, the last of them first. -/
def decodeOnto (done : List Char) (bs : Bytes) : List Char :=
  match _h : head? bs with
  | none => done.reverse
  | some c => decodeOnto (c :: done) (bs.drop c.utf8Size)
termination_by bs.length
decreasing_by exact length_drop_lt_of_head? _h

/-- The characters of the longest well-formed front of the bytes. -/
def decode (bs : Bytes) : List Char :=
  decodeOnto [] bs

/-- What is encoded is decoded, behind what was decoded before. -/
theorem decodeOnto_encode (done cs : List Char) :
    decodeOnto done (encode cs) = done.reverse ++ cs := by
  induction cs generalizing done with
  | nil =>
    have hnone : head? (encode []) = none := head?_nil
    rw [decodeOnto]
    split
    · simp
    · rename_i h
      rw [hnone] at h
      cases h
  | cons c cs ih =>
    have hdrop : (String.utf8EncodeChar c ++ encode cs).drop c.utf8Size = encode cs := by
      rw [← String.length_utf8EncodeChar, List.drop_left]
    rw [decodeOnto, encode_cons]
    split
    · rename_i h
      rw [head?_encodeChar_append] at h
      cases h
    · rename_i d h
      rw [head?_encodeChar_append] at h
      cases h
      rw [hdrop, ih]
      simp

/-- **What is written is read back**, for every text. -/
theorem decode_encode (cs : List Char) : decode (encode cs) = cs := by
  rw [decode, decodeOnto_encode]
  rfl

/-- The whole bytes as characters, when they are well formed to the end. -/
def decode? (bs : Bytes) : Option (List Char) :=
  let cs := decode bs
  if encode cs = bs then some cs else none

end Utf8

end CallPatch
