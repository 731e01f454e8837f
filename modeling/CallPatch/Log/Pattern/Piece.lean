import CallPatch.Log.Pattern.Mode
import CallPatch.Text.Numeral
/-!
# Log patterns — pieces

A piece is a character, or what an escape or a sign for characters stands for.
Which pieces are allowed depends on the mode. No table of characters is at
hand: where a pattern speaks of characters, the shorthands for digits, blanks
and words and the ends of words are refused, and so is every character where
case is ignored as well. Where it speaks of bytes, it must match whole
characters: any character, a byte beyond ASCII and a negated shorthand are
refused.

Patterns come from between braces, and hold no closing one. What needs braces
behind a backslash is therefore refused, as are properties of characters.
-/

namespace CallPatch.Log.Pattern

/-- What a character, or an escape, stands for. -/
inductive Piece where
  /-- A character; `byte` tells that it is written as the two digits of a byte. -/
  | char (c : Char) (byte : Bool)
  /-- Any character. -/
  | any
  /-- An end of a line or of the text. -/
  | edge
  /-- An end of a word. -/
  | wordEdge
  /-- The digits, the blanks or the characters of words, or all others. -/
  | shorthand (negated : Bool)
  deriving DecidableEq, Repr

namespace Piece

/-- Whether the piece may stand by itself. -/
def allowed (m : Mode) : Piece → Bool
  | .char c byte => if m.unicode then !m.caseless else !byte || c.toNat < 0x80
  | .any => m.unicode
  | .edge => true
  | .wordEdge => !m.unicode
  | .shorthand negated => !m.unicode && !negated

/-- Whether the piece may stand in brackets. -/
def allowedInside (m : Mode) : Piece → Bool
  | .char c _ => if m.unicode then !m.caseless else c.toNat < 0x80
  | .shorthand negated => !m.unicode && !negated
  | _ => false

/-- Whether the pieces may be the ends of a range in brackets. -/
def allowedRange (m : Mode) : Piece → Piece → Bool
  | .char low b, .char high b' =>
    (char low b).allowedInside m && (char high b').allowedInside m && low.toNat ≤ high.toNat
  | _, _ => false

end Piece

/-- So many hexadecimal digits. -/
def hexDigits? (m : Mode) : Nat → List Char → Option (List Char × List Char)
  | 0, cs => some ([], cs)
  | n + 1, cs =>
    match m.skip cs with
    | c :: rest =>
      if (Numeral.hexValue? c).isSome then
        (hexDigits? m n rest).map fun (digits, rest) => (c :: digits, rest)
      else none
    | [] => none

/-- The character with that number. -/
def charOf? (n : Nat) : Option Char :=
  if n.isValidChar then some (Char.ofNat n) else none

/-- The character with the number that so many hexadecimal digits make. -/
def hexChar? (m : Mode) (count : Nat) (cs : List Char) : Option (Char × List Char) := do
  let (digits, rest) ← hexDigits? m count cs
  let c ← (Numeral.hexNatural? digits).bind charOf?
  return (c, rest)

/-- What a character stands for behind a backslash. Punctuation of ASCII stands for itself. -/
def escaped? (c : Char) : Option Piece :=
  match c with
  | 'a' => some (.char '\x07' false)
  | 'f' => some (.char '\x0c' false)
  | 'n' => some (.char '\n' false)
  | 'r' => some (.char '\r' false)
  | 't' => some (.char '\t' false)
  | 'v' => some (.char '\x0b' false)
  | 'A' | 'z' => some .edge
  | 'b' | 'B' | '<' | '>' => some .wordEdge
  | 'd' | 's' | 'w' => some (.shorthand false)
  | 'D' | 'S' | 'W' => some (.shorthand true)
  | c => if c.toNat < 0x80 && !c.isAlphanum then some (.char c false) else none

/-- An escape, after its backslash. -/
def escape? (m : Mode) : List Char → Option (Piece × List Char)
  | 'x' :: rest => (hexChar? m 2 rest).map fun (c, rest) => (.char c true, rest)
  | 'u' :: rest => (hexChar? m 4 rest).map fun (c, rest) => (.char c false, rest)
  | 'U' :: rest => (hexChar? m 8 rest).map fun (c, rest) => (.char c false, rest)
  | c :: rest => (escaped? c).map fun p => (p, rest)
  | [] => none

/-- A piece outside of brackets. -/
def piece? (m : Mode) : List Char → Option (Piece × List Char)
  | '\\' :: rest => escape? m rest
  | '.' :: rest => some (.any, rest)
  | '^' :: rest => some (.edge, rest)
  | '$' :: rest => some (.edge, rest)
  | c :: rest => some (.char c false, rest)
  | [] => none

/-- A piece in brackets. -/
def pieceInside? (m : Mode) : List Char → Option (Piece × List Char)
  | '\\' :: rest => escape? m rest
  | c :: rest => some (.char c false, rest)
  | [] => none

/-- Digits may be none, so that the rest need not be shorter. -/
theorem length_le_of_hexDigits? {m : Mode} {n : Nat} {cs digits rest : List Char}
    (h : hexDigits? m n cs = some (digits, rest)) : rest.length ≤ cs.length := by
  induction n generalizing cs digits rest with
  | zero =>
    cases h
    exact Nat.le_refl _
  | succ n ih =>
    have hskip := m.length_skip_le cs
    rw [hexDigits?] at h
    split at h
    · rename_i c more hc
      rw [hc, List.length_cons] at hskip
      split at h
      · simp only [Option.map_eq_some_iff, Prod.mk.injEq] at h
        obtain ⟨⟨ds, rest'⟩, hds, -, rfl⟩ := h
        exact Nat.le_trans (ih hds) (Nat.le_of_succ_le hskip)
      · cases h
    · cases h

theorem length_le_of_hexChar? {m : Mode} {n : Nat} {cs rest : List Char} {c : Char}
    (h : hexChar? m n cs = some (c, rest)) : rest.length ≤ cs.length := by
  simp only [hexChar?, Option.bind_eq_bind, Option.bind_eq_some_iff, Option.pure_def,
    Option.some.injEq, Prod.mk.injEq] at h
  obtain ⟨⟨ds, rest'⟩, hds, _, -, -, rfl⟩ := h
  exact length_le_of_hexDigits? hds

/-- An escape takes at least the character behind its backslash. -/
theorem length_lt_of_escape? {m : Mode} {cs rest : List Char} {p : Piece}
    (h : escape? m cs = some (p, rest)) : rest.length < cs.length := by
  unfold escape? at h
  split at h
  case h_5 => cases h
  case h_4 =>
    simp only [Option.map_eq_some_iff, Prod.mk.injEq] at h
    obtain ⟨_, -, -, rfl⟩ := h
    exact Nat.lt_succ_self _
  all_goals
    simp only [Option.map_eq_some_iff, Prod.mk.injEq] at h
    obtain ⟨⟨c, rest'⟩, hc, -, rfl⟩ := h
    exact Nat.lt_succ_of_le (length_le_of_hexChar? hc)

/-- Every piece takes something, which is why passing over pieces ends. -/
theorem length_lt_of_piece? {m : Mode} {cs rest : List Char} {p : Piece}
    (h : piece? m cs = some (p, rest)) : rest.length < cs.length := by
  unfold piece? at h
  split at h
  case h_1 => exact Nat.lt_succ_of_lt (length_lt_of_escape? h)
  case h_6 => cases h
  all_goals
    cases h
    exact Nat.lt_succ_self _

/-- So does every piece in brackets. -/
theorem length_lt_of_pieceInside? {m : Mode} {cs rest : List Char} {p : Piece}
    (h : pieceInside? m cs = some (p, rest)) : rest.length < cs.length := by
  unfold pieceInside? at h
  split at h
  case h_1 => exact Nat.lt_succ_of_lt (length_lt_of_escape? h)
  case h_2 =>
    cases h
    exact Nat.lt_succ_self _
  case h_3 => cases h

end CallPatch.Log.Pattern
