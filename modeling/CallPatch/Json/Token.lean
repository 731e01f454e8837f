import CallPatch.Json.Scalar
/-!
# JSON — tokens

A document is read token by token. Space, tab, line feed and carriage return
may stand between tokens. Inside a string every character but the quote and
the backslash stands for itself, control characters included, and a backslash
makes any character behind it stand for itself that has no meaning of its own
there. A number may open with zeros, and has a digit before its point or
behind it; one without a point and an exponent has to fit 128 bits. Every
token takes at least one character (`length_lt_of_next?`), which is why
reading ends.
-/

namespace CallPatch.Json

/-- A piece of a document: punctuation, or a value without parts. -/
inductive Token where
  | openArray
  | closeArray
  | openObject
  | closeObject
  | colon
  | comma
  | scalar (value : Scalar)
  deriving Repr

/-- The characters that may stand between tokens. -/
def isSpace (c : Char) : Bool :=
  c = ' ' || c = '\t' || c = '\n' || c = '\r'

/-! ## Strings -/

/-- The number of a unicode escape: four hexadecimal digits, or a plus sign and three. -/
def hex4? : List Char → Option (Nat × List Char)
  | '+' :: b :: c :: d :: rest => (Numeral.hexNatural? [b, c, d]).map fun n => (n, rest)
  | a :: b :: c :: d :: rest => (Numeral.hexNatural? [a, b, c, d]).map fun n => (n, rest)
  | _ => none

/-- The escape of a low surrogate, its backslash and letter included. -/
def lowSurrogate? : List Char → Option (Nat × List Char)
  | '\\' :: 'u' :: rest => (hex4? rest).filter fun (unit, _) => 0xDC00 ≤ unit && unit < 0xE000
  | _ => none

/-- The character written by a unicode escape, after the letter `u`. A high surrogate needs the
escape of a low one behind it, and a low one alone stands for nothing. -/
def unicode? (cs : List Char) : Option (Char × List Char) :=
  match hex4? cs with
  | none => none
  | some (unit, rest) =>
    if 0xD800 ≤ unit ∧ unit < 0xDC00 then
      (lowSurrogate? rest).map fun (low, rest) =>
        (Char.ofNat (0x10000 + (unit - 0xD800) * 0x400 + (low - 0xDC00)), rest)
    else if 0xDC00 ≤ unit ∧ unit < 0xE000 then none
    else some (Char.ofNat unit, rest)

/-- What a character stands for behind a backslash. -/
def unescaped (c : Char) : Char :=
  match c with
  | 'b' => '\x08'
  | 'f' => '\x0c'
  | 'n' => '\n'
  | 'r' => '\r'
  | 't' => '\t'
  | c => c

/-- The character written by an escape, after its backslash. -/
def escape? : List Char → Option (Char × List Char)
  | 'u' :: rest => unicode? rest
  | c :: rest => some (unescaped c, rest)
  | [] => none

/-- Four digits are taken. -/
theorem length_lt_of_hex4? {cs rest : List Char} {n : Nat} (h : hex4? cs = some (n, rest)) :
    rest.length < cs.length := by
  unfold hex4? at h
  split at h
  case h_3 => cases h
  all_goals
    simp only [Option.map_eq_some_iff, Prod.mk.injEq] at h
    obtain ⟨_, -, -, rfl⟩ := h
    simp only [List.length_cons]
    omega

/-- A second half brings its own backslash. -/
theorem length_lt_of_lowSurrogate? {cs rest : List Char} {n : Nat}
    (h : lowSurrogate? cs = some (n, rest)) : rest.length < cs.length := by
  unfold lowSurrogate? at h
  split at h
  · simp only [Option.filter_eq_some_iff] at h
    have := length_lt_of_hex4? h.1
    simp only [List.length_cons]
    omega
  · cases h

theorem length_lt_of_unicode? {cs rest : List Char} {c : Char} (h : unicode? cs = some (c, rest)) :
    rest.length < cs.length := by
  unfold unicode? at h
  split at h
  · cases h
  · rename_i unit more h4
    have hlt := length_lt_of_hex4? h4
    split at h
    · simp only [Option.map_eq_some_iff, Prod.mk.injEq] at h
      obtain ⟨⟨low, last⟩, hlow, -, rfl⟩ := h
      exact Nat.lt_trans (length_lt_of_lowSurrogate? hlow) hlt
    · split at h
      · cases h
      · simp only [Option.some.injEq, Prod.mk.injEq] at h
        obtain ⟨-, rfl⟩ := h
        exact hlt

/-- Every escape takes at least one character behind its backslash. -/
theorem length_lt_of_escape? {cs rest : List Char} {c : Char} (h : escape? cs = some (c, rest)) :
    rest.length < cs.length := by
  unfold escape? at h
  split at h
  · have := length_lt_of_unicode? h
    simp only [List.length_cons]
    omega
  · simp only [Option.some.injEq, Prod.mk.injEq] at h
    obtain ⟨-, rfl⟩ := h
    simp
  · cases h

/-- The rest of a string after the characters `done`, the last of them first. -/
def stringOnto? (done : List Char) : (cs : List Char) → Option (String × List Char)
  | [] => none
  | '"' :: rest => some (String.ofList done.reverse, rest)
  | '\\' :: rest =>
    match _h : escape? rest with
    | none => none
    | some (c, rest') => stringOnto? (c :: done) rest'
  | c :: rest => stringOnto? (c :: done) rest
termination_by cs => cs.length
decreasing_by
  · have := length_lt_of_escape? _h
    simp only [List.length_cons]
    omega
  · simp

/-- A string, after its opening quote. -/
def string? (cs : List Char) : Option (String × List Char) :=
  stringOnto? [] cs

/-! ## Numbers -/

/-- The digits behind a point, if a point comes next. -/
def fraction : List Char → Option (List Char) × List Char
  | '.' :: rest => (some (rest.takeWhile Char.isDigit), rest.dropWhile Char.isDigit)
  | cs => (none, cs)

/-- A run of decimal digits, as long as it goes and not empty, read as a number. -/
def digits? (cs : List Char) : Option (Nat × List Char) :=
  (Numeral.natural? (cs.takeWhile Char.isDigit)).map fun n => (n, cs.dropWhile Char.isDigit)

/-- The exponent with its sign, after its mark. -/
def signedExponent? : List Char → Option (Int × List Char)
  | '+' :: rest => (digits? rest).map fun (n, rest) => (Int.ofNat n, rest)
  | '-' :: rest => (digits? rest).map fun (n, rest) => (-Int.ofNat n, rest)
  | cs => (digits? cs).map fun (n, rest) => (Int.ofNat n, rest)

/-- The exponent, if its mark comes next. -/
def exponent? : List Char → Option (Option Int × List Char)
  | 'e' :: rest => (signedExponent? rest).map fun (e, rest) => (some e, rest)
  | 'E' :: rest => (signedExponent? rest).map fun (e, rest) => (some e, rest)
  | cs => some (none, cs)

/-- A whole number that fits 128 bits, unsigned where it is not negative. -/
def whole? (negative : Bool) (n : Nat) : Option Scalar :=
  if negative then if n ≤ Nat.pow 2 127 then some (.whole (-n)) else none
  else if n < Nat.pow 2 128 then some (.whole n) else none

/-- The number these parts make. A digit is needed before the point or behind it. -/
def ofParts? (negative : Bool) (whole : List Char) (fraction : Option (List Char))
    (exponent : Option Int) : Option Scalar :=
  let places := fraction.getD []
  if whole = [] ∧ places = [] then none
  else if fraction = none ∧ exponent = none then whole? negative (Numeral.ofDigits whole)
  else
    some (.decimal negative (Numeral.ofDigits (whole ++ places)) (exponent.getD 0 - places.length))

/-- A number without its sign. -/
def unsigned? (negative : Bool) (cs : List Char) : Option (Scalar × List Char) := do
  let part := fraction (cs.dropWhile Char.isDigit)
  let (exponent, rest) ← exponent? part.2
  let n ← ofParts? negative (cs.takeWhile Char.isDigit) part.1 exponent
  return (n, rest)

/-- A number. It opens with a minus sign or a digit. -/
def number? : List Char → Option (Scalar × List Char)
  | '-' :: rest => unsigned? true rest
  | c :: rest => if c.isDigit then unsigned? false (c :: rest) else none
  | [] => none

theorem length_dropWhile_le (p : Char → Bool) (cs : List Char) :
    (cs.dropWhile p).length ≤ cs.length :=
  (List.dropWhile_suffix p).length_le

/-- The digits may stand at the end of the text. -/
theorem length_le_of_digits? {cs rest : List Char} {n : Nat} (h : digits? cs = some (n, rest)) :
    rest.length ≤ cs.length := by
  simp only [digits?, Option.map_eq_some_iff, Prod.mk.injEq] at h
  obtain ⟨_, -, -, rfl⟩ := h
  exact length_dropWhile_le Char.isDigit cs

/-- There need not be a fraction. -/
theorem length_fraction_le (cs : List Char) : (fraction cs).2.length ≤ cs.length := by
  unfold fraction
  split
  · rename_i rest
    have := length_dropWhile_le Char.isDigit rest
    simp only [List.length_cons]
    omega
  · exact Nat.le_refl _

theorem length_le_of_signedExponent? {cs rest : List Char} {e : Int}
    (h : signedExponent? cs = some (e, rest)) : rest.length ≤ cs.length := by
  unfold signedExponent? at h
  split at h
  all_goals
    simp only [Option.map_eq_some_iff, Prod.mk.injEq] at h
    obtain ⟨⟨n, rest'⟩, hd, -, rfl⟩ := h
    have hle := length_le_of_digits? hd
    simp only [List.length_cons] at hle ⊢
    omega

/-- Nor an exponent. -/
theorem length_le_of_exponent? {cs rest : List Char} {e : Option Int}
    (h : exponent? cs = some (e, rest)) : rest.length ≤ cs.length := by
  unfold exponent? at h
  split at h
  case h_3 =>
    simp only [Option.some.injEq, Prod.mk.injEq] at h
    obtain ⟨-, rfl⟩ := h
    exact Nat.le_refl _
  all_goals
    simp only [Option.map_eq_some_iff, Prod.mk.injEq] at h
    obtain ⟨⟨e', rest'⟩, he, -, rfl⟩ := h
    have := length_le_of_signedExponent? he
    simp only [List.length_cons]
    omega

/-- All the digits are taken, and what makes a fraction or an exponent of what is behind them. -/
theorem length_le_of_unsigned? {negative : Bool} {cs rest : List Char} {n : Scalar}
    (h : unsigned? negative cs = some (n, rest)) :
    rest.length ≤ (cs.dropWhile Char.isDigit).length := by
  simp only [unsigned?, Option.bind_eq_bind, Option.bind_eq_some_iff, Option.pure_def,
    Option.some.injEq, Prod.mk.injEq] at h
  obtain ⟨⟨e, rest'⟩, he, n', -, -, rfl⟩ := h
  exact Nat.le_trans (length_le_of_exponent? he) (length_fraction_le _)

/-- A number takes its sign or its first digit. -/
theorem length_lt_of_number? {cs rest : List Char} {n : Scalar}
    (h : number? cs = some (n, rest)) : rest.length < cs.length := by
  unfold number? at h
  split at h
  · rename_i cs
    have := length_le_of_unsigned? h
    have := length_dropWhile_le Char.isDigit cs
    simp only [List.length_cons]
    omega
  · rename_i c cs _
    split at h
    · rename_i hc
      have := length_le_of_unsigned? h
      have := length_dropWhile_le Char.isDigit cs
      simp only [List.dropWhile_cons, hc, if_true, List.length_cons] at *
      omega
    · cases h
  · cases h

/-! ## The next token -/

/-- The token that opens the characters, which open with no space. -/
def Token.head? : List Char → Option (Token × List Char)
  | '[' :: rest => some (.openArray, rest)
  | ']' :: rest => some (.closeArray, rest)
  | '{' :: rest => some (.openObject, rest)
  | '}' :: rest => some (.closeObject, rest)
  | ':' :: rest => some (.colon, rest)
  | ',' :: rest => some (.comma, rest)
  | '"' :: rest => (string? rest).map fun (s, rest) => (.scalar (.string s), rest)
  | 'n' :: 'u' :: 'l' :: 'l' :: rest => some (.scalar .null, rest)
  | 't' :: 'r' :: 'u' :: 'e' :: rest => some (.scalar (.bool true), rest)
  | 'f' :: 'a' :: 'l' :: 's' :: 'e' :: rest => some (.scalar (.bool false), rest)
  | cs => (number? cs).map fun (n, rest) => (.scalar n, rest)

/-- The next token, and the characters behind it. -/
def Token.next? (cs : List Char) : Option (Token × List Char) :=
  Token.head? (cs.dropWhile isSpace)

/-- A string takes at least the quote that closes it. -/
theorem length_lt_of_stringOnto? {done cs rest : List Char} {s : String}
    (h : stringOnto? done cs = some (s, rest)) : rest.length < cs.length := by
  fun_induction stringOnto? done cs with
  | case1 => cases h
  | case2 done r =>
    simp only [Option.some.injEq, Prod.mk.injEq] at h
    obtain ⟨-, rfl⟩ := h
    simp
  | case3 => cases h
  | case4 done r c r' hesc ih =>
    have := length_lt_of_escape? hesc
    have := ih h
    simp only [List.length_cons]
    omega
  | case5 done c r _ _ ih =>
    have := ih h
    simp only [List.length_cons]
    omega

/-- **Every token takes something**, so that scanning ends. -/
theorem length_lt_of_head? {cs rest : List Char} {t : Token} (h : Token.head? cs = some (t, rest)) :
    rest.length < cs.length := by
  unfold Token.head? at h
  split at h
  case h_7 =>
    simp only [Option.map_eq_some_iff, Prod.mk.injEq] at h
    obtain ⟨⟨s, r⟩, hs, -, rfl⟩ := h
    have := length_lt_of_stringOnto? hs
    simp only [List.length_cons]
    omega
  case h_11 =>
    simp only [Option.map_eq_some_iff, Prod.mk.injEq] at h
    obtain ⟨⟨n, r⟩, hn, -, rfl⟩ := h
    exact length_lt_of_number? hn
  all_goals
    simp only [Option.some.injEq, Prod.mk.injEq] at h
    obtain ⟨-, rfl⟩ := h
    simp only [List.length_cons]
    omega

/-- **A token takes at least one character.** -/
theorem length_lt_of_next? {cs rest : List Char} {t : Token} (h : Token.next? cs = some (t, rest)) :
    rest.length < cs.length := by
  have h1 := length_lt_of_head? h
  have h2 : (cs.dropWhile isSpace).length ≤ cs.length := (List.dropWhile_suffix isSpace).length_le
  omega

end CallPatch.Json
