import CallPatch.Json.Characters
import CallPatch.Json.Printer
import CallPatch.Json.Token
/-!
# JSON — strings and numbers, written and read back

A string is written character by character, each by its escape or by itself
(`Spelled`), whatever the blocks in which the writer works. Either way the
reader takes the character back (`string?_quotedFrom`), and no backslash is
left open, so that the bytes of a text so written have its characters
(`Inert`). A whole number that fits 128 bits is read back wherever no digit,
point or exponent follows it (`number?_signed`).
-/

namespace CallPatch

/-! ## Hexadecimal digits -/

namespace Numeral

/-- A digit is read as the number it stands for. -/
theorem hexValue?_digitChar : ∀ d < 16, hexValue? (Nat.digitChar d) = some d := by
  decide

theorem digitChar_ne_plus : ∀ d < 16, Nat.digitChar d ≠ '+' := by
  decide

theorem digitChar_ne_backslash : ∀ d < 16, Nat.digitChar d ≠ '\\' := by
  decide

/-- Digits are read back up to the width they were written with. -/
theorem hexNatural?_hex {width n : Nat} (h : n < Nat.pow 16 width) :
    hexNatural? (hex width n) = some n := by
  induction width generalizing n with
  | zero =>
    obtain rfl : n = 0 := by
      have : Nat.pow 16 0 = 1 := rfl
      omega
    rfl
  | succ width ih =>
    have hpow : Nat.pow 16 (width + 1) = Nat.pow 16 width * 16 := rfl
    have hfront : hexNatural? (hex width (n / 16)) = some (n / 16) := ih (by omega)
    have hlast : hexValue? (Nat.digitChar (n % 16)) = some (n % 16) :=
      hexValue?_digitChar _ (by omega)
    unfold hexNatural? at hfront ⊢
    rw [hex, List.foldlM_append, hfront]
    simp only [Option.bind_eq_bind, Option.bind_some, List.foldlM_cons, List.foldlM_nil, hlast,
      Option.map_some, Option.pure_def, Option.some.injEq]
    omega

/-- A number is written in digits, and in nothing else. -/
theorem mem_hex {width n : Nat} {c : Char} (h : c ∈ hex width n) :
    ∃ d < 16, c = Nat.digitChar d := by
  induction width generalizing n with
  | zero => cases h
  | succ width ih =>
    rcases List.mem_append.1 h with h | h
    · exact ih h
    · exact ⟨n % 16, by omega, List.mem_singleton.1 h⟩

end Numeral

namespace Json

/-! ## Characters -/

/-- A way to write a character inside a string. -/
inductive Spelling : Char → List Char → Prop where
  | escaped (c : Char) : Spelling c (escaped c)
  | plain {c : Char} (h : isPlain c = true) : Spelling c [c]

/-- The characters are written one after another. -/
inductive Spelled : List Char → List Char → Prop where
  | nil : Spelled [] []
  | cons {c : Char} {w cs ws : List Char} (first : Spelling c w) (rest : Spelled cs ws) :
      Spelled (c :: cs) (w ++ ws)

/-- A block that is written as it stands holds plain characters alone. -/
theorem isPlain_of_opensPlain {cs : List Char} (h : opensPlain cs = true) :
    ∀ c ∈ cs.take blockSize, isPlain c = true := by
  simp only [opensPlain, Bool.and_eq_true, List.all_eq_true] at h
  exact h.2

/-- **Whatever the blocks, a string is written character by character.** The characters still to
be copied are plain ones. -/
theorem spelled_quotedFrom (copied escapedBytes : Nat) (cs : List Char)
    (h : ∀ c ∈ cs.take copied, isPlain c = true) :
    Spelled cs (quotedFrom copied escapedBytes cs) := by
  fun_induction quotedFrom copied escapedBytes cs with
  | case1 => exact .nil
  | case2 copied escapedBytes c rest hcopied ih =>
    obtain ⟨copied, rfl⟩ : ∃ k, copied = k + 1 := ⟨copied - 1, by omega⟩
    rw [List.take_succ_cons] at h
    refine .cons (.plain (h c List.mem_cons_self)) (ih fun d hd => h d ?_)
    exact List.mem_cons_of_mem _ hd
  | case3 copied escapedBytes c rest hcopied hbytes ih => exact .cons (.escaped c) (ih nofun)
  | case4 copied escapedBytes c rest hcopied hbytes hopens ih =>
    have hplain := isPlain_of_opensPlain hopens
    rw [show blockSize = (blockSize - 1) + 1 from rfl, List.take_succ_cons] at hplain
    refine .cons (.plain (hplain c List.mem_cons_self)) (ih fun d hd => hplain d ?_)
    exact List.mem_cons_of_mem _ hd
  | case5 copied escapedBytes c rest hcopied hbytes hopens ih => exact .cons (.escaped c) (ih nofun)

/-! ## Read back -/

/-- Four digits are read as their number, whatever is behind them. -/
theorem hex4?_hex {n : Nat} (h : n < 0x10000) (rest : List Char) :
    hex4? (Numeral.hex 4 n ++ rest) = some (n, rest) := by
  have hread : Numeral.hexNatural? (Numeral.hex 4 n) = some n := Numeral.hexNatural?_hex h
  have hhex : Numeral.hex 4 n = [Nat.digitChar (n / 16 / 16 / 16 % 16),
      Nat.digitChar (n / 16 / 16 % 16), Nat.digitChar (n / 16 % 16), Nat.digitChar (n % 16)] := rfl
  have hplus := Numeral.digitChar_ne_plus (n / 16 / 16 / 16 % 16) (by omega)
  rw [hhex] at hread ⊢
  change hex4? (_ :: _ :: _ :: _ :: rest) = _
  rw [hex4?]
  · rw [hread]
    rfl
  · exact hplus

/-- A character below the surrogates is read from its code. -/
theorem unicode?_hex {c : Char} (h : c.toNat < 0xD800) (rest : List Char) :
    unicode? (Numeral.hex 4 c.toNat ++ rest) = some (c, rest) := by
  have hread := hex4?_hex (show c.toNat < 0x10000 by omega) rest
  simp only [unicode?, hread]
  rw [if_neg (by omega), if_neg (by omega), Char.ofNat_toNat]

/-- An escape in a string stands for its character. -/
theorem stringOnto?_escape {done cs rest : List Char} {c : Char} (h : escape? cs = some (c, rest)) :
    stringOnto? done ('\\' :: cs) = stringOnto? (c :: done) rest := by
  rw [stringOnto?]
  split
  · rename_i hnone
    rw [h] at hnone
    cases hnone
  · rename_i d more hsome
    rw [h] at hsome
    cases hsome
    rfl

/-- Any other character stands for itself. -/
theorem stringOnto?_self {c : Char} (hquote : c ≠ '"') (hslash : c ≠ '\\') (done rest : List Char) :
    stringOnto? done (c :: rest) = stringOnto? (c :: done) rest := by
  rw [stringOnto?]
  · exact hquote
  · exact hslash

/-- A plain character neither ends a string nor begins an escape. -/
theorem isPlain_ne {c : Char} (h : isPlain c = true) : c ≠ '"' ∧ c ≠ '\\' := by
  simp only [isPlain, Bool.and_eq_true, decide_eq_true_eq, ne_eq] at h
  exact ⟨h.1.2, h.2⟩

/-- A character is escaped by a letter, by its code or not at all. -/
theorem escaped_cases (c : Char) :
    (∃ d, escaped c = ['\\', d] ∧ d.toNat < 0x80 ∧ ∀ rest, escape? (d :: rest) = some (c, rest)) ∨
    (escaped c = '\\' :: 'u' :: Numeral.hex 4 c.toNat ∧ c.toNat < 0x80) ∨
    (escaped c = [c] ∧ c ≠ '"' ∧ c ≠ '\\') := by
  unfold escaped
  iterate 7
    split
    · subst c
      exact .inl ⟨_, rfl, by decide, fun _ => rfl⟩
  split
  · exact .inr (.inl ⟨rfl, by omega⟩)
  · exact .inr (.inr ⟨rfl, ‹_›, ‹_›⟩)

/-- A character is read back from each of its spellings. -/
theorem Spelling.read {c : Char} {w : List Char} (h : Spelling c w) (done rest : List Char) :
    stringOnto? done (w ++ rest) = stringOnto? (c :: done) rest := by
  cases h with
  | plain h => exact stringOnto?_self (isPlain_ne h).1 (isPlain_ne h).2 done rest
  | escaped =>
    rcases escaped_cases c with ⟨d, hw, -, hd⟩ | ⟨hw, hcode⟩ | ⟨hw, hquote, hslash⟩
    · rw [hw]
      exact stringOnto?_escape (hd rest)
    · rw [hw]
      exact stringOnto?_escape (unicode?_hex (by omega) rest)
    · rw [hw]
      exact stringOnto?_self hquote hslash done rest

/-- What is spelled is read as what it spells, character by character. -/
theorem Spelled.read {cs ws : List Char} (h : Spelled cs ws) (done rest : List Char) :
    stringOnto? done (ws ++ rest) = stringOnto? (cs.reverse ++ done) rest := by
  induction h generalizing done with
  | nil => rfl
  | cons first _ ih =>
    rw [List.append_assoc, first.read, ih, List.reverse_cons, List.append_assoc]
    rfl

/-- **A string is read back** up to its closing quote. -/
theorem string?_quotedFrom (s : String) (rest : List Char) :
    string? (quotedFrom 0 0 s.toList ++ '"' :: rest) = some (s, rest) := by
  rw [string?, (spelled_quotedFrom 0 0 s.toList nofun).read, stringOnto?]
  simp

/-! ## Escapes of ASCII -/

/-- Whether what follows has ASCII behind its backslashes does not depend on these characters. -/
def Inert (cs : List Char) : Prop :=
  ∀ rest, escapesAscii (cs ++ rest) = escapesAscii rest

namespace Inert

theorem nil : Inert [] :=
  fun _ => rfl

/-- What is written side by side is inert if each side is. -/
theorem append {cs ds : List Char} (hcs : Inert cs) (hds : Inert ds) : Inert (cs ++ ds) := by
  intro rest
  rw [List.append_assoc, hcs, hds]

/-- A character that is no backslash can be passed over. -/
theorem cons {c : Char} {cs : List Char} (h : c ≠ '\\') (hcs : Inert cs) : Inert (c :: cs) := by
  intro rest
  rw [List.cons_append, escapesAscii, hcs]
  intro _ _ hc
  exact absurd hc h

/-- So can a backslash with a character of ASCII behind it. -/
theorem escape {c : Char} {cs : List Char} (h : c.toNat < 0x80) (hcs : Inert cs) :
    Inert ('\\' :: c :: cs) := by
  intro rest
  rw [List.cons_append, List.cons_append, escapesAscii, hcs]
  simp [h]

theorem of_forall {cs : List Char} (h : ∀ c ∈ cs, c ≠ '\\') : Inert cs := by
  induction cs with
  | nil => exact nil
  | cons c cs ih =>
    exact cons (h c List.mem_cons_self) (ih fun d hd => h d (List.mem_cons_of_mem c hd))

/-- The bytes of inert characters have these characters. -/
theorem characters_encode {cs : List Char} (h : Inert cs) : characters (Utf8.encode cs) = cs := by
  have hnil := h []
  rw [List.append_nil] at hnil
  exact Json.characters_encode (hnil.trans rfl)

end Inert

theorem Spelling.inert {c : Char} {w : List Char} (h : Spelling c w) : Inert w := by
  cases h with
  | plain h => exact .cons (isPlain_ne h).2 .nil
  | escaped =>
    rcases escaped_cases c with ⟨d, hw, hd, -⟩ | ⟨hw, hcode⟩ | ⟨hw, -, hslash⟩
    · rw [hw]
      exact .escape hd .nil
    · rw [hw]
      refine .escape (by decide) (.of_forall fun d hd => ?_)
      obtain ⟨k, hk, rfl⟩ := Numeral.mem_hex hd
      exact Numeral.digitChar_ne_backslash k hk
    · rw [hw]
      exact .cons hslash .nil

theorem Spelled.inert {cs ws : List Char} (h : Spelled cs ws) : Inert ws := by
  induction h with
  | nil => exact .nil
  | cons first _ ih => exact first.inert.append ih

/-- A quoted string has no backslash of its own but those of its escapes. -/
theorem inert_quoted (s : String) : Inert (quoted s) :=
  .cons (by decide) ((spelled_quotedFrom 0 0 s.toList nofun).inert.append (.cons (by decide) .nil))

theorem inert_signed (i : Int) : Inert (Numeral.signed i) := by
  have hdigits : Inert (Numeral.decimal i.natAbs) := .of_forall fun c hc => by
    rintro rfl
    exact absurd (Numeral.isDigit_of_mem_decimal hc) (by decide)
  unfold Numeral.signed
  split
  · exact .cons (by decide) hdigits
  · exact hdigits

/-! ## Numbers -/

/-- No number goes on with these characters. -/
def EndsNumber (cs : List Char) : Prop :=
  ∀ c ∈ cs.head?, c.isDigit = false ∧ c ≠ '.' ∧ c ≠ 'e' ∧ c ≠ 'E'

/-- The whole numbers that fit 128 bits, unsigned where they are not negative. -/
def FitsWhole (i : Int) : Prop :=
  -0x80000000000000000000000000000000 ≤ i ∧ i < 0x100000000000000000000000000000000

/-- Where a number ends, there is no fraction. -/
theorem fraction_eq {rest : List Char} (h : EndsNumber rest) : fraction rest = (none, rest) := by
  unfold fraction
  split
  · rename_i rest
    exact absurd rfl (h '.' rfl).2.1
  · rfl

/-- And no exponent. -/
theorem exponent?_eq {rest : List Char} (h : EndsNumber rest) :
    exponent? rest = some (none, rest) := by
  unfold exponent?
  split
  · exact absurd rfl (h 'e' rfl).2.2.1
  · exact absurd rfl (h 'E' rfl).2.2.2
  · rfl

/-- The digits of a number are all taken. -/
theorem takeWhile_decimal (n : Nat) {rest : List Char} (h : EndsNumber rest) :
    (Numeral.decimal n ++ rest).takeWhile Char.isDigit = Numeral.decimal n := by
  have hstop : rest.takeWhile Char.isDigit = [] := by
    cases rest with
    | nil => rfl
    | cons c rest => simp [(h c rfl).1]
  rw [List.takeWhile_append_of_pos fun c hc => Numeral.isDigit_of_mem_decimal hc, hstop,
    List.append_nil]

theorem dropWhile_decimal (n : Nat) {rest : List Char} (h : EndsNumber rest) :
    (Numeral.decimal n ++ rest).dropWhile Char.isDigit = rest := by
  have hstop : rest.dropWhile Char.isDigit = rest := by
    cases rest with
    | nil => rfl
    | cons c rest => simp [(h c rfl).1]
  rw [List.dropWhile_append_of_pos fun c hc => Numeral.isDigit_of_mem_decimal hc, hstop]

/-- A number without its sign is read from its digits, all of them and no more. -/
theorem unsigned?_decimal {negative : Bool} {n : Nat} {v : Scalar} {rest : List Char}
    (hrest : EndsNumber rest) (hv : whole? negative n = some v) :
    unsigned? negative (Numeral.decimal n ++ rest) = some (v, rest) := by
  have hparts : ofParts? negative (Numeral.decimal n) none none = some v := by
    simp [ofParts?, Numeral.decimal_ne_nil, Numeral.ofDigits_decimal, hv]
  simp [unsigned?, takeWhile_decimal n hrest, dropWhile_decimal n hrest, fraction_eq hrest,
    exponent?_eq hrest, hparts]

theorem number?_decimal (n : Nat) (rest : List Char) :
    number? (Numeral.decimal n ++ rest) = unsigned? false (Numeral.decimal n ++ rest) := by
  obtain ⟨c, ds, hds⟩ := List.exists_cons_of_ne_nil (Numeral.decimal_ne_nil n)
  have hc : c.isDigit = true := Numeral.isDigit_of_mem_decimal (hds ▸ List.mem_cons_self)
  rw [hds, List.cons_append, number?, if_pos hc]
  rintro rfl
  exact absurd hc (by decide)

/-- **A whole number is read back**, where it fits and nothing goes on with it. -/
theorem number?_signed {i : Int} {rest : List Char} (hi : FitsWhole i) (hrest : EndsNumber rest) :
    number? (Numeral.signed i ++ rest) = some (.whole i, rest) := by
  unfold Numeral.signed
  obtain ⟨hlow, hhigh⟩ := hi
  split
  · rename_i hneg
    have habs : -(i.natAbs : Int) = i := by omega
    have hfits : i.natAbs ≤ Nat.pow 2 127 := by
      change i.natAbs ≤ 0x80000000000000000000000000000000
      omega
    refine unsigned?_decimal hrest ?_
    rw [whole?, if_pos rfl, if_pos hfits, habs]
  · rename_i hneg
    have habs : (i.natAbs : Int) = i := by omega
    have hfits : i.natAbs < Nat.pow 2 128 := by
      change i.natAbs < 0x100000000000000000000000000000000
      omega
    rw [number?_decimal]
    refine unsigned?_decimal hrest ?_
    rw [whole?, if_neg Bool.false_ne_true, if_pos hfits, habs]

end Json

end CallPatch
