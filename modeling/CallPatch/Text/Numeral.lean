/-!
# Numerals

Decimal and hexadecimal writing of whole numbers, and the ways they are read
back: runs of digits, and a signed numeral that may open with a sign.
-/

namespace CallPatch.Numeral

/-- The decimal digits of a number, without leading zeros. -/
def decimal (n : Nat) : List Char :=
  Nat.toDigits 10 n

/-- The number a run of decimal digits denotes. -/
def ofDigits (ds : List Char) : Nat :=
  Nat.ofDigitChars 10 ds 0

/-- A number is read back from its digits. -/
theorem ofDigits_decimal (n : Nat) : ofDigits (decimal n) = n :=
  Nat.ofDigitChars_toDigits (by decide) (by decide)

/-- A number is written in digits alone. -/
theorem isDigit_of_mem_decimal {n : Nat} {c : Char} (h : c ∈ decimal n) : c.isDigit = true :=
  Nat.isDigit_of_mem_toDigits (by decide) (by decide) h

theorem decimal_ne_nil (n : Nat) : decimal n ≠ [] := by
  have h : 0 < (decimal n).length := Nat.length_toDigits_pos
  exact List.length_pos_iff.1 h

/-- A number behind a stem, as in `m3`. -/
def numbered (stem : String) (n : Nat) : String :=
  stem ++ String.ofList (decimal n)

/-- A minus sign where the number is negative, then the digits. -/
def signed (i : Int) : List Char :=
  if i < 0 then '-' :: decimal i.natAbs else decimal i.natAbs

/-- The last `width` hexadecimal digits of a number, in lower case, filled up with zeros. -/
def hex : (width : Nat) → Nat → List Char
  | 0, _ => []
  | width + 1, n => hex width (n / 16) ++ [Nat.digitChar (n % 16)]

/-- The value of a hexadecimal digit in either case. -/
def hexValue? (c : Char) : Option Nat :=
  if c.isDigit then some (c.toNat - '0'.toNat)
  else if 'a' ≤ c ∧ c ≤ 'f' then some (c.toNat - 'a'.toNat + 10)
  else if 'A' ≤ c ∧ c ≤ 'F' then some (c.toNat - 'A'.toNat + 10)
  else none

/-- A run of hexadecimal digits, read as a number. -/
def hexNatural? (cs : List Char) : Option Nat :=
  cs.foldlM (fun n c => (hexValue? c).map fun d => n * 16 + d) 0

/-- A non-empty run of decimal digits, read as a number. -/
def natural? (cs : List Char) : Option Nat :=
  if cs ≠ [] ∧ cs.all Char.isDigit then some (ofDigits cs) else none

/-- A numeral that may open with `+`, and with `-` too where `negatives` are allowed. -/
def integer? (negatives : Bool) (cs : List Char) : Option Int :=
  match cs with
  | '+' :: rest => (natural? rest).map Int.ofNat
  | '-' :: rest => if negatives then (natural? rest).map fun n => -Int.ofNat n else none
  | _ => (natural? cs).map Int.ofNat

end CallPatch.Numeral
