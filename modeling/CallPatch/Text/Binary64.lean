import CallPatch.Text.Numeral
/-!
# Binary floating point

A decimal `c · 10^e` stands for the binary64 number nearest to it, the one
with the even significand where two are equally near, and for infinity where
it is too large for every number. All of it is exact arithmetic on natural
numbers; the sign is left to the caller.
-/

namespace CallPatch

/-- A binary64 number without its sign. A finite one is `significand · 2^exponent`. -/
inductive Binary64 where
  | finite (significand : Nat) (exponent : Int)
  | infinite
  deriving DecidableEq, Repr

namespace Binary64

/-- No number is finer than `2^-1074`. -/
def leastExponent : Int := -1074

/-- No number has a significand of 53 bits above `2^971`. -/
def greatestExponent : Int := 971

/-- The least significand of 53 bits. -/
def leastFull : Nat := Nat.pow 2 52

/-- Zero. -/
def zero : Binary64 :=
  .finite 0 leastExponent

/-- The quotient rounded to the nearest whole number, a half going to the even neighbour. -/
def roundHalfEven (num den : Nat) : Nat :=
  let q := num / den
  let r := num % den
  if 2 * r < den then q
  else if den < 2 * r then q + 1
  else if q % 2 = 0 then q else q + 1

/-- The greatest `t` with `2^t ≤ num / den`, for positive `num` and `den`. -/
def floorLog2 (num den : Nat) : Int :=
  let t : Int := (num.log2 : Int) - (den.log2 : Int)
  if den * Nat.pow 2 t.toNat ≤ num * Nat.pow 2 (-t).toNat then t else t - 1

/-- The exponent that leaves a significand of 53 bits, or fewer at the lower end. -/
def scaleOf (num den : Nat) : Int :=
  max (floorLog2 num den - 52) leastExponent

/-- The number with that significand, of 53 bits at most or one more than they can hold. -/
def ofSignificand (significand : Nat) (exponent : Int) : Binary64 :=
  let carried := significand = 2 * leastFull
  let exponent := if carried then exponent + 1 else exponent
  if greatestExponent < exponent then .infinite
  else .finite (if carried then leastFull else significand) exponent

/-- The number nearest to `num / den`, both positive. -/
def ofRatio (num den : Nat) : Binary64 :=
  let scale := scaleOf num den
  ofSignificand (roundHalfEven (num * Nat.pow 2 (-scale).toNat) (den * Nat.pow 2 scale.toNat)) scale

/-- The number nearest to `c · 10^e`. From `10^310` on there is only infinity, and below `10^-330`
the nearest one is zero. -/
def ofDecimal (c : Nat) (e : Int) : Binary64 :=
  let digits : Int := (Numeral.decimal c).length
  if c = 0 then zero
  else if 310 < digits + e then .infinite
  else if digits + e < -330 then zero
  else ofRatio (c * Nat.pow 10 e.toNat) (Nat.pow 10 (-e).toNat)

end Binary64

end CallPatch
