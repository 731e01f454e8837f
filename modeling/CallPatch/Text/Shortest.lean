import CallPatch.Text.Binary64
/-!
# The shortest decimal of a binary number

A number is written with the fewest decimal digits that still stand for it,
and among those with the digits nearest to it. The decimals that stand for
`m · 2^q` fill the interval from halfway to the number below to halfway to
the number above, ends included where `m` is even. On each grid of decimals,
coarsest first, only the two neighbours of the number have to be tried: if a
decimal of the grid lies in the interval, one of them does. The text is
positional, whatever its length.
-/

namespace CallPatch.Binary64

/-- What a multiple of `10^k` is multiplied by to be compared in quarters of `2^q`. -/
def gridUnit (q k : Int) : Nat :=
  Nat.pow 10 k.toNat * Nat.pow 2 (2 - q).toNat

/-- What a quarter of `2^q` is multiplied by to be compared with multiples of `10^k`. -/
def quarterUnit (q k : Int) : Nat :=
  Nat.pow 2 (q - 2).toNat * Nat.pow 10 (-k).toNat

/-- The lower end of the interval, in quarters of `2^q`. Below a power of two the numbers lie
twice as close. -/
def lowerEnd (m : Nat) (q : Int) : Nat :=
  if m = leastFull ∧ q ≠ leastExponent then 4 * m - 1 else 4 * m - 2

/-- The upper end of the interval, in quarters of `2^q`. -/
def upperEnd (m : Nat) : Nat :=
  4 * m + 2

/-- Whether `a` does not exceed `b`, or stays below where the ends are left out. -/
def within (m a b : Nat) : Bool :=
  if m % 2 = 0 then a ≤ b else a < b

/-- The multiple of `10^k` that stands for `m · 2^q`, if there is one: the nearer of the two
neighbours, the upper one where both are equally near. -/
def onGrid? (m : Nat) (q k : Int) : Option Nat :=
  let grid := gridUnit q k
  let quarter := quarterUnit q k
  let d := 4 * m * quarter / grid
  let down := within m (lowerEnd m q * quarter) (d * grid)
  let up := within m ((d + 1) * grid) (upperEnd m * quarter)
  if down && (!up || decide (8 * m * quarter < (2 * d + 1) * grid)) then some d
  else if up then some (d + 1)
  else none

/-- The least `k` with `m · 2^q < 10^k`, for a number that is not zero. None is below `10^-330`. -/
def decimalScale (m : Nat) (q : Int) : Int :=
  let shifted := m * Nat.pow 2 q.toNat * Nat.pow 10 330 / Nat.pow 2 (-q).toNat
  (Numeral.decimal shifted).length - 330

/-- The decimal `d · 10^k` of `count` digits that stands for `m · 2^q`, if there is one. -/
def withDigits? (m : Nat) (q scale : Int) (count : Nat) : Option (Nat × Int) :=
  (onGrid? m q (scale - count)).map fun d => (d, scale - count)

/-- The decimal `d · 10^k` with the fewest digits that stands for `m · 2^q`. Seventeen digits
always suffice; the exact value behind them only makes the search total. -/
def shortest (m : Nat) (q : Int) : Nat × Int :=
  ((List.range' 1 17).findSome? (withDigits? m q (decimalScale m q))).getD
    (m * Nat.pow 2 q.toNat * Nat.pow 5 (-q).toNat, min q 0)

/-- The positional text of `d · 10^k`, without zeros behind the last digit after the point. -/
def positional (d : Nat) (k : Int) : List Char :=
  let digits := Numeral.decimal d
  if 0 ≤ k then digits ++ List.replicate k.toNat '0'
  else
    let places := (-k).toNat
    let digits := List.replicate (places + 1 - digits.length) '0' ++ digits
    let whole := digits.take (digits.length - places)
    let fraction := (digits.drop (digits.length - places)).reverse.dropWhile (· = '0')
    if fraction = [] then whole else whole ++ '.' :: fraction.reverse

/-- The text of a number. -/
def render : Binary64 → List Char
  | .infinite => ['i', 'n', 'f']
  | .finite 0 _ => ['0']
  | .finite m q => positional (shortest m q).1 (shortest m q).2

end CallPatch.Binary64
