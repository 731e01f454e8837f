import CallPatch.Text.Shortest
/-!
# JSON — values without parts

What a document holds where it holds no array and no object, and what is made
of it where a text or a whole number is wanted. A text is wanted: numbers give
their decimal text. A whole number is wanted: a text that is a numeral gives
it, and so does the decimal text of a number, so that a number with a fraction
or an exponent counts as whole exactly when its shortest text is a numeral.
-/

namespace CallPatch.Json

/-- A value without parts. A number is whole, or `± coefficient · 10^exponent` where the document
writes it with a point or an exponent. -/
inductive Scalar where
  | null
  | bool (value : Bool)
  | whole (value : Int)
  | decimal (negative : Bool) (coefficient : Nat) (exponent : Int)
  | string (text : String)
  deriving DecidableEq, Repr

namespace Scalar

/-- The text of a number with a point or an exponent: that of the nearest binary64 number. -/
def decimalText (negative : Bool) (coefficient : Nat) (exponent : Int) : List Char :=
  (if negative then ['-'] else []) ++ (Binary64.ofDecimal coefficient exponent).render

/-- The text meant: a null is the empty one. -/
def text? : Scalar → Option String
  | .null => some ""
  | .bool _ => none
  | .whole i => some (String.ofList (Numeral.signed i))
  | .decimal negative c e => some (String.ofList (decimalText negative c e))
  | .string s => some s

/-- The whole number from `low` to `high` that is meant: a null is zero, and a minus sign is read
only where `low` is negative. -/
def integer? (low high : Int) (v : Scalar) : Option Int :=
  let value := match v with
    | .null => some 0
    | .bool _ => none
    | .whole i => some i
    | .decimal negative c e => Numeral.integer? (low < 0) (decimalText negative c e)
    | .string s => Numeral.integer? (low < 0) s.toList
  value.filter fun i => low ≤ i && i ≤ high

end Scalar

end CallPatch.Json
