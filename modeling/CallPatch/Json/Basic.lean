import CallPatch.Text.Numeral
/-!
# JSON values

The values a document is written from. A number is a whole one, and an object
keeps its fields in the order given, so that equal values are written alike.
-/

namespace CallPatch

/-- A value of a document. -/
inductive Json where
  | null
  | bool (value : Bool)
  | number (value : Int)
  | string (text : String)
  | array (items : List Json)
  | object (fields : List (String × Json))
  deriving Inhabited, Repr

namespace Json

/-- A number that is not negative. -/
def ofNat (n : Nat) : Json :=
  .number n

end Json

end CallPatch
