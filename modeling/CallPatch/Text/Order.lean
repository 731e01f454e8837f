/-!
# Text order

Sets are written out in ascending order of their texts, compared code point
by code point. That is also the order of their UTF-8 bytes.
-/

namespace CallPatch.Text

/-- Whether `a` may stand before `b`. -/
def le (a b : String) : Bool := !(b < a)

/-- The texts in ascending order, repeats kept. -/
def sort (texts : List String) : List String :=
  texts.mergeSort le

/-- How many different values a list holds. -/
def countDistinct {α : Type} [DecidableEq α] (values : List α) : Nat :=
  values.eraseDups.length

end CallPatch.Text
