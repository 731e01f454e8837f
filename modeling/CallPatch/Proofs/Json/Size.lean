import CallPatch.Json.Printer
import CallPatch.Text.Utf8
import Mathlib.Data.List.Forall2
/-!
# JSON — how many bytes a value takes

What is written for a value grows with its parts. An array takes no less for
larger items and no less for more of them, and an object takes no less for
larger values under the same keys.
-/

namespace CallPatch

/-- Texts side by side take the bytes of both. -/
theorem Utf8.length_encode_append (cs ds : List Char) :
    (encode (cs ++ ds)).length = (encode cs).length + (encode ds).length := by
  simp [encode]

/-- Each character takes its own bytes. -/
theorem Utf8.length_encode_cons (c : Char) (cs : List Char) :
    (encode (c :: cs)).length = c.utf8Size + (encode cs).length := by
  simp [encode]

namespace Json

open Utf8 (encode length_encode_append length_encode_cons)

/-- The bytes of the compact form. -/
def size (v : Json) : Nat :=
  (encode (render v)).length

/-- The bytes of the items behind the first, and of the end of the array. -/
def itemsSize (items : List Json) : Nat :=
  (encode (renderItems items)).length

/-- The bytes of the fields behind the first, and of the end of the object. -/
def fieldsSize (fields : List (String × Json)) : Nat :=
  (encode (renderFields fields)).length

variable {v w : Json} {items items' : List Json} {fields fields' : List (String × Json)}

theorem itemsSize_nil : itemsSize [] = 1 := by
  decide

/-- An item takes its own bytes and one for the sign in front of it. -/
theorem itemsSize_cons (v : Json) (items : List Json) :
    itemsSize (v :: items) = 1 + size v + itemsSize items := by
  have hcomma : (',' : Char).utf8Size = 1 := by decide
  simp only [itemsSize, renderItems, length_encode_cons, length_encode_append, size, hcomma]
  omega

theorem size_array_nil : size (.array []) = 2 := by
  decide

theorem size_array_cons (v : Json) (items : List Json) :
    size (.array (v :: items)) = itemsSize (v :: items) := by
  have hopen : ('[' : Char).utf8Size = (',' : Char).utf8Size := by decide
  simp only [size, itemsSize, render, renderItems, length_encode_cons, hopen]

/-- A field takes those of its key and its value, one for the colon and one for the sign in front.
-/
theorem fieldsSize_cons (k : String) (v : Json) (fields : List (String × Json)) :
    fieldsSize ((k, v) :: fields) =
      2 + (encode (quoted k)).length + size v + fieldsSize fields := by
  have hcomma : (',' : Char).utf8Size = 1 := by decide
  have hcolon : (':' : Char).utf8Size = 1 := by decide
  simp only [fieldsSize, renderFields, length_encode_cons, length_encode_append, size, hcomma,
    hcolon]
  omega

theorem size_object_cons (p : String × Json) (fields : List (String × Json)) :
    size (.object (p :: fields)) = fieldsSize (p :: fields) := by
  have hopen : ('{' : Char).utf8Size = (',' : Char).utf8Size := by decide
  simp only [size, fieldsSize, render, renderFields, length_encode_cons, hopen]

/-! ## Larger parts -/

/-- Items that are no longer one by one are no longer together. -/
theorem itemsSize_le (h : List.Forall₂ (fun v w => size v ≤ size w) items items') :
    itemsSize items ≤ itemsSize items' := by
  induction h with
  | nil => exact Nat.le_refl _
  | cons hv _ ih =>
    rw [itemsSize_cons, itemsSize_cons]
    omega

/-- **Larger items make a larger array.** -/
theorem size_array_le (h : List.Forall₂ (fun v w => size v ≤ size w) items items') :
    size (.array items) ≤ size (.array items') := by
  cases h with
  | nil => exact Nat.le_refl _
  | cons hv hrest =>
    rw [size_array_cons, size_array_cons]
    exact itemsSize_le (.cons hv hrest)

/-- Fewer items are no longer. -/
theorem itemsSize_le_of_sublist (h : items.Sublist items') :
    itemsSize items ≤ itemsSize items' := by
  induction h with
  | slnil => exact Nat.le_refl _
  | cons v _ ih =>
    rw [itemsSize_cons]
    omega
  | cons_cons v _ ih =>
    rw [itemsSize_cons, itemsSize_cons]
    omega

/-- **More items make a larger array.** -/
theorem size_array_le_of_sublist (h : items.Sublist items') :
    size (.array items) ≤ size (.array items') := by
  match items, items', h with
  | [], [], _ => exact Nat.le_refl _
  | [], w :: items', _ =>
    have hend := itemsSize_le_of_sublist (List.nil_sublist items')
    rw [itemsSize_nil] at hend
    rw [size_array_nil, size_array_cons, itemsSize_cons]
    omega
  | v :: items, w :: items', h =>
    rw [size_array_cons, size_array_cons]
    exact itemsSize_le_of_sublist h

/-- **Larger values make a larger object.** -/
theorem size_object_le
    (h : List.Forall₂ (fun p q => p.1 = q.1 ∧ size p.2 ≤ size q.2) fields fields') :
    size (.object fields) ≤ size (.object fields') := by
  have hfields : fieldsSize fields ≤ fieldsSize fields' := by
    induction h with
    | nil => exact Nat.le_refl _
    | cons hp _ ih =>
      obtain ⟨hkey, hvalue⟩ := hp
      rw [fieldsSize_cons, fieldsSize_cons, hkey]
      omega
  cases h with
  | nil => exact Nat.le_refl _
  | cons hp hrest =>
    rw [size_object_cons, size_object_cons]
    exact hfields

end Json

end CallPatch
