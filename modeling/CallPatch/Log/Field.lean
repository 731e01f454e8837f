import CallPatch.Log.Pattern.Reading
/-!
# Log fields

What a directive of a log filter asks of the fields of a message: that there
is one of some name, or that it has a value. The value is a number, or else a
pattern. A text is cut at its equals signs, and what stands behind a second one
counts for nothing.
-/

namespace CallPatch.Log

/-- A field asked for. -/
structure Field where
  name : List Char
  value : Option (List Char)
  deriving DecidableEq, Repr

namespace Field

/-- The text without a sign in front. -/
def dropSign : List Char → List Char
  | '+' :: rest => rest
  | '-' :: rest => rest
  | cs => cs

/-- The text is empty, or the mark of an exponent with digits behind it, signed or not. -/
def isExponent : List Char → Bool
  | [] => true
  | mark :: rest =>
    (mark = 'e' || mark = 'E') && (Numeral.natural? (dropSign rest)).isSome

/-- The text is a number without a sign: digits with a point anywhere or none, then an exponent or
none. -/
def isUnsigned (cs : List Char) : Bool :=
  let whole := cs.takeWhile Char.isDigit
  match cs.dropWhile Char.isDigit with
  | '.' :: rest =>
    (whole ≠ [] || rest.takeWhile Char.isDigit ≠ []) && isExponent (rest.dropWhile Char.isDigit)
  | rest => whole ≠ [] && isExponent rest

/-- The words for what is no finite number. -/
def words : List String :=
  ["inf", "infinity", "nan"]

/-- The text is a number or a word of that kind in any case, with a sign or none. -/
def isNumber (cs : List Char) : Bool :=
  words.contains (String.ofList ((dropSign cs).map Char.toLower)) || isUnsigned (dropSign cs)

/-- The field that a text asks for; the empty one asks for none. -/
def ofText? (text : List Char) : Option Field :=
  if text = [] then none
  else
    match text.splitOn '=' with
    | name :: value :: _ =>
      if isNumber value || Pattern.isPattern value then some { name, value := some value }
      else none
    | [name] => some { name, value := none }
    | [] => none

end Field

end CallPatch.Log
