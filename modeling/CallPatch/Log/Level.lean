import CallPatch.Text.Numeral
/-!
# Log levels
-/

namespace CallPatch.Log

/-- How much is logged, each level with all those before it. -/
inductive Level where
  | off
  | error
  | warn
  | info
  | debug
  | trace
  deriving DecidableEq, Repr

namespace Level

/-- The words for the levels, from the most silent on. -/
def words : List (String × Level) :=
  [("off", .off), ("error", .error), ("warn", .warn), ("info", .info), ("debug", .debug),
   ("trace", .trace)]

/-- The place of a level, counted from 0. -/
def rank : Level → Nat
  | .off => 0
  | .error => 1
  | .warn => 2
  | .info => 3
  | .debug => 4
  | .trace => 5

/-- The level a text names, by its word in any case or by its place, with a plus sign in front or
none. -/
def ofText? (text : List Char) : Option Level :=
  match Numeral.integer? false text with
  | some place => (words[place.toNat]?).map Prod.snd
  | none => words.lookup (String.ofList (text.map Char.toLower))

/-- Whether a message of the second level is logged at the first. -/
def shows (set message : Level) : Bool :=
  message.rank ≤ set.rank

end Level

end CallPatch.Log
