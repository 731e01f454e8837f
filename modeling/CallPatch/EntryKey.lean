/-!
# Entry keys — which call site is meant

A call site is named by its owner (a class-like artifact) and the member of
that owner the call stands in. The index tests for presence on the joined
text `owner#member`, so two different keys with one joined text are one
entry to it; the joined text alone decides.
-/

namespace CallPatch

/-- A member inside an owner: one candidate call site. -/
structure EntryKey where
  owner : String
  member : String
  deriving DecidableEq, Repr

namespace EntryKey

/-- Stands between owner and member in the joined text. -/
def separator : String := "#"

/-- The text an index tests for presence. -/
def joined (key : EntryKey) : String :=
  key.owner ++ separator ++ key.member

/-- Keys are ordered by owner, then by member, each by code point. -/
def le (a b : EntryKey) : Bool :=
  if a.owner = b.owner then !(b.member < a.member) else a.owner < b.owner

/-- The keys in ascending order, repeats kept. -/
def sort (keys : List EntryKey) : List EntryKey :=
  keys.mergeSort le

end EntryKey

/-- Joins an owner and a member without naming the key. -/
def joinKey (owner member : String) : String :=
  (EntryKey.mk owner member).joined

end CallPatch
