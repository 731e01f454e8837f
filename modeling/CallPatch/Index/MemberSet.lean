import CallPatch.Text.Order
/-!
# Member sets

The members of one owner that wait to be processed. A set holds each member
once; it is listed in the order of the texts.
-/

namespace CallPatch

/-- The waiting members of one owner. `insert` keeps `members` free of repeats. -/
structure MemberSet where
  owner : String
  members : List String
  deriving DecidableEq, Repr

namespace MemberSet

/-- No member is waiting. -/
def empty (owner : String) : MemberSet :=
  { owner, members := [] }

/-- Whether the member is waiting. -/
def contains (s : MemberSet) (member : String) : Bool :=
  s.members.contains member

/-- Adds a member, and says whether it was new. -/
def insert (s : MemberSet) (member : String) : MemberSet × Bool :=
  if s.contains member then (s, false) else ({ s with members := s.members ++ [member] }, true)

/-- The members in order. -/
def toList (s : MemberSet) : List String :=
  Text.sort s.members

/-- Empties the set, and returns what was in it. -/
def drain (s : MemberSet) : MemberSet × List String :=
  (empty s.owner, s.toList)

/-- The members in order, unless there are none. -/
def snapshot? (s : MemberSet) : Option (List String) :=
  if s.members = [] then none else some s.toList

end MemberSet

end CallPatch
