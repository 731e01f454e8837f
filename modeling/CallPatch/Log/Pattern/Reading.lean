import CallPatch.Log.Pattern.Sign
/-!
# Log patterns — reading

Which texts are patterns. A text is read sign by sign, with the groups that
are open held as a list. Of what has been read, only the depth to which it
nests is kept: it must not exceed 250. Flags hold to the end of the group they
stand in.
-/

namespace CallPatch.Log.Pattern

/-- A part of a branch: how deep it nests, and whether it can be repeated. -/
structure Part where
  depth : Nat
  repeatable : Bool
  deriving DecidableEq, Repr

/-- What has been read of a group, or of the whole pattern. -/
structure Group where
  mode : Mode
  /-- The depths of the branches before the last one. -/
  branches : List Nat
  /-- The parts of the last branch, the last of them first. -/
  parts : List Part
  deriving DecidableEq, Repr

namespace Group

/-- A group of which nothing has been read. -/
def ofMode (mode : Mode) : Group :=
  { mode, branches := [], parts := [] }

/-- The depth of the last branch. -/
def branch (g : Group) : Nat :=
  nested (g.parts.map Part.depth)

/-- The depth of what the group holds. -/
def depth (g : Group) : Nat :=
  nested (g.branch :: g.branches)

/-- One more part. -/
def add (g : Group) (part : Part) : Group :=
  { g with parts := part :: g.parts }

/-- Flags count as a part that cannot be repeated. -/
def addFlags (g : Group) (mode : Mode) : Group :=
  { g with mode, parts := { depth := 0, repeatable := false } :: g.parts }

/-- The next branch. -/
def nextBranch (g : Group) : Group :=
  { g with branches := g.branch :: g.branches, parts := [] }

/-- The last part repeated, if it can be. -/
def repeatLast? (g : Group) : Option Group :=
  match g.parts with
  | [] => none
  | part :: parts =>
    if part.repeatable then
      some { g with parts := { depth := part.depth + 1, repeatable := true } :: parts }
    else none

end Group

/-- What has been read of a pattern. -/
structure State where
  /-- The innermost open group. -/
  inner : Group
  /-- Those around it, from the inside out. -/
  outer : List Group
  /-- The names of the groups. -/
  names : List (List Char)
  deriving DecidableEq, Repr

namespace State

/-- Nothing has been read. -/
def start : State :=
  { inner := .ofMode .plain, outer := [], names := [] }

/-- Takes a sign. No two groups have the same name. -/
def take? (s : State) : Sign → Option State
  | .part depth => some { s with inner := s.inner.add { depth, repeatable := true } }
  | .flags mode => some { s with inner := s.inner.addFlags mode }
  | .alternative => some { s with inner := s.inner.nextBranch }
  | .repetition => s.inner.repeatLast?.map fun inner => { s with inner }
  | .opening mode name =>
    if name.any s.names.contains then none
    else
      some { inner := .ofMode mode, outer := s.inner :: s.outer, names := name.toList ++ s.names }
  | .closing =>
    match s.outer with
    | [] => none
    | g :: outer =>
      some { s with inner := g.add { depth := s.inner.depth + 1, repeatable := true }, outer }

/-- Reads on to the end of the text. -/
def read? (s : State) (cs : List Char) : Option State :=
  if s.inner.mode.skip cs = [] then some s
  else
    match _h : sign? s.inner.mode (s.inner.mode.skip cs) with
    | none => none
    | some (sign, rest) =>
      match s.take? sign with
      | none => none
      | some s => s.read? rest
termination_by cs.length
decreasing_by exact Nat.lt_of_lt_of_le (length_lt_of_sign? _h) (Mode.length_skip_le _ cs)

end State

/-- How deep a pattern may nest. -/
def maxDepth : Nat := 250

/-- The text is a pattern: every group ends, and it does not nest too deep. -/
def isPattern (text : List Char) : Bool :=
  (State.start.read? text).any fun s => s.outer.isEmpty && s.inner.depth ≤ maxDepth

end CallPatch.Log.Pattern
