import CallPatch.Text.Blank
/-!
# Log patterns — modes

A pattern is a regular expression. Flags in it choose how the characters that
follow are taken. Three of them change which patterns there are: whether blank
characters and comments stand for nothing, whether case is ignored, and
whether the pattern speaks of characters or of bytes.
-/

namespace CallPatch.Log.Pattern

/-- How the characters of a pattern are taken. -/
structure Mode where
  /-- Blank characters and comments stand for nothing. -/
  spaced : Bool
  /-- A letter stands for both its cases. -/
  caseless : Bool
  /-- The pattern speaks of characters, not of bytes. -/
  unicode : Bool
  deriving DecidableEq, Repr

namespace Mode

/-- How a pattern is taken at first. -/
def plain : Mode :=
  { spaced := false, caseless := false, unicode := true }

/-- The flags there are: for case, lines, points, greed, characters, line ends and blanks. -/
def flags : List Char :=
  ['i', 'm', 's', 'U', 'u', 'R', 'x']

/-- The text is a run of flags, none of them twice. Those behind a minus sign are cleared. -/
def isFlags (text : List Char) : Bool :=
  text.all (fun c => c = '-' || flags.contains c) && decide text.Nodup
    && text.getLast? ≠ some '-'

/-- The mode after a run of flags. -/
def change (m : Mode) (text : List Char) : Mode :=
  let flag (c : Char) (old : Bool) :=
    (text.takeWhile (· ≠ '-')).contains c || (old && !text.contains c)
  { spaced := flag 'x' m.spaced, caseless := flag 'i' m.caseless, unicode := flag 'u' m.unicode }

/-- Passes over blank characters and comments, which run from a number sign to the end of their
line. At the start a comment is open or not. -/
def dropBlank (comment : Bool) : List Char → List Char
  | [] => []
  | c :: rest =>
    if comment then dropBlank (c ≠ '\n') rest
    else if c = '#' then dropBlank true rest
    else if Text.isBlank c then dropBlank false rest
    else c :: rest

/-- Passes over what stands for nothing. -/
def skip (m : Mode) (cs : List Char) : List Char :=
  if m.spaced then dropBlank false cs else cs

theorem length_dropBlank_le (comment : Bool) (cs : List Char) :
    (dropBlank comment cs).length ≤ cs.length := by
  fun_induction dropBlank comment cs with
  | case1 => exact Nat.le_refl _
  | case2 _ _ ih => exact Nat.le_succ_of_le ih
  | case3 _ _ _ ih => exact Nat.le_succ_of_le ih
  | case4 _ _ _ _ _ _ ih => exact Nat.le_succ_of_le ih
  | case5 => exact Nat.le_refl _

/-- Passing over blanks and comments adds nothing. -/
theorem length_skip_le (m : Mode) (cs : List Char) : (m.skip cs).length ≤ cs.length := by
  unfold skip
  split
  · exact length_dropBlank_le false cs
  · exact Nat.le_refl _

end Mode

end CallPatch.Log.Pattern
