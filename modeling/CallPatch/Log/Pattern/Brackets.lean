import CallPatch.Log.Pattern.Piece
/-!
# Log patterns — sets in brackets

A set of characters stands in brackets, by its elements: pieces, ranges,
named sets and sets in brackets of their own; operators join what stands
before them to what stands behind. Brackets that are open are held as a list.
Of what has been read, only the depth to which it nests is kept. A set that is
turned around is refused where the pattern speaks of bytes.
-/

namespace CallPatch.Log.Pattern

/-- The depth of parts side by side: one alone adds none. -/
def nested : List Nat → Nat
  | [] => 0
  | [depth] => depth
  | depths => depths.foldl max 0 + 1

/-- What has been read of a set in brackets. -/
structure Brackets where
  /-- The depth of what stands before the last operator. -/
  left : Option Nat
  /-- The depths of the elements behind it. -/
  elements : List Nat
  deriving DecidableEq, Repr

namespace Brackets

/-- The depth of the set so far. -/
def depth (b : Brackets) : Nat :=
  match b.left with
  | none => nested b.elements
  | some left => max left (nested b.elements) + 1

/-- One more element. -/
def add (b : Brackets) (depth : Nat) : Brackets :=
  { b with elements := depth :: b.elements }

/-- An operator: what has been read is its left side. -/
def operator (b : Brackets) : Brackets :=
  { left := some b.depth, elements := [] }

end Brackets

/-! ## Marks -/

/-- A step in brackets. -/
inductive Mark where
  | element
  | operator
  /-- The opening of brackets, with the elements they open with. -/
  | opening (inner : Brackets)
  | closing
  deriving DecidableEq, Repr

/-- The sets that have a name. -/
def setNames : List String :=
  ["alnum", "alpha", "ascii", "blank", "cntrl", "digit", "graph", "lower", "print", "punct",
   "space", "upper", "word", "xdigit"]

/-- The rest behind the name of a set, after its colon. -/
def setName? (cs : List Char) : Option (List Char) :=
  match cs.dropWhile (· ≠ ':') with
  | ':' :: ']' :: rest =>
    if setNames.contains (String.ofList (cs.takeWhile (· ≠ ':'))) then some rest else none
  | _ => none

/-- A named set after its bracket: whether it is turned around, and the rest behind it. -/
def namedSet? : List Char → Option (Bool × List Char)
  | ':' :: '^' :: rest => (setName? rest).map fun rest => (true, rest)
  | ':' :: rest => (setName? rest).map fun rest => (false, rest)
  | _ => none

/-- Whether a named set may stand in brackets. -/
def namedAllowed (m : Mode) (negated : Bool) : Bool :=
  if m.unicode then !m.caseless else !negated

/-- The mark that turns a set around, and the rest. -/
def turned (m : Mode) (cs : List Char) : Bool × List Char :=
  match m.skip cs with
  | '^' :: rest => (true, m.skip rest)
  | rest => (false, rest)

/-- The hyphens in front, each an element. -/
def hyphens (m : Mode) (cs : List Char) : List Nat × List Char :=
  match cs with
  | '-' :: rest => (0 :: (hyphens m (m.skip rest)).1, (hyphens m (m.skip rest)).2)
  | cs => ([], cs)
termination_by cs.length
decreasing_by all_goals exact Nat.lt_succ_of_le (m.length_skip_le _)

/-- The elements that stand only in front: hyphens, or one closing bracket. -/
def firstElements (m : Mode) (cs : List Char) : List Nat × List Char :=
  match cs with
  | ']' :: rest => ([0], rest)
  | cs => hyphens m cs

/-- What brackets open with, after the first of them. -/
def opening? (m : Mode) (cs : List Char) : Option (Brackets × List Char) :=
  let (negated, rest) := turned m cs
  let first := firstElements m rest
  if negated && !m.unicode then none
  else if first.1 ≠ [] && !(Piece.char '-' false).allowedInside m then none
  else some ({ left := none, elements := first.1 }, first.2)

/-- The character that decides whether the hyphen before it makes a range. Blank characters and one
number sign are passed over where they stand for nothing, unless nothing else is left. -/
def decider? (m : Mode) (cs : List Char) : Option Char :=
  if m.spaced then
    let rest := cs.dropWhile Text.isBlank
    let rest := if rest.head? = some '#' then (rest.drop 1).dropWhile Text.isBlank else rest
    rest.head?.or cs.head?
  else cs.head?

/-- Passes over a piece or a range in brackets. -/
def element? (m : Mode) (cs : List Char) : Option (List Char) :=
  match pieceInside? m cs with
  | none => none
  | some (low, rest) =>
    match m.skip rest with
    | '-' :: more =>
      if decider? m more = some ']' ∨ decider? m more = some '-' then
        if low.allowedInside m then some ('-' :: more) else none
      else
        match pieceInside? m (m.skip more) with
        | some (high, rest) => if low.allowedRange m high then some rest else none
        | none => none
    | rest => if low.allowedInside m then some rest else none

/-- The next step in brackets, where nothing is to be passed over. -/
def markHere? (m : Mode) (cs : List Char) : Option (Mark × List Char) :=
  match cs with
  | '[' :: rest =>
    match namedSet? rest with
    | some (negated, rest) => if namedAllowed m negated then some (.element, rest) else none
    | none => (opening? m rest).map fun (b, rest) => (.opening b, rest)
  | ']' :: rest => some (.closing, rest)
  | '&' :: '&' :: rest => some (.operator, rest)
  | '-' :: '-' :: rest => some (.operator, rest)
  | '~' :: '~' :: rest => some (.operator, rest)
  | cs => (element? m cs).map fun rest => (.element, rest)

/-- The next step in brackets. -/
def mark? (m : Mode) (cs : List Char) : Option (Mark × List Char) :=
  markHere? m (m.skip cs)

/-- The name of a set takes at least the colon and the bracket behind it. -/
theorem length_lt_of_setName? {cs rest : List Char} (h : setName? cs = some rest) :
    rest.length < cs.length := by
  have hle := (List.dropWhile_suffix (· ≠ ':') (l := cs)).length_le
  simp only [setName?] at h
  split at h
  · rename_i more hdrop
    rw [hdrop] at hle
    split at h
    · simp only [Option.some.injEq] at h
      subst h
      simp only [List.length_cons] at hle
      omega
    · cases h
  · cases h

/-- A named set takes its name and the colon in front. -/
theorem length_lt_of_namedSet? {cs rest : List Char} {negated : Bool}
    (h : namedSet? cs = some (negated, rest)) : rest.length < cs.length := by
  unfold namedSet? at h
  split at h
  case h_3 => cases h
  all_goals
    simp only [Option.map_eq_some_iff, Prod.mk.injEq] at h
    obtain ⟨_, hname, -, rfl⟩ := h
    have := length_lt_of_setName? hname
    simp only [List.length_cons]
    omega

theorem length_turned_le (m : Mode) (cs : List Char) : (turned m cs).2.length ≤ cs.length := by
  have h1 := m.length_skip_le cs
  unfold turned
  split
  · rename_i rest hrest
    have h2 := m.length_skip_le rest
    rw [hrest, List.length_cons] at h1
    exact Nat.le_trans h2 (Nat.le_of_succ_le h1)
  · exact h1

theorem length_hyphens_le (m : Mode) (cs : List Char) : (hyphens m cs).2.length ≤ cs.length := by
  fun_induction hyphens m cs with
  | case1 rest ih =>
    exact Nat.le_succ_of_le (Nat.le_trans ih (m.length_skip_le rest))
  | case2 => exact Nat.le_refl _

/-- The elements that may only stand first need not be there. -/
theorem length_firstElements_le (m : Mode) (cs : List Char) :
    (firstElements m cs).2.length ≤ cs.length := by
  unfold firstElements
  split
  · exact Nat.le_succ _
  · exact length_hyphens_le m _

/-- An opening may take nothing behind its bracket. -/
theorem length_le_of_opening? {m : Mode} {cs rest : List Char} {b : Brackets}
    (h : opening? m cs = some (b, rest)) : rest.length ≤ cs.length := by
  simp only [opening?] at h
  split at h
  · cases h
  · split at h
    · cases h
    · simp only [Option.some.injEq, Prod.mk.injEq] at h
      rw [← h.2]
      exact Nat.le_trans (length_firstElements_le m _) (length_turned_le m cs)

/-- A range takes its hyphen and both ends, a piece by itself at least itself. -/
theorem length_lt_of_element? {m : Mode} {cs rest : List Char} (h : element? m cs = some rest) :
    rest.length < cs.length := by
  unfold element? at h
  split at h
  · cases h
  · rename_i low rest' hlow
    have h1 := length_lt_of_pieceInside? hlow
    have h2 := m.length_skip_le rest'
    split at h
    -- a hyphen: either it stands for itself, or a second piece is the end of a range
    · rename_i more hmore
      rw [hmore] at h2
      split at h
      · split at h
        · cases h
          omega
        · cases h
      · split at h
        · rename_i high rest'' hhigh
          have h3 := length_lt_of_pieceInside? hhigh
          have h4 := m.length_skip_le more
          split at h
          · cases h
            simp only [List.length_cons] at h2
            omega
          · cases h
        · cases h
    · split at h
      · cases h
        omega
      · cases h

/-- Every step in brackets takes something. -/
theorem length_lt_of_markHere? {m : Mode} {cs rest : List Char} {k : Mark}
    (h : markHere? m cs = some (k, rest)) : rest.length < cs.length := by
  unfold markHere? at h
  split at h
  · split at h
    · rename_i hset
      split at h
      · simp only [Option.some.injEq, Prod.mk.injEq] at h
        rw [← h.2]
        exact Nat.lt_succ_of_lt (length_lt_of_namedSet? hset)
      · cases h
    · simp only [Option.map_eq_some_iff, Prod.mk.injEq] at h
      obtain ⟨⟨b, rest'⟩, hb, -, rfl⟩ := h
      exact Nat.lt_succ_of_le (length_le_of_opening? hb)
  case h_6 =>
    simp only [Option.map_eq_some_iff, Prod.mk.injEq] at h
    obtain ⟨rest', hrest, -, rfl⟩ := h
    exact length_lt_of_element? hrest
  all_goals
    cases h
    simp only [List.length_cons]
    omega

/-- So it is where something is passed over before the step. -/
theorem length_lt_of_mark? {m : Mode} {cs rest : List Char} {k : Mark}
    (h : mark? m cs = some (k, rest)) : rest.length < cs.length :=
  Nat.lt_of_lt_of_le (length_lt_of_markHere? h) (m.length_skip_le cs)

/-! ## Sets -/

/-- The rest of brackets, and the depth of the whole. Around the innermost stand those in `outer`,
from the inside out. -/
def bracketsOnto? (m : Mode) (inner : Brackets) (outer : List Brackets) (cs : List Char) :
    Option (Nat × List Char) :=
  match _h : mark? m cs with
  | none => none
  | some (.element, rest) => bracketsOnto? m (inner.add 0) outer rest
  | some (.operator, rest) => bracketsOnto? m inner.operator outer rest
  | some (.opening b, rest) => bracketsOnto? m b (inner :: outer) rest
  | some (.closing, rest) =>
    match outer with
    | [] => some (inner.depth + 1, rest)
    | b :: outer => bracketsOnto? m (b.add (inner.depth + 1)) outer rest
termination_by cs.length
decreasing_by all_goals exact length_lt_of_mark? _h

/-- A set in brackets, after the first of them. -/
def brackets? (m : Mode) (cs : List Char) : Option (Nat × List Char) :=
  (opening? m cs).bind fun (b, rest) => bracketsOnto? m b [] rest

/-- Each step leaves less, and the bracket that closes the outermost leaves the rest. -/
theorem length_lt_of_bracketsOnto? {m : Mode} {inner : Brackets} {outer : List Brackets}
    {cs rest : List Char} {depth : Nat}
    (h : bracketsOnto? m inner outer cs = some (depth, rest)) : rest.length < cs.length := by
  fun_induction bracketsOnto? m inner outer cs with
  | case1 => cases h
  | case2 _ _ _ _ hmark ih => exact Nat.lt_trans (ih h) (length_lt_of_mark? hmark)
  | case3 _ _ _ _ hmark ih => exact Nat.lt_trans (ih h) (length_lt_of_mark? hmark)
  | case4 _ _ _ _ _ hmark ih => exact Nat.lt_trans (ih h) (length_lt_of_mark? hmark)
  | case5 _ _ _ hmark =>
    cases h
    exact length_lt_of_mark? hmark
  | case6 _ _ _ hmark _ _ ih => exact Nat.lt_trans (ih h) (length_lt_of_mark? hmark)

/-- A set takes at least the bracket that closes it. -/
theorem length_lt_of_brackets? {m : Mode} {cs rest : List Char} {depth : Nat}
    (h : brackets? m cs = some (depth, rest)) : rest.length < cs.length := by
  simp only [brackets?, Option.bind_eq_some_iff] at h
  obtain ⟨⟨b, rest'⟩, hopen, hrest⟩ := h
  exact Nat.lt_of_lt_of_le (length_lt_of_bracketsOnto? hrest) (length_le_of_opening? hopen)

end CallPatch.Log.Pattern
