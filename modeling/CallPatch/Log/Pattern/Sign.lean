import CallPatch.Log.Pattern.Brackets
import CallPatch.Text.Letter
/-!
# Log patterns — signs

A pattern is a sequence of signs: pieces and sets, the opening and the end of
groups, flags, the bar between alternatives, and the marks that repeat what
stands before them. A count in braces would be one more such mark, but no
closing brace can stand in a pattern, so that an opening one is refused.
-/

namespace CallPatch.Log.Pattern

/-- A step outside of brackets. -/
inductive Sign where
  /-- A piece, or a set in brackets. -/
  | part (depth : Nat)
  /-- The opening of a group, with the mode inside and the name, if it has one. -/
  | opening (mode : Mode) (name : Option (List Char))
  /-- Flags for what is left of the group. -/
  | flags (mode : Mode)
  | closing
  | alternative
  | repetition
  deriving DecidableEq, Repr

/-- A group may have such a name. -/
def isGroupName : List Char → Bool
  | [] => false
  | c :: rest =>
    (c = '_' || Text.isLetter c)
      && rest.all fun c => ['_', '.', '[', ']'].contains c || Text.isLetterOrNumeral c

/-- The opening of a group with a name, after the angle bracket in front of the name. -/
def namedGroup? (m : Mode) (cs : List Char) : Option (Sign × List Char) :=
  let name := cs.takeWhile (· ≠ '>')
  match cs.dropWhile (· ≠ '>') with
  | _ :: rest => if isGroupName name then some (.opening m (some name), rest) else none
  | [] => none

/-- Flags end at a colon or at the end of their group. -/
def inFlags (c : Char) : Bool :=
  c ≠ ':' && c ≠ ')'

/-- The opening of a group with flags, or flags alone, after the question mark. -/
def flagGroup? (m : Mode) (cs : List Char) : Option (Sign × List Char) :=
  let text := cs.takeWhile inFlags
  match cs.dropWhile inFlags with
  | ':' :: rest => if Mode.isFlags text then some (.opening (m.change text) none, rest) else none
  | _ :: rest =>
    if Mode.isFlags text && text ≠ [] then some (.flags (m.change text), rest) else none
  | [] => none

/-- The opening of a group, after its parenthesis. -/
def group? (m : Mode) : List Char → Option (Sign × List Char)
  | '?' :: 'P' :: '<' :: rest => namedGroup? m rest
  | '?' :: '<' :: rest => namedGroup? m rest
  | '?' :: rest => flagGroup? m rest
  | cs => some (.opening m none, cs)

/-- The rest behind a mark that repeats. A question mark there makes it match as little as it
can. -/
def behindRepetition : List Char → List Char
  | '?' :: rest => rest
  | cs => cs

/-- The next sign, where nothing is to be passed over. -/
def sign? (m : Mode) : List Char → Option (Sign × List Char)
  | '(' :: rest => group? m (m.skip rest)
  | ')' :: rest => some (.closing, rest)
  | '|' :: rest => some (.alternative, rest)
  | '?' :: rest => some (.repetition, behindRepetition rest)
  | '*' :: rest => some (.repetition, behindRepetition rest)
  | '+' :: rest => some (.repetition, behindRepetition rest)
  | '{' :: _ => none
  | '[' :: rest => (brackets? m rest).map fun (depth, rest) => (.part depth, rest)
  | cs => (piece? m cs).bind fun (p, rest) => if p.allowed m then some (.part 0, rest) else none

/-- A name takes at least the bracket that closes it. -/
theorem length_lt_of_namedGroup? {m : Mode} {cs rest : List Char} {s : Sign}
    (h : namedGroup? m cs = some (s, rest)) : rest.length < cs.length := by
  have hle := (List.dropWhile_suffix (· ≠ '>') (l := cs)).length_le
  simp only [namedGroup?] at h
  split at h
  · rename_i hdrop
    rw [hdrop] at hle
    split at h
    · simp only [Option.some.injEq, Prod.mk.injEq] at h
      rw [← h.2]
      exact hle
    · cases h
  · cases h

/-- Flags take at least the colon or the parenthesis behind them. -/
theorem length_lt_of_flagGroup? {m : Mode} {cs rest : List Char} {s : Sign}
    (h : flagGroup? m cs = some (s, rest)) : rest.length < cs.length := by
  have hle := (List.dropWhile_suffix inFlags (l := cs)).length_le
  simp only [flagGroup?] at h
  split at h
  case h_3 => cases h
  all_goals
    rename_i hdrop
    rw [hdrop] at hle
    split at h
    · simp only [Option.some.injEq, Prod.mk.injEq] at h
      rw [← h.2]
      exact hle
    · cases h

/-- A group without a name and without flags takes nothing more than its parenthesis. -/
theorem length_le_of_group? {m : Mode} {cs rest : List Char} {s : Sign}
    (h : group? m cs = some (s, rest)) : rest.length ≤ cs.length := by
  unfold group? at h
  split at h
  · have := length_lt_of_namedGroup? h
    simp only [List.length_cons]
    omega
  · have := length_lt_of_namedGroup? h
    simp only [List.length_cons]
    omega
  · have := length_lt_of_flagGroup? h
    simp only [List.length_cons]
    omega
  · cases h
    exact Nat.le_refl _

/-- A mark that repeats may have a question mark behind it. -/
theorem length_behindRepetition_le (cs : List Char) :
    (behindRepetition cs).length ≤ cs.length := by
  unfold behindRepetition
  split
  · exact Nat.le_succ _
  · exact Nat.le_refl _

/-- **Every sign takes something**, so that reading a pattern sign by sign ends. -/
theorem length_lt_of_sign? {m : Mode} {cs rest : List Char} {s : Sign}
    (h : sign? m cs = some (s, rest)) : rest.length < cs.length := by
  unfold sign? at h
  split at h
  case h_1 rest' =>
    exact Nat.lt_succ_of_le (Nat.le_trans (length_le_of_group? h) (m.length_skip_le rest'))
  case h_2 =>
    cases h
    exact Nat.lt_succ_self _
  case h_3 =>
    cases h
    exact Nat.lt_succ_self _
  case h_7 => cases h
  -- a set in brackets
  case h_8 =>
    simp only [Option.map_eq_some_iff, Prod.mk.injEq] at h
    obtain ⟨⟨depth, rest'⟩, hb, -, rfl⟩ := h
    exact Nat.lt_succ_of_lt (length_lt_of_brackets? hb)
  -- a piece
  case h_9 =>
    simp only [Option.bind_eq_some_iff] at h
    obtain ⟨⟨p, rest'⟩, hp, h⟩ := h
    simp only at h
    split at h
    · simp only [Option.some.injEq, Prod.mk.injEq] at h
      rw [← h.2]
      exact length_lt_of_piece? hp
    · cases h
  all_goals
    cases h
    exact Nat.lt_succ_of_le (length_behindRepetition_le _)

end CallPatch.Log.Pattern
