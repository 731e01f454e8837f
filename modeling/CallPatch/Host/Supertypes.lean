import CallPatch.Table
/-!
# Supertypes — who inherits what

The supertypes that loaded owners declare, as a table, and the search through
it. A type that is not in the table declares nothing. The search ends
although the types may declare each other in circles: it looks up no type
twice, and there are only as many to look up as the table has.
-/

namespace CallPatch

/-- The supertypes each type declares. -/
abbrev Supertypes := Table String (List String)

namespace Supertypes

/-- What the type declares. -/
def of (table : Supertypes) (type : String) : List String :=
  (Table.get? type table).getD []

/-- How many types of the table have not been looked up. -/
def unseen (table : Supertypes) (seen : List String) : Nat :=
  table.countP fun entry => !seen.contains entry.1

/-- Seeing one more type leaves no more to be seen. -/
theorem unseen_cons_le (table : Supertypes) (seen : List String) (type : String) :
    unseen table (type :: seen) ≤ unseen table seen := by
  refine List.countP_mono_left fun entry _ h => ?_
  simp only [List.contains_cons, Bool.not_eq_eq_eq_not, Bool.not_true, Bool.or_eq_false_iff] at h ⊢
  exact h.2

/-- Seeing a type with supertypes for the first time leaves fewer, which is why the search ends. -/
theorem unseen_cons_lt {table : Supertypes} {seen : List String} {type : String}
    (hne : of table type ≠ []) (hseen : seen.contains type = false) :
    unseen table (type :: seen) < unseen table seen := by
  induction table with
  | nil => exact absurd rfl hne
  | cons entry rest ih =>
    obtain ⟨k, v⟩ := entry
    by_cases hk : k = type
    · subst hk
      have hle := unseen_cons_le rest seen k
      have hself : (k :: seen).contains k = true := by simp
      simp only [unseen] at hle
      simp only [unseen, List.countP_cons, hself, hseen, Bool.not_true, Bool.not_false,
        Bool.false_eq_true, if_false, if_true]
      omega
    · have hrest : of rest type ≠ [] := by
        simpa [of, Table.get?, hk] using hne
      have hlt := ih hrest
      have hsame : (type :: seen).contains k = seen.contains k := by
        simp [hk]
      simp only [unseen] at hlt
      simp only [unseen, List.countP_cons, hsame]
      omega

/-- Whether the goal is among the types still to visit or declared, at any remove, by one of them
through types not looked up before. -/
def reachesFrom (table : Supertypes) (goal : String) (seen : List String) :
    (toVisit : List String) → Bool
  | [] => false
  | type :: rest =>
    if type = goal then true
    else if _hseen : seen.contains type then reachesFrom table goal seen rest
    else if _hdirect : of table type = [] then reachesFrom table goal (type :: seen) rest
    else reachesFrom table goal (type :: seen) (of table type ++ rest)
termination_by toVisit => (unseen table seen, toVisit.length)
decreasing_by
  · exact Prod.Lex.right _ (by simp)
  · rcases Nat.lt_or_eq_of_le (unseen_cons_le table seen type) with hlt | heq
    · exact Prod.Lex.left _ _ hlt
    · rw [heq]
      exact Prod.Lex.right _ (by simp)
  · exact Prod.Lex.left _ _
      (unseen_cons_lt _hdirect (Bool.eq_false_iff.2 _hseen))

/-- Whether a type is the goal, or declares it directly or at some remove. -/
def reaches (table : Supertypes) (goal type : String) : Bool :=
  reachesFrom table goal [] [type]

end Supertypes

end CallPatch
