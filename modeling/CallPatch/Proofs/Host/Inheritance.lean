import CallPatch.Host.Basic
import Mathlib.Logic.Relation
/-!
# Supertypes — what the search finds

The search through the declared supertypes finds a type just when it is declared
at some remove (`reaches_iff`). So whoever reaches a type does so where more is
declared (`reaches_mono`). What the owners of a host declare is what their current
artifacts do (`Host.supertypes_eq`).
-/

namespace CallPatch

namespace Supertypes

variable {table table' : Supertypes} {goal type : String} {seen toVisit : List String}

/-- The first type is the second one, or declares it directly or at some remove. -/
def Inherits (table : Supertypes) : String → String → Prop :=
  Relation.ReflTransGen fun a b => b ∈ of table a

/-- What is found is inherited by one of the types that were to be visited. -/
theorem exists_inherits_of_reachesFrom (h : reachesFrom table goal seen toVisit = true) :
    ∃ t ∈ toVisit, table.Inherits t goal := by
  fun_induction reachesFrom table goal seen toVisit with
  | case1 seen => cases h
  | case2 seen rest => exact ⟨goal, List.mem_cons_self, .refl⟩
  | case3 seen type rest hgoal hseen ih =>
    obtain ⟨t, ht, hinherits⟩ := ih h
    exact ⟨t, List.mem_cons_of_mem _ ht, hinherits⟩
  | case4 seen type rest hgoal hseen hnone ih =>
    obtain ⟨t, ht, hinherits⟩ := ih h
    exact ⟨t, List.mem_cons_of_mem _ ht, hinherits⟩
  | case5 seen type rest hgoal hseen hsome ih =>
    obtain ⟨t, ht, hinherits⟩ := ih h
    rcases List.mem_append.1 ht with hdeclared | hrest
    · exact ⟨type, List.mem_cons_self, hinherits.head hdeclared⟩
    · exact ⟨t, List.mem_cons_of_mem _ hrest, hinherits⟩

/-- Types that declare none but themselves and those to visit do not lead out. -/
def Closed (table : Supertypes) (seen toVisit : List String) : Prop :=
  ∀ t ∈ seen, ∀ u ∈ of table t, u ∈ seen ∨ u ∈ toVisit

/-- The next type has been looked up, or declares nothing, or what it declares is to be visited. -/
theorem Closed.visit {declared rest : List String} (h : table.Closed seen (type :: rest))
    (hdeclared : ∀ u ∈ of table type, u ∈ declared) :
    table.Closed (type :: seen) (declared ++ rest) := by
  intro t ht u hu
  rcases List.mem_cons.1 ht with rfl | hseen
  · exact .inr (List.mem_append_left _ (hdeclared u hu))
  · rcases h t hseen u hu with hseen' | hvisit
    · exact .inl (List.mem_cons_of_mem _ hseen')
    · rcases List.mem_cons.1 hvisit with rfl | hrest
      · exact .inl List.mem_cons_self
      · exact .inr (List.mem_append_right _ hrest)

/-- What is not found is inherited by none of the types looked up or to be visited. -/
theorem not_inherits_of_reachesFrom (h : reachesFrom table goal seen toVisit = false)
    (hclosed : table.Closed seen toVisit) (hseen : goal ∉ seen) :
    ∀ t, t ∈ seen ∨ t ∈ toVisit → ¬ table.Inherits t goal := by
  fun_induction reachesFrom table goal seen toVisit with
  | case1 seen =>
    -- with nothing left to visit, what was looked up is closed
    intro t ht hinherits
    have hstays : ∀ u, table.Inherits t u → u ∈ seen := by
      intro u hu
      induction hu with
      | refl => exact ht.resolve_right List.not_mem_nil
      | tail _ hdeclared ih => exact (hclosed _ ih _ hdeclared).resolve_right List.not_mem_nil
    exact hseen (hstays goal hinherits)
  | case2 seen rest => cases h
  | case3 seen type rest hgoal hlooked ih =>
    have hmem : type ∈ seen := List.contains_iff_mem.1 hlooked
    have hclosed' : table.Closed seen rest := by
      intro t ht u hu
      have hcases : u ∈ seen ∨ u ∈ type :: rest := hclosed t ht u hu
      grind
    intro t ht
    exact ih h hclosed' hseen t (by grind)
  | case4 seen type rest hgoal hlooked hnone ih =>
    have hclosed' : table.Closed (type :: seen) ([] ++ rest) :=
      hclosed.visit fun u hu => hnone ▸ hu
    have hseen' : goal ∉ type :: seen := by grind
    intro t ht
    exact ih h hclosed' hseen' t (by grind)
  | case5 seen type rest hgoal hlooked hsome ih =>
    have hclosed' : table.Closed (type :: seen) (of table type ++ rest) :=
      hclosed.visit fun u hu => hu
    have hseen' : goal ∉ type :: seen := by grind
    intro t ht
    exact ih h hclosed' hseen' t (by grind)

/-- **The search is exact.** -/
theorem reaches_iff : table.reaches goal type = true ↔ table.Inherits type goal := by
  constructor
  · intro h
    obtain ⟨t, ht, hinherits⟩ := exists_inherits_of_reachesFrom h
    rwa [List.mem_singleton.1 ht] at hinherits
  · intro hinherits
    rcases hfound : table.reachesFrom goal [] [type] with - | -
    · exact absurd hinherits
        (not_inherits_of_reachesFrom hfound nofun List.not_mem_nil type (.inr List.mem_cons_self))
    · exact hfound

/-- Where every type declares at least as much, no less is reached. -/
theorem reaches_mono (h : ∀ t, of table t ⊆ of table' t)
    (hreaches : table.reaches goal type = true) : table'.reaches goal type = true := by
  have hinherits : table.Inherits type goal := reaches_iff.1 hreaches
  exact reaches_iff.2 (Relation.ReflTransGen.mono (fun a _ hb => h a hb) _ _ hinherits)

/-- Only what the types declare matters, not how the table has it. -/
theorem reaches_congr (h : ∀ t, of table t = of table' t) :
    table.reaches goal type = table'.reaches goal type := by
  have hto : ∀ t, of table t ⊆ of table' t := fun t => h t ▸ List.Subset.refl _
  have hfrom : ∀ t, of table' t ⊆ of table t := fun t => h t ▸ List.Subset.refl _
  exact Bool.eq_iff_iff.2 ⟨reaches_mono hto, reaches_mono hfrom⟩

end Supertypes

/-! ## What the owners of a host declare -/

namespace Host

variable {h : Host} {owner : String}

theorem of_supertypeTable (h : Host) (owner : String) :
    h.supertypeTable.of owner =
      ((Table.get? owner h.loaded).map fun l => declaredBy l.current).getD [] := by
  rw [Supertypes.of, supertypeTable, Table.get?_map fun l : LoadedArtifact => declaredBy l.current]

/-- An owner that is not loaded declares nothing. -/
theorem of_supertypeTable_of_none (hnone : Table.get? owner h.loaded = none) :
    h.supertypeTable.of owner = [] := by
  rw [of_supertypeTable, hnone]
  rfl

/-- The supertypes of an owner are those its current artifact declares, if it has one. -/
theorem supertypes_eq (h : Host) (owner : String) :
    h.supertypes owner =
      match h.currentArtifact owner with
      | .ok a => a.supertypes
      | .error _ => [] := by
  rw [supertypes, of_supertypeTable, currentArtifact, currentBytes?]
  rcases Table.get? owner h.loaded with - | l
  · rfl
  · show declaredBy l.current = _
    unfold declaredBy
    dsimp only [Option.map_some]
    rcases Artifact.decode l.current with e | a <;> rfl

end Host

end CallPatch
