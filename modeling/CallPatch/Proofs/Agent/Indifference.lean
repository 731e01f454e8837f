import CallPatch.Proofs.Agent.Treatment
import CallPatch.Proofs.Host.Inheritance
import CallPatch.Proofs.Patch.Asking
/-!
# Agents — bytes that do not ask about their owner

While an owner is being defined it is not loaded, and what it declares does not
count; while it is retransformed it is, and does. That makes no difference to
bytes whose patching asks about no type of which the answer depends on the owner
(`Agent.Indifferent`). They come out the same on every host between the two,
however much of what the owner can declare it does declare there
(`Agent.outcome_eq_of_within`).
-/

namespace CallPatch

/-! ## What a table says with and without the owner -/

namespace Supertypes

variable {before table : Supertypes} {owner type : String} {declared : List String}

theorem of_put_self (owner : String) (declared : List String) (table : Supertypes) :
    of (Table.put owner declared table) owner = declared := by
  rw [of, Table.get?_put_self]
  rfl

theorem of_put_of_ne (h : type ≠ owner) (declared : List String) (table : Supertypes) :
    of (Table.put owner declared table) type = of table type := by
  rw [of, Table.get?_put_of_ne h]
  rfl

/-- The table says of the other types what the first one says, and of the owner that it declares
some of these. -/
structure Within (owner : String) (declared : List String) (before table : Supertypes) : Prop where
  others : ∀ type, type ≠ owner → of table type = of before type
  self : of table owner ⊆ declared

/-- A table in between gives the answer that is the same at both ends. -/
theorem Within.capable_eq (h : Within owner declared before table) (hnew : of before owner = [])
    (a : Agent)
    (hsame : (a.scope before).capable type =
      (a.scope (Table.put owner declared before)).capable type) :
    (a.scope table).capable type = (a.scope before).capable type := by
  unfold Agent.scope at hsame ⊢
  generalize a.seesSupertypes = sees at hsame ⊢
  rcases sees with - | -
  · rfl
  · -- the search is monotone, so the answer in between is squeezed
    have hlow : ∀ t, of before t ⊆ of table t := by
      intro t
      by_cases ht : t = owner
      · rw [ht, hnew]
        exact List.nil_subset _
      · rw [h.others t ht]
        exact List.Subset.refl _
    have hhigh : ∀ t, of table t ⊆ of (Table.put owner declared before) t := by
      intro t
      by_cases ht : t = owner
      · rw [ht, of_put_self]
        exact h.self
      · rw [of_put_of_ne ht, h.others t ht]
        exact List.Subset.refl _
    have hfrom : before.reaches Store.marker type = true → table.reaches Store.marker type = true :=
      reaches_mono hlow
    have hto : table.reaches Store.marker type = true →
        reaches (Table.put owner declared before) Store.marker type = true := reaches_mono hhigh
    simp only [if_true] at hsame ⊢
    rw [← hsame] at hto
    exact Bool.eq_iff_iff.2 ⟨hto, hfrom⟩

end Supertypes

/-! ## What is made of the bytes -/

/-- What the bytes declare when they are extended, or as they are if they cannot be. -/
def AgentConfig.declared (config : AgentConfig) (owner : String) (bytes : Bytes) : List String :=
  match config.extendBase owner bytes with
  | .ok extended => Host.declaredBy extended
  | .error _ => Host.declaredBy bytes

/-- Patching these members asks about no type whose answer depends on whether the owner is
loaded. -/
def Agent.Indifferent (a : Agent) (supertypes : Supertypes) (owner : String) (names : List String)
    (bytes : Bytes) : Prop :=
  ∀ extended artifact, a.config.extendBase owner bytes = .ok extended →
    Artifact.decode extended = .ok artifact → ∀ type ∈ artifact.putTypes names,
      (a.scope supertypes).capable type =
        (a.scope (Table.put owner artifact.supertypes supertypes)).capable type

namespace Agent

variable {a : Agent} {supertypes table : Supertypes} {owner : String}
variable {names names' : List String} {bytes : Bytes}

/-- Whatever comes of the bytes declares no more than that. -/
theorem declaredBy_outcome (a : Agent) (supertypes : Supertypes) (owner : String)
    (names : List String) (bytes : Bytes) :
    Host.declaredBy (a.outcome supertypes owner names bytes) ⊆ a.config.declared owner bytes := by
  unfold outcome AgentConfig.declared
  rcases hextended : a.config.extendBase owner bytes with e | extended
  · rw [AgentConfig.treat_of_error hextended]
    exact List.Subset.refl _
  · rcases htreated : a.config.treat (a.scope supertypes) owner names bytes with e | treated
    · exact AgentConfig.declaredBy_subset hextended
    · dsimp only
      rw [AgentConfig.declaredBy_of_treat hextended htreated]
      exact List.Subset.refl _

/-- The order of the list does not matter, nor how often a member is in it. -/
theorem outcome_congr (h : ∀ name, name ∈ names ↔ name ∈ names') :
    a.outcome supertypes owner names bytes = a.outcome supertypes owner names' bytes := by
  rw [outcome, outcome, AgentConfig.treat_congr h]

/-- **Bytes that are indifferent to the owner come out the same** on every host in between. -/
theorem outcome_eq_of_within (h : a.Indifferent supertypes owner names bytes)
    (hwithin : Supertypes.Within owner (a.config.declared owner bytes) supertypes table)
    (hnew : supertypes.of owner = []) (hnames : ∀ name, name ∈ names' ↔ name ∈ names) :
    a.outcome table owner names' bytes = a.outcome supertypes owner names bytes := by
  have htreat : a.config.treat (a.scope table) owner names bytes =
      a.config.treat (a.scope supertypes) owner names bytes := by
    rcases hextended : a.config.extendBase owner bytes with e | extended
    · rw [AgentConfig.treat_of_error hextended, AgentConfig.treat_of_error hextended]
    · have hpatch : patchCallSites (a.scope table) names extended =
          patchCallSites (a.scope supertypes) names extended := by
        refine patchCallSites_congr_capable rfl fun artifact hdecode type htype => ?_
        have hdeclared : a.config.declared owner bytes = artifact.supertypes := by
          simp only [AgentConfig.declared, hextended, Host.declaredBy, hdecode]
        rw [hdeclared] at hwithin
        exact hwithin.capable_eq hnew a (h extended artifact hextended hdecode type htype)
      rw [AgentConfig.treat_of_ok hextended, AgentConfig.treat_of_ok hextended, hpatch]
  rw [outcome_congr hnames, outcome, outcome, htreat]

end Agent

end CallPatch
