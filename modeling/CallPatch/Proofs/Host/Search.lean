import CallPatch.Agent.Basic
import CallPatch.Proofs.Artifact.RoundTrip
import CallPatch.Proofs.Host.Inheritance
import CallPatch.Proofs.Machine.Lockstep
import Mathlib.Data.Set.Finite.Basic
/-!
# Supertypes — the search, turn by turn

A host says of one type after another which supertypes it declares. The search puts
them on a stack, repeats and all, and takes the type put there last; a type that it
looked up before is passed over (`Search.turn`). The stack may grow with every turn,
and the types may declare each other in circles.

Where only finitely many types declare any, the search ends: a turn looks up one more
of these types, or else it leaves the stack shorter (`Search.lex_of_turn`). What was
looked up declares nothing but what was looked up too or is on the stack, and all that
is on the stack is inherited by the type that is asked about (`Search.Sound`). So the
answer is exact (`search_exact`). The search through a table takes the types in another
order, and gives the same answer.
-/

namespace CallPatch

/-- The first type is the second one, or declares it directly or at some remove. -/
def InheritsBy (declared : String → List String) : String → String → Prop :=
  Relation.ReflTransGen fun a b => b ∈ declared a

/-- A search under way. -/
structure Search where
  /-- The types that have been looked up. -/
  seen : List String
  /-- The types on the stack, the one put there last first. -/
  pending : List String
  deriving DecidableEq, Repr

namespace Search

/-- The search when it is asked about a type. -/
def start (type : String) : Search :=
  { seen := [], pending := [type] }

/-- One turn. It ends the search on an empty stack and at the goal. -/
def turn (declared : String → List String) (goal : String) (s : Search) : Search ⊕ Bool :=
  match s.pending with
  | [] => .inr false
  | type :: rest =>
    if type = goal then .inr true
    else if type ∈ s.seen then .inl { s with pending := rest }
    else .inl { seen := type :: s.seen, pending := (declared type).reverse ++ rest }

variable {declared : String → List String} {goal asked : String} {s s' : Search} {found : Bool}

/-! ## What one turn does -/

/-- A turn passes over a type, or looks it up. -/
theorem turn_cases (h : turn declared goal s = .inl s') :
    ∃ type rest, s.pending = type :: rest ∧ type ≠ goal ∧
      (type ∈ s.seen ∧ s' = { s with pending := rest } ∨
        type ∉ s.seen ∧
          s' = { seen := type :: s.seen, pending := (declared type).reverse ++ rest }) := by
  unfold turn at h
  split at h
  · cases h
  · next type rest hpending =>
    refine ⟨type, rest, hpending, ?_⟩
    split at h
    · cases h
    · next hgoal =>
      refine ⟨hgoal, ?_⟩
      split at h
      · next hseen => exact .inl ⟨hseen, (Sum.inl.inj h).symm⟩
      · next hseen => exact .inr ⟨hseen, (Sum.inl.inj h).symm⟩

/-- The last turn finds the stack empty, or the goal on it. -/
theorem stop_cases (h : turn declared goal s = .inr found) :
    s.pending = [] ∧ found = false ∨ goal ∈ s.pending ∧ found = true := by
  unfold turn at h
  split at h
  · next hpending => exact .inl ⟨hpending, (Sum.inr.inj h).symm⟩
  · next type rest hpending =>
    split at h
    · next hgoal =>
      rw [hpending, hgoal]
      exact .inr ⟨List.mem_cons_self, (Sum.inr.inj h).symm⟩
    · split at h <;> cases h

/-! ## The search is sound -/

/-- What is known of a search under way. -/
structure Sound (declared : String → List String) (goal asked : String) (s : Search) : Prop where
  /-- The type that is asked about is not forgotten. -/
  kept : asked ∈ s.seen ∨ asked ∈ s.pending
  inherited : ∀ t ∈ s.pending, InheritsBy declared asked t
  /-- What was looked up leads nowhere else. -/
  closed : ∀ t ∈ s.seen, ∀ u ∈ declared t, u ∈ s.seen ∨ u ∈ s.pending
  missed : goal ∉ s.seen

theorem sound_start (declared : String → List String) (goal asked : String) :
    Sound declared goal asked (start asked) where
  kept := .inr List.mem_cons_self
  inherited t ht := by
    rw [List.mem_singleton.1 ht]
    exact .refl
  closed := nofun
  missed := List.not_mem_nil

/-- **One turn keeps a search sound.** -/
theorem Sound.turn (h : Sound declared goal asked s) (hturn : turn declared goal s = .inl s') :
    Sound declared goal asked s' := by
  obtain ⟨type, rest, hpending, hgoal, ⟨hseen, rfl⟩ | ⟨hnew, rfl⟩⟩ := turn_cases hturn
  · -- the type stays known although it leaves the stack
    have hkept (t : String) (ht : t ∈ s.seen ∨ t ∈ s.pending) : t ∈ s.seen ∨ t ∈ rest := by
      rw [hpending, List.mem_cons] at ht
      rcases ht with ht | rfl | ht
      · exact .inl ht
      · exact .inl hseen
      · exact .inr ht
    constructor
    · exact hkept asked h.kept
    · intro t ht
      exact h.inherited t (hpending ▸ List.mem_cons_of_mem type ht)
    · intro t ht u hu
      exact hkept u (h.closed t ht u hu)
    · exact h.missed
  · have hkept (t : String) (ht : t ∈ s.seen ∨ t ∈ s.pending) :
        t ∈ type :: s.seen ∨ t ∈ (declared type).reverse ++ rest := by
      rw [hpending, List.mem_cons] at ht
      rcases ht with ht | rfl | ht
      · exact .inl (List.mem_cons_of_mem type ht)
      · exact .inl List.mem_cons_self
      · exact .inr (List.mem_append_right _ ht)
    have hinherited : InheritsBy declared asked type :=
      h.inherited type (hpending ▸ List.mem_cons_self)
    constructor
    · exact hkept asked h.kept
    · intro t ht
      rcases List.mem_append.1 ht with hdeclared | hrest
      · exact hinherited.tail (List.mem_reverse.1 hdeclared)
      · exact h.inherited t (hpending ▸ List.mem_cons_of_mem type hrest)
    · intro t ht u hu
      rcases List.mem_cons.1 ht with rfl | hseen
      · exact .inr (List.mem_append_left _ (List.mem_reverse.2 hu))
      · exact hkept u (h.closed t hseen u hu)
    · intro hmem
      rcases List.mem_cons.1 hmem with rfl | hseen
      · exact hgoal rfl
      · exact h.missed hseen

/-- With nothing left on the stack, what was looked up is all there is. -/
theorem Sound.mem_seen (h : Sound declared goal asked s) (hpending : s.pending = []) {type : String}
    (htype : InheritsBy declared asked type) : type ∈ s.seen := by
  induction htype with
  | refl =>
    have hkept := h.kept
    rw [hpending] at hkept
    exact hkept.resolve_right List.not_mem_nil
  | tail _ hdeclared ih =>
    have hclosed := h.closed _ ih _ hdeclared
    rw [hpending] at hclosed
    exact hclosed.resolve_right List.not_mem_nil

/-- **The answer of a sound search is exact.** -/
theorem Sound.found_iff (h : Sound declared goal asked s)
    (hstop : Search.turn declared goal s = .inr found) :
    found = true ↔ InheritsBy declared asked goal := by
  rcases stop_cases hstop with ⟨hpending, rfl⟩ | ⟨hgoal, rfl⟩
  · constructor
    · intro hfalse
      cases hfalse
    · intro hinherits
      exact absurd (h.mem_seen hpending hinherits) h.missed
  · exact ⟨fun _ => h.inherited goal hgoal, fun _ => rfl⟩

/-! ## The search ends -/

/-- How many types that declare any have not been looked up. -/
noncomputable def unseen (hfinite : {type | declared type ≠ []}.Finite) (s : Search) : Nat :=
  (hfinite.toFinset.filter fun type => type ∉ s.seen).card

/-- To pass over a type leaves less on the stack, to look one up leaves fewer to look up or nothing
more on the stack. -/
theorem lex_of_turn (hfinite : {type | declared type ≠ []}.Finite)
    (h : turn declared goal s = .inl s') :
    unseen hfinite s' < unseen hfinite s ∨
      unseen hfinite s' = unseen hfinite s ∧ s'.pending.length < s.pending.length := by
  obtain ⟨type, rest, hpending, -, ⟨-, rfl⟩ | ⟨hnew, rfl⟩⟩ := turn_cases h
  · refine .inr ⟨rfl, ?_⟩
    rw [hpending, List.length_cons]
    exact Nat.lt_succ_self _
  · by_cases hnone : declared type = []
    · -- a type that declares nothing is none of those that count
      have hsame : unseen hfinite { seen := type :: s.seen, pending := rest } =
          unseen hfinite s := by
        unfold unseen
        congr 1
        refine Finset.filter_congr fun t ht => ?_
        have hne : t ≠ type := by
          rintro rfl
          exact (hfinite.mem_toFinset.1 ht) hnone
        simp [hne]
      refine .inr ⟨by simpa [hnone] using hsame, ?_⟩
      simp [hnone, hpending]
    · refine .inl (Finset.card_lt_card (Finset.ssubset_iff_of_subset ?_ |>.2 ⟨type, ?_, ?_⟩))
      · intro t ht
        simp only [Finset.mem_filter, List.mem_cons, not_or] at ht ⊢
        exact ⟨ht.1, ht.2.2⟩
      · simpa using ⟨hnone, hnew⟩
      · simp

/-- **A sound search ends**, with an answer that is exact. -/
theorem Sound.exists_reaches (hfinite : {type | declared type ≠ []}.Finite) {s : Search}
    (h : Sound declared goal asked s) :
    ∃ found, Machine.Reaches (Search.turn declared goal) s found ∧
      (found = true ↔ InheritsBy declared asked goal) := by
  rcases hturn : Search.turn declared goal s with s' | found
  · obtain ⟨found, hreaches, hexact⟩ := Sound.exists_reaches hfinite (h.turn hturn)
    exact ⟨found, hreaches.of_steps hturn, hexact⟩
  · exact ⟨found, Machine.reaches_of_stops hturn, h.found_iff hturn⟩
termination_by (unseen hfinite s, s.pending.length)
decreasing_by
  rcases lex_of_turn hfinite hturn with hlt | ⟨heq, hlt⟩
  · exact Prod.Lex.left _ _ hlt
  · rw [heq]
    exact Prod.Lex.right _ hlt

end Search

/-! ## Whom an agent asks -/

/-- What the host of the agent says that a type declares: nothing, if it cannot tell. -/
def Agent.declaredTo (a : Agent) (supertypes : Supertypes) (type : String) : List String :=
  Supertypes.of (if a.seesSupertypes then supertypes else []) type

/-- **The search for the capability ends and is exact**, whatever finitely many types declare. An
agent finds that a type has the capability just when the search does. -/
theorem search_exact {declared : String → List String}
    (hfinite : {type | declared type ≠ []}.Finite) (type : String) :
    ∃ found, Machine.Reaches (Search.turn declared Store.marker) (.start type) found ∧
      (found = true ↔ InheritsBy declared type Store.marker) ∧
        ∀ (a : Agent) (supertypes : Supertypes), a.declaredTo supertypes = declared →
          (a.scope supertypes).capable type = found := by
  obtain ⟨found, hreaches, hexact⟩ :=
    (Search.sound_start declared Store.marker type).exists_reaches hfinite
  refine ⟨found, hreaches, hexact, ?_⟩
  rintro a supertypes rfl
  rw [Bool.eq_iff_iff, hexact]
  exact Supertypes.reaches_iff

/-! ## Hosts in memory -/

namespace Host

/-- Only owners that are loaded declare any. -/
theorem finite_supertypes (h : Host) : {owner | h.supertypes owner ≠ []}.Finite := by
  refine (h.loaded.map Prod.fst).finite_toSet.subset ?_
  intro owner howner
  refine Table.isSome_get?_iff.1 ?_
  rcases hnone : Table.get? owner h.loaded with - | l
  · exact absurd (of_supertypeTable_of_none hnone) howner
  · rfl

end Host

/-! ## Types that declare each other -/

namespace Circular

/-- Declares itself, and two types of which one is there twice. -/
def cache : Artifact where
  name := "acme/Cache"
  supertypes := ["acme/Map", "acme/Cache", "acme/Base", "acme/Map"]
  members := []

/-- Declares a type that declares it too. -/
def map : Artifact where
  name := "acme/Map"
  supertypes := ["acme/Base", "acme/Cache"]
  members := []

/-- The one with the marker. -/
def base : Artifact where
  name := "acme/Base"
  supertypes := [Store.marker, "acme/Cache"]
  members := []

/-- The three are loaded, and an owner whose bytes are no artifact. -/
def host (cache map base : Bytes) : Host :=
  ((((Host.empty.load "acme/Cache" cache cache).load "acme/Map" map map).load
    "acme/Base" base base).load "acme/Broken" [] [])

/-- The search finds that the first has the capability, and the last has not. -/
theorem search_exact_circular : ∃ h : Host,
    (h.currentArtifact "acme/Cache" = .ok cache ∧ h.currentArtifact "acme/Map" = .ok map ∧
      h.currentArtifact "acme/Base" = .ok base) ∧
    {owner | h.supertypes owner ≠ []}.Finite ∧
      Machine.Reaches (Search.turn h.supertypes Store.marker) (.start "acme/Cache") true ∧
        Machine.Reaches (Search.turn h.supertypes Store.marker) (.start "acme/Broken") false := by
  obtain ⟨bytes, hcache⟩ := Artifact.encode_of_length_le_default (a := cache) (by decide +kernel)
  obtain ⟨bytes', hmap⟩ := Artifact.encode_of_length_le_default (a := map) (by decide +kernel)
  obtain ⟨bytes'', hbase⟩ := Artifact.encode_of_length_le_default (a := base) (by decide +kernel)
  let h := host bytes bytes' bytes''
  have hcurrent : h.currentArtifact "acme/Cache" = .ok cache ∧
      h.currentArtifact "acme/Map" = .ok map ∧ h.currentArtifact "acme/Base" = .ok base := by
    refine ⟨?_, ?_, ?_⟩
    · show (Artifact.decode bytes).mapError _ = _
      rw [Artifact.decode_encode hcache]
      rfl
    · show (Artifact.decode bytes').mapError _ = _
      rw [Artifact.decode_encode hmap]
      rfl
    · show (Artifact.decode bytes'').mapError _ = _
      rw [Artifact.decode_encode hbase]
      rfl
  refine ⟨h, hcurrent, h.finite_supertypes, ?_, ?_⟩
  · obtain ⟨found, hreaches, hexact, -⟩ := search_exact h.finite_supertypes "acme/Cache"
    have hfirst : "acme/Base" ∈ h.supertypes "acme/Cache" := by
      rw [h.supertypes_eq, hcurrent.1]
      decide
    have hlast : Store.marker ∈ h.supertypes "acme/Base" := by
      rw [h.supertypes_eq, hcurrent.2.2]
      decide
    have hinherits : InheritsBy h.supertypes "acme/Cache" Store.marker :=
      .head hfirst (.single hlast)
    rwa [hexact.2 hinherits] at hreaches
  · obtain ⟨found, hreaches, hexact, -⟩ := search_exact h.finite_supertypes "acme/Broken"
    have hnone : h.supertypes "acme/Broken" = [] := by
      rw [h.supertypes_eq]
      rfl
    have hfalse : found = false := by
      refine Bool.eq_false_iff.2 fun htrue => ?_
      rcases (hexact.1 htrue).cases_head with heq | ⟨t, ht, -⟩
      · exact absurd heq (by decide)
      · rw [hnone] at ht
        cases ht
    rwa [hfalse] at hreaches

end Circular

end CallPatch
