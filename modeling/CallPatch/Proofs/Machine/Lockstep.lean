import Mathlib.Logic.Relation
/-!
# Machines — runs, and two machines in lockstep

A machine is a function that takes a state to the next one or to an outcome.
A run ends with an outcome after finitely many steps or goes on for ever.
The main statement, `reaches_iff_of_lockstep`, is the one a change of code is
judged by: if related states of two machines come, each in one step or more,
to related states again or to one outcome, then related states reach the same
outcomes. Neither side need take as many steps as the other.
-/

namespace CallPatch.Machine

variable {σ τ ο π : Type}

/-- The outcome of a run of fewer than `n` steps. -/
def outcome? (next : σ → σ ⊕ ο) : Nat → σ → Option ο
  | 0, _ => none
  | n + 1, s =>
    match next s with
    | .inl s' => outcome? next n s'
    | .inr o => some o

/-- The run from the state ends with the outcome. -/
def Reaches (next : σ → σ ⊕ ο) (s : σ) (o : ο) : Prop :=
  ∃ n, outcome? next n s = some o

/-- One step leads from the one state to the other. -/
abbrev Steps (next : σ → σ ⊕ ο) (s s' : σ) : Prop :=
  next s = .inl s'

/-- One step or more lead from the one state to the other. -/
abbrev Advances (next : σ → σ ⊕ ο) : σ → σ → Prop :=
  Relation.TransGen (Steps next)

variable {next : σ → σ ⊕ ο} {next' : τ → τ ⊕ ο} {s s' : σ} {o o' : ο} {n : Nat}

/-- A run that can step has its outcome one step later. -/
theorem outcome?_succ_of_steps (h : Steps next s s') :
    outcome? next (n + 1) s = outcome? next n s' := by
  simp only [outcome?, h]

theorem outcome?_succ_of_stops (h : next s = .inr o) : outcome? next (n + 1) s = some o := by
  simp only [outcome?, h]

/-- A longer run ends as the shorter one did. -/
theorem outcome?_mono {m n : Nat} (hmn : m ≤ n) {s : σ} (h : outcome? next m s = some o) :
    outcome? next n s = some o := by
  induction m generalizing n s with
  | zero => cases h
  | succ m ih =>
    obtain ⟨n, rfl⟩ := Nat.exists_eq_add_of_le' (Nat.one_le_of_lt hmn)
    rcases hs : next s with s' | o'
    · rw [outcome?_succ_of_steps hs] at h ⊢
      exact ih (by omega) h
    · rw [outcome?_succ_of_stops hs] at h ⊢
      exact h

/-- A run ends in one way at most. -/
theorem Reaches.unique (h : Reaches next s o) (h' : Reaches next s o') : o = o' := by
  obtain ⟨m, hm⟩ := h
  obtain ⟨n, hn⟩ := h'
  rcases Nat.le_total m n with hmn | hnm
  · rw [outcome?_mono hmn hm] at hn
    exact Option.some.inj hn
  · rw [outcome?_mono hnm hn] at hm
    exact (Option.some.inj hm).symm

theorem reaches_of_stops (h : next s = .inr o) : Reaches next s o :=
  ⟨1, outcome?_succ_of_stops h⟩

/-- What is reached after a step is reached before it. -/
theorem Reaches.of_steps (h : Steps next s s') (h' : Reaches next s' o) : Reaches next s o := by
  obtain ⟨n, hn⟩ := h'
  exact ⟨n + 1, by rw [outcome?_succ_of_steps h, hn]⟩

theorem Reaches.of_advances (h : Advances next s s') (h' : Reaches next s' o) :
    Reaches next s o := by
  induction h using Relation.TransGen.head_induction_on with
  | single hs => exact h'.of_steps hs
  | head hs _ ih => exact ih.of_steps hs

/-- A run that ends has fewer steps left behind every state it has advanced to. -/
theorem exists_lt_of_advances (h : Advances next s s') (hn : outcome? next n s = some o) :
    ∃ m < n, outcome? next m s' = some o := by
  induction h using Relation.TransGen.head_induction_on generalizing n with
  | single hs =>
    rcases n with - | n
    · cases hn
    · exact ⟨n, by omega, by rwa [outcome?_succ_of_steps hs] at hn⟩
  | head hs _ ih =>
    rcases n with - | n
    · cases hn
    · rw [outcome?_succ_of_steps hs] at hn
      obtain ⟨m, hm, hm'⟩ := ih hn
      exact ⟨m, by omega, hm'⟩

/-- A run ends as it does from the states it advances to. -/
theorem reaches_iff_of_advances (h : Advances next s s') :
    Reaches next s o ↔ Reaches next s' o := by
  refine ⟨?_, fun h' => h'.of_advances h⟩
  rintro ⟨n, hn⟩
  obtain ⟨m, -, hm⟩ := exists_lt_of_advances h hn
  exact ⟨m, hm⟩

/-- Where two machines go from a pair of states: each advances, to states that are related again, or
both runs end with one outcome. -/
def Keeps (next : σ → σ ⊕ ο) (next' : τ → τ ⊕ ο) (R : σ → τ → Prop) (s : σ) (t : τ) : Prop :=
  (∃ s' t', Advances next s s' ∧ Advances next' t t' ∧ R s' t') ∨
    ∃ o, Reaches next s o ∧ Reaches next' t o

/-- A relation that both keep is kept from either side. -/
theorem Keeps.flip {R : σ → τ → Prop} {t : τ} (h : Keeps next next' R s t) :
    Keeps next' next (fun t s => R s t) t s := by
  rcases h with ⟨s', t', hs, ht, hr⟩ | ⟨o, hs, ht⟩
  · exact .inl ⟨t', s', ht, hs, hr⟩
  · exact .inr ⟨o, ht, hs⟩

/-- The first machine may take a step of its own first. -/
theorem Keeps.of_steps {R : σ → τ → Prop} {t : τ} (hs : Steps next s s')
    (h : Keeps next next' R s' t) : Keeps next next' R s t := by
  rcases h with ⟨s'', t', hs', ht', hr⟩ | ⟨o, ho, ho'⟩
  · exact .inl ⟨s'', t', .head hs hs', ht', hr⟩
  · exact .inr ⟨o, ho.of_steps hs, ho'⟩

/-- One direction of lockstep, by induction on the length of the first machine's run. -/
theorem reaches_of_lockstep {R : σ → τ → Prop} (h : ∀ s t, R s t → Keeps next next' R s t)
    {s : σ} {t : τ} (hst : R s t) (hs : Reaches next s o) : Reaches next' t o := by
  obtain ⟨n, hn⟩ := hs
  induction n using Nat.strongRecOn generalizing s t with
  | ind n ih =>
    -- the first run has fewer steps left where the two meet again
    rcases h s t hst with ⟨s', t', hs', ht', hr⟩ | ⟨o', ho, ho'⟩
    · obtain ⟨m, hm, hm'⟩ := exists_lt_of_advances hs' hn
      exact (ih m hm hr hm').of_advances ht'
    · rwa [Reaches.unique ⟨n, hn⟩ ho]

/-- **Machines in lockstep reach the same outcomes.** Since a run that has no outcome goes on for
ever, one side runs for ever exactly when the other does. -/
theorem reaches_iff_of_lockstep {R : σ → τ → Prop} (h : ∀ s t, R s t → Keeps next next' R s t)
    {s : σ} {t : τ} (hst : R s t) : Reaches next s o ↔ Reaches next' t o :=
  ⟨reaches_of_lockstep h hst, reaches_of_lockstep (fun t s hr => (h s t hr).flip) hst⟩

/-! ## A machine seen from afar -/

/-- A machine whose steps and outcomes are those of another, seen through `f` and `g`, ends as the
other does. -/
theorem reaches_map_iff {f : σ → τ} {g : ο → π} {next' : τ → τ ⊕ π}
    (h : ∀ s, next' (f s) = (next s).map f g) {p : π} :
    Reaches next' (f s) p ↔ ∃ o, Reaches next s o ∧ g o = p := by
  have houtcome (n : Nat) (s : σ) : outcome? next' n (f s) = (outcome? next n s).map g := by
    induction n generalizing s with
    | zero => rfl
    | succ n ih =>
      rcases hs : next s with s' | o
      · have hs' : Steps next' (f s) (f s') := by rw [Steps, h, hs, Sum.map_inl]
        rw [outcome?_succ_of_steps hs, outcome?_succ_of_steps hs', ih]
      · have hs' : next' (f s) = .inr (g o) := by rw [h, hs, Sum.map_inr]
        rw [outcome?_succ_of_stops hs, outcome?_succ_of_stops hs', Option.map_some]
  constructor
  · rintro ⟨n, hn⟩
    rw [houtcome, Option.map_eq_some_iff] at hn
    obtain ⟨o, ho, hp⟩ := hn
    exact ⟨o, ⟨n, ho⟩, hp⟩
  · rintro ⟨o, ⟨n, hn⟩, rfl⟩
    exact ⟨n, by rw [houtcome, hn, Option.map_some]⟩

end CallPatch.Machine
