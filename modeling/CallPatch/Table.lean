/-!
# Tables

A table is a list of keys with their values, each key once. A key keeps its
place when its value is replaced.
-/

namespace CallPatch

/-- Keys with their values; `put` keeps each key once. -/
abbrev Table (κ β : Type) := List (κ × β)

namespace Table

variable {κ β : Type} [DecidableEq κ]

/-- The value under the key. -/
def get? (key : κ) : Table κ β → Option β
  | [] => none
  | (k, v) :: rest => if k = key then some v else get? key rest

/-- Puts the value under the key, in place of the one there. -/
def put (key : κ) (value : β) : Table κ β → Table κ β
  | [] => [(key, value)]
  | (k, v) :: rest => if k = key then (key, value) :: rest else (k, v) :: put key value rest

/-- Removes the key. -/
def remove (key : κ) (t : Table κ β) : Table κ β :=
  t.filter fun entry => entry.1 ≠ key

theorem get?_put_self (key : κ) (value : β) (t : Table κ β) :
    get? key (put key value t) = some value := by
  induction t with
  | nil => simp [put, get?]
  | cons entry rest ih =>
    obtain ⟨k, v⟩ := entry
    by_cases h : k = key <;> simp [put, get?, h, ih]

theorem get?_put_of_ne {key key' : κ} (h : key' ≠ key) (value : β) (t : Table κ β) :
    get? key' (put key value t) = get? key' t := by
  induction t with
  | nil => simp [put, get?, Ne.symm h]
  | cons entry rest ih =>
    obtain ⟨k, v⟩ := entry
    by_cases hk : k = key
    · subst hk; simp [put, get?, Ne.symm h]
    · by_cases hk' : k = key'
      · subst hk'; simp [put, get?, hk]
      · simp [put, get?, hk, hk', ih]

/-- There is a value under the keys of the table. -/
theorem isSome_get?_iff {key : κ} {t : Table κ β} :
    (get? key t).isSome = true ↔ key ∈ t.map Prod.fst := by
  induction t with
  | nil => simp [get?]
  | cons entry rest ih =>
    obtain ⟨k, v⟩ := entry
    by_cases h : k = key
    · simp [get?, h]
    · simp [get?, h, Ne.symm h, ih]

/-- Looking up what every value was changed to. -/
theorem get?_map {γ : Type} (f : β → γ) (key : κ) (t : Table κ β) :
    get? key (t.map fun entry => (entry.1, f entry.2)) = (get? key t).map f := by
  induction t with
  | nil => rfl
  | cons entry rest ih =>
    obtain ⟨k, v⟩ := entry
    by_cases h : k = key
    · simp [get?, h]
    · simpa [get?, h] using ih

/-- A new key comes last, one that is there keeps its place. -/
theorem map_fst_put (key : κ) (value : β) (t : Table κ β) :
    (put key value t).map Prod.fst =
      if key ∈ t.map Prod.fst then t.map Prod.fst else t.map Prod.fst ++ [key] := by
  induction t with
  | nil => rfl
  | cons entry rest ih =>
    obtain ⟨k, v⟩ := entry
    by_cases h : k = key
    · simp [put, h]
    · by_cases hrest : key ∈ rest.map Prod.fst
      · simp only [put, h, if_false, List.map_cons, ih, hrest, if_true, List.mem_cons, or_true]
      · simp only [put, h, if_false, List.map_cons, ih, hrest, List.mem_cons, Ne.symm h, or_self,
          List.cons_append]

/-- A key that is not there comes last with its value. -/
theorem put_of_notMem {key : κ} {t : Table κ β} (h : key ∉ t.map Prod.fst) (value : β) :
    put key value t = t ++ [(key, value)] := by
  induction t with
  | nil => rfl
  | cons entry rest ih =>
    obtain ⟨k, v⟩ := entry
    simp only [List.map_cons, List.mem_cons, not_or] at h
    rw [put, if_neg (Ne.symm h.1), ih h.2, List.cons_append]

/-- To put a value where it is changes nothing. -/
theorem put_eq_self {key : κ} {value : β} {t : Table κ β} (h : get? key t = some value) :
    put key value t = t := by
  induction t with
  | nil => cases h
  | cons entry rest ih =>
    obtain ⟨k, v⟩ := entry
    rw [get?] at h
    by_cases hk : k = key
    · rw [if_pos hk] at h
      rw [put, if_pos hk, hk, Option.some.inj h]
    · rw [if_neg hk] at h
      rw [put, if_neg hk, ih h]

theorem map_put {γ : Type} (f : β → γ) (key : κ) (value : β) (t : Table κ β) :
    (put key value t).map (fun entry => (entry.1, f entry.2)) =
      put key (f value) (t.map fun entry => (entry.1, f entry.2)) := by
  induction t with
  | nil => rfl
  | cons entry rest ih =>
    obtain ⟨k, v⟩ := entry
    by_cases h : k = key
    · simp [put, h]
    · simp [put, h, ih]

/-- An entry is found where no key is there twice. -/
theorem get?_of_mem {key : κ} {value : β} {t : Table κ β} (hnodup : (t.map Prod.fst).Nodup)
    (h : (key, value) ∈ t) : get? key t = some value := by
  induction t with
  | nil => cases h
  | cons entry rest ih =>
    obtain ⟨k, v⟩ := entry
    rw [List.map_cons, List.nodup_cons] at hnodup
    rcases List.mem_cons.1 h with heq | hrest
    · rw [get?, if_pos (Prod.mk.inj heq).1.symm, (Prod.mk.inj heq).2]
    · have hmem : key ∈ rest.map Prod.fst := List.mem_map_of_mem hrest
      have hne : k ≠ key := fun heq => hnodup.1 (heq ▸ hmem)
      rw [get?, if_neg hne, ih hnodup.2 hrest]

end Table

end CallPatch
