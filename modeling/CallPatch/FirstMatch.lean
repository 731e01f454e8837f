/-!
# First matches in a list

Look-up by the first match is what artifacts and owner tables go by; this is
the change that goes with it.
-/

namespace CallPatch

/-- Applies `f` to the first element that satisfies `p`, and to no other. -/
def modifyFirst {α : Type} (p : α → Bool) (f : α → α) : List α → List α
  | [] => []
  | a :: rest => if p a then f a :: rest else a :: modifyFirst p f rest

@[simp]
theorem length_modifyFirst {α : Type} {p : α → Bool} {f : α → α} (as : List α) :
    (modifyFirst p f as).length = as.length := by
  induction as with
  | nil => rfl
  | cons a rest ih => by_cases h : p a <;> simp [modifyFirst, h, ih]

/-- The change is made at the place of the first match. -/
theorem modifyFirst_eq_modify {α : Type} {p : α → Bool} {f : α → α} {as : List α} {i : Nat}
    (h : as.findIdx? p = some i) : modifyFirst p f as = as.modify i f := by
  induction as generalizing i with
  | nil => cases h
  | cons a as ih =>
    rw [List.findIdx?_cons] at h
    by_cases hp : p a
    · obtain rfl : 0 = i := by simpa [hp] using h
      simp [modifyFirst, hp]
    · obtain ⟨j, hj, rfl⟩ : ∃ j, as.findIdx? p = some j ∧ j + 1 = i := by simpa [hp] using h
      simp [modifyFirst, hp, ih hj]

/-- The change is made at the first match, wherever that is. -/
theorem modifyFirst_append_cons {α : Type} {p : α → Bool} {f : α → α} {before after : List α}
    {a : α} (hbefore : ∀ b ∈ before, p b = false) (ha : p a = true) :
    modifyFirst p f (before ++ a :: after) = before ++ f a :: after := by
  induction before with
  | nil => simp [modifyFirst, ha]
  | cons b before ih =>
    have hrest := ih fun c hc => hbefore c (List.mem_cons_of_mem b hc)
    simp [modifyFirst, hbefore b List.mem_cons_self, hrest]

/-- What is in the list then was in it before, or is what an element became. -/
theorem mem_or_of_mem_modifyFirst {α : Type} {p : α → Bool} {f : α → α} {as : List α} {b : α}
    (h : b ∈ modifyFirst p f as) : b ∈ as ∨ ∃ a ∈ as, b = f a := by
  induction as with
  | nil => cases h
  | cons a rest ih =>
    by_cases hp : p a
    · rw [modifyFirst, if_pos hp] at h
      rcases List.mem_cons.1 h with rfl | hrest
      · exact .inr ⟨a, List.mem_cons_self, rfl⟩
      · exact .inl (List.mem_cons_of_mem a hrest)
    · rw [modifyFirst, if_neg hp] at h
      rcases List.mem_cons.1 h with rfl | hrest
      · exact .inl List.mem_cons_self
      · rcases ih hrest with hmem | ⟨a', ha', rfl⟩
        · exact .inl (List.mem_cons_of_mem a hmem)
        · exact .inr ⟨a', List.mem_cons_of_mem a ha', rfl⟩

/-! ## What becomes of all elements -/

section map

variable {α β : Type} {p : α → Bool} {q : β → Bool} {f : α → α} {f' : β → β} {g : α → β}

/-- The change can be made before every element is mapped or after. -/
theorem modifyFirst_map {as : List α} (hp : ∀ a ∈ as, q (g a) = p a)
    (hf : ∀ a ∈ as, p a = true → f' (g a) = g (f a)) :
    modifyFirst q f' (as.map g) = (modifyFirst p f as).map g := by
  induction as with
  | nil => rfl
  | cons a as ih =>
    have hhead := hp a List.mem_cons_self
    have hrest := ih (fun b hb => hp b (List.mem_cons_of_mem a hb))
      fun b hb => hf b (List.mem_cons_of_mem a hb)
    by_cases ha : p a = true
    · have hchange := hf a List.mem_cons_self ha
      rw [List.map_cons, modifyFirst, modifyFirst, hhead, if_pos ha, if_pos ha, List.map_cons,
        hchange]
    · rw [List.map_cons, modifyFirst, modifyFirst, hhead, if_neg ha, if_neg ha, List.map_cons,
        hrest]

/-- What does not tell an element from what it becomes does not notice the change. -/
theorem map_modifyFirst (as : List α) (h : ∀ a ∈ as, p a = true → g (f a) = g a) :
    (modifyFirst p f as).map g = as.map g := by
  induction as with
  | nil => rfl
  | cons a as ih =>
    have hrest := ih fun b hb => h b (List.mem_cons_of_mem a hb)
    by_cases ha : p a = true
    · have hsame := h a List.mem_cons_self ha
      rw [modifyFirst, if_pos ha, List.map_cons, List.map_cons, hsame]
    · rw [modifyFirst, if_neg ha, List.map_cons, List.map_cons, hrest]

end map

/-! ## Looking up what was changed -/

variable {α : Type} {p q : α → Bool} {f : α → α} {as : List α}

/-- A search that neither the element nor what it becomes answers is not affected. -/
theorem find?_modifyFirst_of_ne (h : ∀ a, p a = true → q a = false ∧ q (f a) = false) :
    (modifyFirst p f as).find? q = as.find? q := by
  induction as with
  | nil => rfl
  | cons a as ih =>
    by_cases hp : p a
    · simp [modifyFirst, hp, h a hp]
    · simp [modifyFirst, hp, List.find?_cons, ih]

/-- A search that only what the element becomes answers finds that. -/
theorem find?_modifyFirst_of_fresh (hfresh : ∀ a ∈ as, q a = false)
    (h : ∀ a, p a = true → q (f a) = true) :
    (modifyFirst p f as).find? q = (as.find? p).map f := by
  induction as with
  | nil => rfl
  | cons a as ih =>
    by_cases hp : p a
    · simp [modifyFirst, hp, h a hp]
    · have hrest := ih fun b hb => hfresh b (List.mem_cons_of_mem a hb)
      simp [modifyFirst, hp, hfresh a List.mem_cons_self, hrest]

/-- Where there is only one match, none is left once it has become something else. -/
theorem find?_modifyFirst_self (hone : as.Pairwise fun a b => p a = true → p b = false)
    (h : ∀ a, p a = true → p (f a) = false) : (modifyFirst p f as).find? p = none := by
  induction as with
  | nil => rfl
  | cons a as ih =>
    obtain ⟨ha, has⟩ := List.pairwise_cons.1 hone
    by_cases hp : p a
    · have hrest : as.find? p = none := by
        rw [List.find?_eq_none]
        intro b hb
        simp [ha b hb hp]
      simp [modifyFirst, hp, h a hp, hrest]
    · simp [modifyFirst, hp, ih has]

end CallPatch
