import CallPatch.Json.Reader
import CallPatch.Proofs.Json.Walk
/-!
# JSON — what readers make of written values

A reader reads a value as something when it takes the walk of the value off
the front of any events and makes that of it (`Reads`). Each way to put
readers together has its lemma here, so that the reader of a format is
followed part by part along the way its documents are put together.
-/

namespace CallPatch.Json.Reader

variable {α β σ : Type}

/-- The reader takes the events of the value, whatever is behind them, and makes `a` of them. -/
def Reads (r : Reader α) (v : Json) (a : α) : Prop :=
  ∀ rest, r.run (walk v ++ rest) = some (a, rest)

/-- What is read may be checked and made into something else. -/
theorem Reads.refine {r : Reader α} {v : Json} {a : α} {f : α → Option β} {b : β}
    (h : r.Reads v a) (hf : f a = some b) : (r.refine f).Reads v b := by
  intro rest
  simp [Reader.refine, h rest, hf]

/-- A reader whose result is mapped reads the mapped value. -/
theorem Reads.map {r : Reader α} {v : Json} {a : α} (h : r.Reads v a) (f : α → β) :
    (r.map f).Reads v (f a) :=
  h.refine rfl

theorem Reads.once {r : Reader α} {v : Json} {a : α} (h : r.Reads v a) :
    (r.once none).Reads v (some a) :=
  h.map some

/-! ## Values without parts -/

/-- A value that is one event is read as that scalar. -/
theorem reads_scalar {v : Json} {s : Scalar} (h : walk v = [.scalar s]) : scalar.Reads v s := by
  intro rest
  rw [h]
  rfl

/-- A string is read as its text. -/
theorem reads_text (s : String) : text.Reads (.string s) s :=
  (reads_scalar rfl).refine rfl

/-- A number within the bounds is read as itself. -/
theorem reads_integer {low high i : Int} (hlow : low ≤ i) (hhigh : i ≤ high) :
    (integer low high).Reads (.number i) i :=
  (reads_scalar rfl).refine (by simp [Scalar.integer?, hlow, hhigh])

/-! ## Arrays -/

/-- No value begins with the end of an array, so that an item is never taken for the end of its
list. -/
theorem walk_ne_closeArray (v : Json) : ∃ e es, walk v = e :: es ∧ e ≠ .closeArray := by
  cases v <;> exact ⟨_, _, rfl, nofun⟩

/-- What has been read before an array's items stays in front of them. The induction is on the
items, and what is done grows with each. -/
theorem itemsOnto_walkItems {item : Reader α} {f : α → Json} {as : List α}
    (h : ∀ a ∈ as, item.Reads (f a) a) (done : List α) (rest : List Event) :
    itemsOnto item done (walkItems (as.map f) ++ rest) = some (done.reverse ++ as, rest) := by
  induction as generalizing done with
  | nil =>
    rw [List.append_nil]
    exact itemsOnto.eq_1 item done rest
  | cons a as ih =>
    have ha := h a List.mem_cons_self (walkItems (as.map f) ++ rest)
    obtain ⟨e, es, hwalk, hne⟩ := walk_ne_closeArray (f a)
    rw [List.map_cons, walkItems, List.append_assoc, itemsOnto]
    -- an item is there, and the reader takes it
    · split
      · rename_i hnone
        rw [ha] at hnone
        cases hnone
      · rename_i hsome
        rw [ha] at hsome
        cases hsome
        rw [ih fun b hb => h b (List.mem_cons_of_mem a hb)]
        simp
    -- the array does not end here
    · intro more heq
      rw [hwalk] at heq
      exact hne (List.cons.inj heq).1

/-- The items are read one by one. -/
theorem reads_list {item : Reader α} {f : α → Json} {as : List α}
    (h : ∀ a ∈ as, item.Reads (f a) a) : item.list.Reads (.array (as.map f)) as := by
  intro rest
  exact (itemsOnto_walkItems h [] rest).trans rfl

/-! ## Objects -/

/-- The fields are read one after another, from what has been read before to what then has. -/
inductive ReadsFields (field : String → σ → Option (Reader σ)) :
    σ → List (String × Json) → σ → Prop where
  | nil (s : σ) : ReadsFields field s [] s
  | cons {s s' t : σ} {k : String} {v : Json} {fields : List (String × Json)} {r : Reader σ}
      (hfield : field k s = some r) (hread : r.Reads v s') (rest : ReadsFields field s' fields t) :
      ReadsFields field s ((k, v) :: fields) t

/-- The induction follows the fields as they are read, each from the state that the one before it
left. -/
theorem ReadsFields.fieldsOnto_eq {field : String → σ → Option (Reader σ)} {s t : σ}
    {fields : List (String × Json)} (h : ReadsFields field s fields t) (rest : List Event) :
    fieldsOnto field s (walkFields fields ++ rest) = some (t, rest) := by
  induction h with
  | nil s => exact fieldsOnto.eq_1 field s rest
  | cons hfield hread _ ih =>
    rename_i fields r _
    have hread := hread (walkFields fields ++ rest)
    rw [walkFields, List.cons_append, List.append_assoc, fieldsOnto]
    -- the name has a reader, and the reader takes the value: the other branches are empty
    split
    · rename_i hnone
      rw [hfield] at hnone
      cases hnone
    · rename_i hsome
      rw [hfield] at hsome
      cases hsome
      split
      · rename_i hnone
        rw [hread] at hnone
        cases hnone
      · rename_i hsome
        rw [hread] at hsome
        cases hsome
        exact ih

/-- An object is read field by field. -/
theorem reads_object {field : String → σ → Option (Reader σ)} {s t : σ}
    {fields : List (String × Json)} (h : ReadsFields field s fields t) :
    (object s field).Reads (.object fields) t :=
  fun rest => h.fieldsOnto_eq rest

/-- An object with that field alone is read as what the field holds. -/
theorem reads_field {r : Reader α} {v : Json} {a : α} (name : String) (h : r.Reads v a) :
    (field name r).Reads (.object [(name, v)]) a :=
  (reads_object (.cons (if_pos rfl) (h.map some) (.nil _))).refine rfl

/-! ## Alternatives -/

variable {plain : String → Option α} {content : String → Option (Reader α)} {name : String} {a : α}

/-- A name by itself is the alternative that has no content. -/
theorem reads_plain (h : plain name = some a) :
    (alternative plain content).Reads (.string name) a := by
  intro rest
  simp [alternative, walk, h]

/-- An object with one field is the alternative with that name, and the field holds its content. -/
theorem reads_content {r : Reader α} {v : Json} (hplain : plain name = none)
    (hcontent : content name = some r) (h : r.Reads v a) :
    (alternative plain content).Reads (.object [(name, v)]) a := by
  intro rest
  have hread := h (.closeObject :: rest)
  simp [alternative, walk, walkFields, hplain, hcontent, hread]

end CallPatch.Json.Reader
