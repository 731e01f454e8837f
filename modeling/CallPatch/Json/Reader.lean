import CallPatch.Json.Event
/-!
# JSON — readers

A reader takes what it reads off the front of a sequence of events, and takes
at least one event, which is why reading many items ends. Readers are put
together from smaller ones: an array reads each of its items with one reader,
an object chooses a reader by the key, an alternative by its name.

Where a value without parts is wanted, an object may stand that holds it
under the key `_arg`; the last one counts, and other fields are passed over.
An array or an object under that key holds no such value. Its opening is
passed over, and then one value inside, so that what is left of it is read as
if it stood in the outer object: left-over items count for nothing, and the
end of an inner object that is not empty ends the outer one.
-/

namespace CallPatch.Json

/-- Takes a value off the front of the events, if one is there that it can read. -/
structure Reader (α : Type) where
  run : List Event → Option (α × List Event)
  shrinks : ∀ {es rest : List Event} {v : α}, run es = some (v, rest) → rest.length < es.length

/-! ## Passing over -/

/-- Passes over what is left of one value with `depth` containers open, or over a value to come
where none is. -/
def passOver? (depth : Nat) : List Event → Option (List Event)
  | [] => none
  | .openArray :: rest => passOver? (depth + 1) rest
  | .openObject :: rest => passOver? (depth + 1) rest
  | .closeArray :: rest => if depth ≤ 1 then some rest else passOver? (depth - 1) rest
  | .closeObject :: rest => if depth ≤ 1 then some rest else passOver? (depth - 1) rest
  | .key _ :: rest => passOver? depth rest
  | .scalar _ :: rest => if depth = 0 then some rest else passOver? depth rest

/-- Passing over a value takes at least its first event. -/
theorem length_lt_of_passOver? {depth : Nat} {es rest : List Event}
    (h : passOver? depth es = some rest) : rest.length < es.length := by
  induction es generalizing depth with
  | nil => cases h
  | cons e es ih =>
    have step {d : Nat} (h : passOver? d es = some rest) : rest.length < (e :: es).length :=
      Nat.lt_succ_of_lt (ih h)
    have stop (h : some es = some rest) : rest.length < (e :: es).length := by
      cases h
      exact Nat.lt_succ_self _
    cases e
    case openArray => exact step h
    case openObject => exact step h
    case key => exact step h
    all_goals
      rw [passOver?] at h
      split at h
      · exact stop h
      · exact step h

/-! ## Values without parts -/

/-- The key of the value that an object stands for. -/
def argumentKey : String := "_arg"

/-- The rest of an object that stands for a value, when the last such value seen is `found`. -/
def argumentOnto (found : Option Scalar) (es : List Event) : Option (Option Scalar × List Event) :=
  match es with
  | [] => none
  | .closeObject :: rest => some (found, rest)
  | .key k :: .scalar v :: rest => argumentOnto (if k = argumentKey then some v else found) rest
  | .key k :: _ :: rest =>
    match _h : passOver? (if k = argumentKey then 0 else 1) rest with
    | none => none
    | some rest' => argumentOnto found rest'
  | _ :: rest => argumentOnto found rest
termination_by es.length
decreasing_by
  · simp only [List.length_cons]
    omega
  · have := length_lt_of_passOver? _h
    simp only [List.length_cons]
    omega
  · simp

theorem length_lt_of_argumentOnto {found v : Option Scalar} {es rest : List Event}
    (h : argumentOnto found es = some (v, rest)) : rest.length < es.length := by
  fun_induction argumentOnto found es with
  | case1 => cases h
  | case2 =>
    cases h
    simp
  | case3 found k v es ih =>
    have := ih h
    simp only [List.length_cons]
    omega
  | case4 => cases h
  | case5 found k e es _ es' hover ih =>
    have := ih h
    have := length_lt_of_passOver? hover
    simp only [List.length_cons]
    omega
  | case6 found e es _ _ _ ih =>
    have := ih h
    simp only [List.length_cons]
    omega

namespace Reader

variable {α β σ : Type}

/-- What a reader reads, as far as `f` accepts it. -/
def refine (r : Reader α) (f : α → Option β) : Reader β where
  run es := (r.run es).bind fun (v, rest) => (f v).map fun w => (w, rest)
  shrinks h := by
    simp only [Option.bind_eq_some_iff, Option.map_eq_some_iff, Prod.mk.injEq] at h
    obtain ⟨⟨v, rest⟩, hv, _, -, -, rfl⟩ := h
    exact r.shrinks hv

/-- What a reader reads, changed by `f`. -/
def map (r : Reader α) (f : α → β) : Reader β :=
  r.refine fun v => some (f v)

/-- Reads nothing. -/
def fail : Reader α where
  run _ := none
  shrinks h := by cases h

/-- Reads a value without parts. -/
def scalar : Reader Scalar where
  run
    | .scalar v :: rest => some (v, rest)
    | .openObject :: rest =>
      match argumentOnto none rest with
      | some (some v, rest') => some (v, rest')
      | _ => none
    | _ => none
  shrinks h := by
    split at h
    · cases h
      simp
    · split at h
      · rename_i hv
        have := length_lt_of_argumentOnto hv
        cases h
        simp only [List.length_cons]
        omega
      · cases h
    · cases h

/-- Reads a text. -/
def text : Reader String :=
  scalar.refine Scalar.text?

/-- Reads a whole number from `low` to `high`. -/
def integer (low high : Int) : Reader Int :=
  scalar.refine (Scalar.integer? low high)

/-! ## Arrays -/

/-- The items up to the end of the array, behind the items `done`, the last of them first. -/
def itemsOnto (item : Reader α) (done : List α) (es : List Event) :
    Option (List α × List Event) :=
  match es with
  | .closeArray :: rest => some (done.reverse, rest)
  | es =>
    match _h : item.run es with
    | none => none
    | some (v, rest) => itemsOnto item (v :: done) rest
termination_by es.length
decreasing_by exact item.shrinks _h

/-- Reading the items takes at least the end of the array. -/
theorem length_lt_of_itemsOnto {item : Reader α} {done vs : List α} {es rest : List Event}
    (h : itemsOnto item done es = some (vs, rest)) : rest.length < es.length := by
  fun_induction itemsOnto item done es with
  | case1 =>
    cases h
    simp
  | case2 => cases h
  | case3 done es _ v es' hitem ih => exact Nat.lt_trans (ih h) (item.shrinks hitem)

/-- Reads an array of items. -/
def list (item : Reader α) : Reader (List α) where
  run
    | .openArray :: rest => itemsOnto item [] rest
    | _ => none
  shrinks h := by
    split at h
    · have := length_lt_of_itemsOnto h
      simp only [List.length_cons]
      omega
    · cases h

/-! ## Objects -/

/-- The fields up to the end of the object. What the fields before have come to is `s`. -/
def fieldsOnto (field : String → σ → Option (Reader σ)) (s : σ) (es : List Event) :
    Option (σ × List Event) :=
  match es with
  | .closeObject :: rest => some (s, rest)
  | .key k :: rest =>
    match field k s with
    | none =>
      match _h : passOver? 0 rest with
      | none => none
      | some rest' => fieldsOnto field s rest'
    | some r =>
      match _h : r.run rest with
      | none => none
      | some (s', rest') => fieldsOnto field s' rest'
  | _ => none
termination_by es.length
decreasing_by
  · have := length_lt_of_passOver? _h
    simp only [List.length_cons]
    omega
  · have := r.shrinks _h
    simp only [List.length_cons]
    omega

/-- Reading the fields takes at least the end of the object. -/
theorem length_lt_of_fieldsOnto {field : String → σ → Option (Reader σ)} {s t : σ}
    {es rest : List Event} (h : fieldsOnto field s es = some (t, rest)) :
    rest.length < es.length := by
  fun_induction fieldsOnto field s es with
  | case1 =>
    cases h
    simp
  | case2 => cases h
  | case3 s k es _ es' hover ih =>
    have := ih h
    have := length_lt_of_passOver? hover
    simp only [List.length_cons]
    omega
  | case4 => cases h
  | case5 s k es r _ s' es' hrun ih =>
    have := ih h
    have := r.shrinks hrun
    simp only [List.length_cons]
    omega
  | case6 => cases h

/-- Reads an object field by field, from `s` on. The key and what the fields before have come to
choose the reader of the value; a field without a reader is passed over. -/
def object (s : σ) (field : String → σ → Option (Reader σ)) : Reader σ where
  run
    | .openObject :: rest => fieldsOnto field s rest
    | _ => none
  shrinks h := by
    split at h
    · have := length_lt_of_fieldsOnto h
      simp only [List.length_cons]
      omega
    · cases h

/-- Reads a value that must not have been read before. -/
def once (r : Reader α) : Option α → Reader (Option α)
  | none => r.map some
  | some _ => fail

/-- Reads an object for the last of its fields of one name. -/
def field (name : String) (r : Reader α) : Reader α :=
  (object none fun key _ => if key = name then some (r.map some) else none).refine id

/-! ## Alternatives -/

/-- Reads one of several alternatives by its name. One without content is its name alone, or an
object with an empty object under the name; one with content is an object with the content under
the name. The object has no other field. -/
def alternative (plain : String → Option α) (content : String → Option (Reader α)) : Reader α where
  run
    | .scalar (.string name) :: rest => (plain name).map fun v => (v, rest)
    | .openObject :: .key name :: rest =>
      match plain name, rest with
      | some v, .openObject :: .closeObject :: .closeObject :: rest' => some (v, rest')
      | some _, _ => none
      | none, rest =>
        match (content name).bind fun r => r.run rest with
        | some (v, .closeObject :: rest') => some (v, rest')
        | _ => none
    | _ => none
  shrinks h := by
    split at h
    · simp only [Option.map_eq_some_iff, Prod.mk.injEq] at h
      obtain ⟨_, -, -, rfl⟩ := h
      simp
    · split at h
      · cases h
        simp only [List.length_cons]
        omega
      · cases h
      · split at h
        · rename_i hrun
          simp only [Option.bind_eq_some_iff] at hrun
          obtain ⟨r, -, hrun⟩ := hrun
          have := r.shrinks hrun
          cases h
          simp only [List.length_cons] at *
          omega
        · cases h
    · cases h

end Reader

end CallPatch.Json
