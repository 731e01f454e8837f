import CallPatch.Json.Event
import CallPatch.Proofs.Json.Spelling
/-!
# JSON — the events of a written value

A value has a walk: its events from the first to the last (`walk`). Wherever
a value may stand, scanning passes over what is written for it, takes its
walk and goes on behind it (`scan_render`), so that the events of a document
are the walk of the value it was written from (`events_render`). A number has
to fit 128 bits for that, and nothing may go on with it.
-/

namespace CallPatch.Json

/-! ## The walk of a value -/

mutual

/-- The events of a value. -/
def walk : Json → List Event
  | .null => [.scalar .null]
  | .bool b => [.scalar (.bool b)]
  | .number i => [.scalar (.whole i)]
  | .string s => [.scalar (.string s)]
  | .array items => .openArray :: walkItems items
  | .object fields => .openObject :: walkFields fields

/-- The events of the items, and the end of the array. -/
def walkItems : List Json → List Event
  | [] => [.closeArray]
  | v :: items => walk v ++ walkItems items

/-- The events of the fields, and the end of the object. -/
def walkFields : List (String × Json) → List Event
  | [] => [.closeObject]
  | (k, v) :: fields => .key k :: (walk v ++ walkFields fields)

end

/-- The whole numbers among the events fit 128 bits. -/
def Fitting (es : List Event) : Prop :=
  ∀ i, .scalar (.whole i) ∈ es → FitsWhole i

/-- What fits, fits in every part. -/
theorem Fitting.left {es fs : List Event} (h : Fitting (es ++ fs)) : Fitting es :=
  fun i hi => h i (List.mem_append_left fs hi)

theorem Fitting.right {es fs : List Event} (h : Fitting (es ++ fs)) : Fitting fs :=
  fun i hi => h i (List.mem_append_right es hi)

theorem Fitting.tail {e : Event} {es : List Event} (h : Fitting (e :: es)) : Fitting es :=
  fun i hi => h i (List.mem_cons_of_mem e hi)

/-- Events that fit may be joined. -/
theorem Fitting.append {es fs : List Event} (hes : Fitting es) (hfs : Fitting fs) :
    Fitting (es ++ fs) :=
  fun i hi => (List.mem_append.1 hi).elim (hes i) (hfs i)

/-- A number fits where it fits 128 bits. -/
theorem fitting_walk_number {i : Int} (h : FitsWhole i) : Fitting (walk (.number i)) := by
  intro j hj
  obtain rfl : j = i := by simpa [walk] using hj
  exact h

/-- A string has no number in it, whatever its text. -/
theorem fitting_walk_string (s : String) : Fitting (walk (.string s)) := by
  intro i hi
  simp [walk] at hi

/-- An array fits if its items do. -/
theorem fitting_walk_array {items : List Json} (h : ∀ v ∈ items, Fitting (walk v)) :
    Fitting (walk (.array items)) := by
  suffices hitems : Fitting (walkItems items) by
    intro i hi
    exact hitems i (by simpa [walk] using hi)
  induction items with
  | nil =>
    intro i hi
    simp [walkItems] at hi
  | cons v items ih =>
    have hrest := ih fun w hw => h w (List.mem_cons_of_mem v hw)
    exact (h v List.mem_cons_self).append hrest

/-- An object fits if its values do; the keys are no numbers. -/
theorem fitting_walk_object {fields : List (String × Json)}
    (h : ∀ p ∈ fields, Fitting (walk p.2)) : Fitting (walk (.object fields)) := by
  suffices hfields : Fitting (walkFields fields) by
    intro i hi
    exact hfields i (by simpa [walk] using hi)
  induction fields with
  | nil =>
    intro i hi
    simp [walkFields] at hi
  | cons p fields ih =>
    obtain ⟨k, v⟩ := p
    have hrest := ih fun q hq => h q (List.mem_cons_of_mem _ hq)
    have hv : Fitting (walk v) := h (k, v) List.mem_cons_self
    intro i hi
    exact (hv.append hrest) i (by simpa [walkFields] using hi)

/-! ## Tokens -/

/-- A quoted string is one token. -/
theorem next?_quoted (s : String) (rest : List Char) :
    Token.next? (quoted s ++ rest) = some (.scalar (.string s), rest) := by
  have hquote : isSpace '"' = false := by decide
  have hread := string?_quotedFrom s rest
  simp only [Token.next?, quoted, List.cons_append, List.append_assoc, List.nil_append,
    List.dropWhile_cons, hquote, Bool.false_eq_true, if_false, Token.head?, hread, Option.map_some]

/-- A digit is no blank, so that no part of a number is passed over. -/
theorem isSpace_of_isDigit {c : Char} (h : c.isDigit = true) : isSpace c = false := by
  cases hspace : isSpace c with
  | false => rfl
  | true =>
    simp only [isSpace, Bool.or_eq_true, decide_eq_true_eq] at hspace
    rcases hspace with ((rfl | rfl) | rfl) | rfl
    all_goals exact absurd h (by decide)

/-- A number opens with its sign or a digit, and no other token does. -/
theorem head?_of_digit {c : Char} {cs : List Char} (h : c.isDigit = true ∨ c = '-') :
    Token.head? (c :: cs) = (number? (c :: cs)).map fun (n, rest) => (.scalar n, rest) := by
  rw [Token.head?]
  all_goals
    intro rest heq
    cases heq
    exact absurd h (by decide)

/-- A number is one token, if nothing behind it goes on with it. -/
theorem next?_signed {i : Int} {rest : List Char} (hi : FitsWhole i) (hrest : EndsNumber rest) :
    Token.next? (Numeral.signed i ++ rest) = some (.scalar (.whole i), rest) := by
  have hread := number?_signed hi hrest
  obtain ⟨c, cs, hcs, hc⟩ : ∃ c cs, Numeral.signed i = c :: cs ∧ (c.isDigit = true ∨ c = '-') := by
    unfold Numeral.signed
    split
    · exact ⟨_, _, rfl, .inr rfl⟩
    · obtain ⟨c, cs, hcs⟩ := List.exists_cons_of_ne_nil (Numeral.decimal_ne_nil i.natAbs)
      exact ⟨c, cs, hcs, .inl (Numeral.isDigit_of_mem_decimal (hcs ▸ List.mem_cons_self))⟩
  have hspace : isSpace c = false := by
    rcases hc with hc | rfl
    · exact isSpace_of_isDigit hc
    · decide
  rw [hcs, List.cons_append] at hread ⊢
  simp only [Token.next?, List.dropWhile_cons, hspace, Bool.false_eq_true, if_false,
    head?_of_digit hc, hread, Option.map_some]

/-! ## Scanning -/

/-- Scanning takes one token, which moves the place and gives at most one event. -/
theorem scanOnto_token {seen : List Event} {place next : Place} {cs rest : List Char} {t : Token}
    {event : Option Event} (ht : Token.next? cs = some (t, rest))
    (hstep : place.step t = some (next, event)) :
    scanOnto seen place cs = scanOnto (event.toList ++ seen) next rest := by
  have hplace : place ≠ .done := by
    rintro rfl
    cases hstep
  rw [scanOnto]
  · split
    · rename_i hnone
      rw [ht] at hnone
      cases hnone
    · rename_i hsome
      rw [ht] at hsome
      cases hsome
      rw [hstep]
  · exact hplace

/-- A value may stand at the place, in these containers. -/
inductive Place.Takes : Place → List Container → Prop where
  | value (outer : List Container) : Takes (.value outer) outer
  | item (outer : List Container) : Takes (.item outer) (.array :: outer)

/-- The tokens that begin a value. -/
inductive Token.Begins : Token → Prop where
  | scalar (v : Scalar) : Begins (.scalar v)
  | openArray : Begins .openArray
  | openObject : Begins .openObject

/-- Where a value may stand, the token that begins it leads into the value. -/
theorem Place.Takes.step {place : Place} {outer : List Container} {t : Token}
    (h : place.Takes outer) (ht : t.Begins) : place.step t = enter outer t := by
  cases h <;> cases ht <;> rfl

/-- Behind an item stands a comma or the end of the array, and neither goes on with a number. -/
theorem endsNumber_renderItems (items : List Json) (rest : List Char) :
    EndsNumber (renderItems items ++ rest) := by
  cases items <;> simp [EndsNumber, renderItems, Char.isDigit]

/-- So it is behind the value of a field. -/
theorem endsNumber_renderFields (fields : List (String × Json)) (rest : List Char) :
    EndsNumber (renderFields fields ++ rest) := by
  cases fields <;> simp [EndsNumber, renderFields, Char.isDigit]

/-- What is written for the value is scanned for its walk, wherever a value may stand. -/
def Scans (v : Json) : Prop :=
  ∀ (seen : List Event) {place : Place} {outer : List Container} {rest : List Char},
    place.Takes outer → EndsNumber rest →
    scanOnto seen place (render v ++ rest)
      = scanOnto ((walk v).reverse ++ seen) (.behind outer) rest

/-- A value that is one token is scanned for its one event. -/
theorem scans_of_token {v : Json} {s : Scalar} (hwalk : walk v = [.scalar s])
    (htoken : ∀ {rest}, EndsNumber rest →
      Token.next? (render v ++ rest) = some (.scalar s, rest)) : Scans v := by
  intro seen place outer rest hplace hrest
  rw [scanOnto_token (htoken hrest) (hplace.step (.scalar s)), hwalk]
  rfl

/-- A field is scanned for its key and the walk of its value. -/
theorem scan_field {v : Json} (hv : Scans v) (seen : List Event) (k : String)
    (outer : List Container) {rest : List Char} (hrest : EndsNumber rest) :
    scanOnto seen (.key outer) (quoted k ++ ':' :: (render v ++ rest))
      = scanOnto ((Event.key k :: walk v).reverse ++ seen) (.fieldEnd outer) rest := by
  have hcolon : Token.next? (':' :: (render v ++ rest)) = some (.colon, render v ++ rest) := rfl
  rw [scanOnto_token (next?_quoted k _) rfl, scanOnto_token hcolon rfl,
    hv _ (.value (.object :: outer)) hrest, List.reverse_cons, List.append_assoc]
  rfl

mutual

/-- **What is written for a value is passed over for its walk.** -/
theorem scan_render : (v : Json) → Fitting (walk v) → Scans v
  | .null, _ => scans_of_token rfl fun _ => rfl
  | .bool true, _ => scans_of_token rfl fun _ => rfl
  | .bool false, _ => scans_of_token rfl fun _ => rfl
  | .number i, h => scans_of_token rfl (next?_signed (h i (by simp [walk])))
  | .string s, _ => scans_of_token rfl fun _ => next?_quoted s _
  | .array [], _ => by
    intro seen place outer rest hplace hrest
    have hopen : Token.next? (render (.array []) ++ rest) = some (.openArray, ']' :: rest) := rfl
    have hclose : Token.next? (']' :: rest) = some (.closeArray, rest) := rfl
    rw [scanOnto_token hopen (hplace.step .openArray), scanOnto_token hclose rfl]
    rfl
  | .array (v :: items), h => by
    intro seen place outer rest hplace hrest
    have hopen : Token.next? (render (.array (v :: items)) ++ rest)
        = some (.openArray, render v ++ (renderItems items ++ rest)) := by
      rw [render, List.cons_append, List.append_assoc]
      rfl
    have hitems := endsNumber_renderItems items rest
    rw [walk, walkItems] at h ⊢
    rw [scanOnto_token hopen (hplace.step .openArray),
      scan_render v h.tail.left _ (.item outer) hitems]
    refine (scan_renderItems items h.tail.right _ outer rest).trans ?_
    simp
  | .object [], _ => by
    intro seen place outer rest hplace hrest
    have hopen : Token.next? (render (.object []) ++ rest) = some (.openObject, '}' :: rest) := rfl
    have hclose : Token.next? ('}' :: rest) = some (.closeObject, rest) := rfl
    rw [scanOnto_token hopen (hplace.step .openObject), scanOnto_token hclose rfl]
    rfl
  | .object ((k, v) :: fields), h => by
    intro seen place outer rest hplace hrest
    have hopen : Token.next? (render (.object ((k, v) :: fields)) ++ rest)
        = some (.openObject, quoted k ++ ':' :: (render v ++ (renderFields fields ++ rest))) := by
      rw [render, List.cons_append, List.append_assoc, List.cons_append, List.append_assoc]
      rfl
    have hfields := endsNumber_renderFields fields rest
    rw [walk, walkFields] at h ⊢
    rw [scanOnto_token hopen (hplace.step .openObject),
      scan_field (scan_render v h.tail.tail.left) _ k outer hfields,
      scan_renderFields fields h.tail.tail.right]
    simp

/-- What is written behind the first item is passed over for the walk of the other items and the end
of the array. -/
theorem scan_renderItems : (items : List Json) → Fitting (walkItems items) →
    ∀ (seen : List Event) (outer : List Container) (rest : List Char),
      scanOnto seen (.itemEnd outer) (renderItems items ++ rest)
        = scanOnto ((walkItems items).reverse ++ seen) (.behind outer) rest
  | [], _ => by
    intro seen outer rest
    have hclose : Token.next? (']' :: rest) = some (.closeArray, rest) := rfl
    rw [renderItems, List.cons_append, List.nil_append, scanOnto_token hclose rfl]
    rfl
  | v :: items, h => by
    intro seen outer rest
    have hcomma : Token.next? (renderItems (v :: items) ++ rest)
        = some (.comma, render v ++ (renderItems items ++ rest)) := by
      rw [renderItems, List.cons_append, List.append_assoc]
      rfl
    have hitems := endsNumber_renderItems items rest
    rw [walkItems] at h ⊢
    rw [scanOnto_token hcomma rfl, scan_render v h.left _ (.item outer) hitems]
    refine (scan_renderItems items h.right _ outer rest).trans ?_
    simp

/-- The fields behind the first likewise, each for its key and the walk of its value. -/
theorem scan_renderFields : (fields : List (String × Json)) → Fitting (walkFields fields) →
    ∀ (seen : List Event) (outer : List Container) (rest : List Char),
      scanOnto seen (.fieldEnd outer) (renderFields fields ++ rest)
        = scanOnto ((walkFields fields).reverse ++ seen) (.behind outer) rest
  | [], _ => by
    intro seen outer rest
    have hclose : Token.next? ('}' :: rest) = some (.closeObject, rest) := rfl
    rw [renderFields, List.cons_append, List.nil_append, scanOnto_token hclose rfl]
    rfl
  | (k, v) :: fields, h => by
    intro seen outer rest
    have hcomma : Token.next? (renderFields ((k, v) :: fields) ++ rest)
        = some (.comma, quoted k ++ ':' :: (render v ++ (renderFields fields ++ rest))) := by
      rw [renderFields, List.cons_append, List.append_assoc, List.cons_append, List.append_assoc]
      rfl
    have hfields := endsNumber_renderFields fields rest
    rw [walkFields] at h ⊢
    rw [scanOnto_token hcomma rfl, scan_field (scan_render v h.tail.left) _ k outer hfields,
      scan_renderFields fields h.tail.right]
    simp

end

/-! ## Documents -/

mutual

/-- Every backslash that is written has ASCII behind it, and none is left open at the end. -/
theorem inert_render : (v : Json) → Inert (render v)
  | .null => .of_forall (by simp [render])
  | .bool true => .of_forall (by simp [render])
  | .bool false => .of_forall (by simp [render])
  | .number i => inert_signed i
  | .string s => inert_quoted s
  | .array [] => .of_forall (by simp [render])
  | .array (v :: items) => .cons (by decide) ((inert_render v).append (inert_renderItems items))
  | .object [] => .of_forall (by simp [render])
  | .object ((k, v) :: fields) =>
    .cons (by decide) ((inert_quoted k).append
      (.cons (by decide) ((inert_render v).append (inert_renderFields fields))))

theorem inert_renderItems : (items : List Json) → Inert (renderItems items)
  | [] => .of_forall (by simp [renderItems])
  | v :: items => .cons (by decide) ((inert_render v).append (inert_renderItems items))

theorem inert_renderFields : (fields : List (String × Json)) → Inert (renderFields fields)
  | [] => .of_forall (by simp [renderFields])
  | (k, v) :: fields =>
    .cons (by decide) ((inert_quoted k).append
      (.cons (by decide) ((inert_render v).append (inert_renderFields fields))))

end

/-- **The events of a document are the walk of the value it was written from.** -/
theorem events_render {v : Json} (h : Fitting (walk v)) :
    events (characters (Utf8.encode (render v))) = walk v := by
  have hends : EndsNumber [] := nofun
  have hscan := scan_render v h [] (.value []) hends
  rw [List.append_nil, List.append_nil] at hscan
  rw [(inert_render v).characters_encode, events, hscan, Place.behind, scanOnto]
  exact List.reverse_reverse (walk v)

end CallPatch.Json
