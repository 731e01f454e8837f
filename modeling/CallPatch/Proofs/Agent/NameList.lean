import CallPatch.Config
import Mathlib.Data.List.DropRight
import Mathlib.Data.List.Forall2
/-!
# Lists of names — which texts hold which names

The owners to extend are given as one text, with commas between the names. It is
forgiving: there may be white space around a name, and there may be fields of
nothing else. What a text holds is told by its fields (`Spaced`): each name stands
in a field of its own, in order, and all other fields are blank. A text is read as a
list of names just when those are names and its fields hold them in this way
(`AgentConfig.parseNames_eq_iff`), so however the names are written they are read as
they are.

A name is a text that can come out of such a list at all: it is not empty, has no
comma in it and no white space at either end.
-/

namespace CallPatch

namespace Text

variable {s t name : String} {fields names : List String} {cs : List Char}

/-! ## White space around a text -/

/-- The text is white space throughout. -/
def Blank (s : String) : Prop :=
  ∀ c ∈ s.toList, isBlank c = true

instance (s : String) : Decidable (Blank s) :=
  inferInstanceAs (Decidable (∀ c ∈ s.toList, isBlank c = true))

/-- The text has white space at neither end. -/
def Bare (s : String) : Prop :=
  (∀ c ∈ s.toList.head?, isBlank c = false) ∧ ∀ c ∈ s.toList.getLast?, isBlank c = false

/-- The second text is the first one without the white space at its ends. -/
structure Trims (s t : String) : Prop where
  bare : Bare t
  around : ∃ before after, Blank before ∧ Blank after ∧ s = before ++ t ++ after

/-- What stands in a text is what stands in one of its parts. -/
theorem mem_around {c : Char} {before after : String} :
    c ∈ (before ++ s ++ after).toList ↔
      c ∈ before.toList ∨ c ∈ s.toList ∨ c ∈ after.toList := by
  rw [String.toList_append, String.toList_append, List.mem_append, List.mem_append, or_assoc]

theorem dropWhile_of_head? (h : ∀ c ∈ cs.head?, isBlank c = false) :
    cs.dropWhile isBlank = cs := by
  cases cs with
  | nil => rfl
  | cons c cs => exact List.dropWhile_cons_of_neg (Bool.not_eq_true _ ▸ h c rfl)

/-- Trimming takes white space away from both ends, and stops at what is none. -/
theorem trimChars_append {before after : List Char} (hbefore : ∀ c ∈ before, isBlank c = true)
    (hafter : ∀ c ∈ after, isBlank c = true) (hhead : ∀ c ∈ cs.head?, isBlank c = false)
    (hlast : ∀ c ∈ cs.getLast?, isBlank c = false) : trimChars (before ++ cs ++ after) = cs := by
  rw [trimChars, List.append_assoc, List.dropWhile_append_of_pos hbefore]
  cases cs with
  | nil =>
    rw [List.nil_append, List.dropWhile_eq_nil_iff.2 hafter]
    rfl
  | cons c cs =>
    have hfront : ((c :: cs) ++ after).dropWhile isBlank = (c :: cs) ++ after :=
      dropWhile_of_head? hhead
    rw [hfront, List.reverse_append, List.dropWhile_append_of_pos (by simpa using hafter),
      dropWhile_of_head? (by rwa [List.head?_reverse]), List.reverse_reverse]

/-- Trimming takes blanks off both ends. -/
theorem trimChars_eq (cs : List Char) :
    trimChars cs = (cs.dropWhile isBlank).rdropWhile isBlank := rfl

/-- What is left of a text has no blank at its ends. -/
theorem bare_trim (s : String) : Bare (trim s) := by
  rw [Bare, trim, String.toList_ofList, trimChars_eq]
  constructor
  · -- what trimming leaves at the right end is a front of what it left at the other
    intro c hc
    obtain ⟨after, hfront⟩ := List.rdropWhile_prefix isBlank (s.toList.dropWhile isBlank)
    have hhead := List.head?_dropWhile_not isBlank s.toList
    rw [← hfront, List.head?_append, Option.mem_def.1 hc] at hhead
    exact hhead
  · intro c hc
    obtain ⟨hne, rfl⟩ := List.mem_getLast?_eq_getLast hc
    exact Bool.eq_false_iff.2 (List.rdropWhile_last_not isBlank _ hne)

/-- **Trimming is exact.** -/
theorem trim_eq_iff : trim s = t ↔ Trims s t := by
  constructor
  · rintro rfl
    refine ⟨bare_trim s, .ofList (s.toList.takeWhile isBlank),
      .ofList ((s.toList.dropWhile isBlank).rtakeWhile isBlank), ?_, ?_, ?_⟩
    · rw [Blank, String.toList_ofList]
      exact fun c => List.mem_takeWhile_imp
    · rw [Blank, String.toList_ofList]
      exact fun c => List.mem_rtakeWhile_imp
    · rw [trim, trimChars_eq, ← String.ofList_append, ← String.ofList_append, List.append_assoc,
        List.rdropWhile_append_rtakeWhile, List.takeWhile_append_dropWhile, String.ofList_toList]
  · rintro ⟨⟨hhead, hlast⟩, before, after, hbefore, hafter, rfl⟩
    rw [trim, String.toList_append, String.toList_append,
      trimChars_append hbefore hafter hhead hlast, String.ofList_toList]

/-- Blanks alone trim to nothing. -/
theorem trims_empty_iff : Trims s "" ↔ Blank s := by
  constructor
  · rintro ⟨-, before, after, hbefore, hafter, rfl⟩ c hc
    rcases mem_around.1 hc with hc | hc | hc
    · exact hbefore c hc
    · exact absurd hc List.not_mem_nil
    · exact hafter c hc
  · intro hblank
    exact ⟨⟨nofun, nofun⟩, s, "", hblank, nofun, by simp⟩

/-- What is kept of a field is what trimming leaves, if it leaves anything. -/
theorem trimmed?_eq_some_iff : trimmed? s = some t ↔ t ≠ "" ∧ Trims s t := by
  rw [← trim_eq_iff, trimmed?]
  split
  · next hempty =>
    rw [String.isEmpty_iff] at hempty
    refine iff_of_false nofun ?_
    rintro ⟨hne, rfl⟩
    exact hne hempty
  · next hne =>
    rw [String.isEmpty_iff] at hne
    rw [Option.some_inj]
    exact ⟨fun h => ⟨h ▸ hne, h⟩, And.right⟩

/-- A field of blanks alone is dropped. -/
theorem trimmed?_eq_none_iff : trimmed? s = none ↔ Blank s := by
  rw [← trims_empty_iff, ← trim_eq_iff, trimmed?, ← String.isEmpty_iff, ite_eq_left_iff]
  simp

/-! ## Fields -/

/-- No piece holds what it was cut at. -/
theorem notMem_of_mem_splitOn {c : Char} {part : List Char} (h : part ∈ cs.splitOn c) :
    c ∉ part := by
  induction cs generalizing part with
  | nil =>
    obtain rfl := List.mem_singleton.1 h
    exact List.not_mem_nil
  | cons c' cs ih =>
    rw [List.splitOn_cons_eq_if_modifyHead] at h
    split at h
    · rcases List.mem_cons.1 h with rfl | htail
      · exact List.not_mem_nil
      · exact ih htail
    · next hne =>
      obtain ⟨first, others, hsplit⟩ := List.exists_cons_of_ne_nil (List.splitOn_ne_nil c cs)
      rw [hsplit, List.modifyHead_cons] at h
      rw [hsplit] at ih
      rcases List.mem_cons.1 h with rfl | htail
      · have hc : c ≠ c' := fun heq => hne (heq ▸ beq_self_eq_true c)
        exact List.not_mem_cons_of_ne_of_not_mem hc (ih List.mem_cons_self)
      · exact ih (List.mem_cons_of_mem _ htail)

theorem comma_notMem_of_mem_commaFields {field : String} (h : field ∈ commaFields s) :
    ',' ∉ field.toList := by
  obtain ⟨part, hpart, rfl⟩ := List.mem_map.1 h
  rw [String.toList_ofList]
  exact notMem_of_mem_splitOn hpart

/-- The fields with commas between them are the text again. -/
theorem intercalate_commaFields (s : String) : ",".intercalate (commaFields s) = s := by
  have hparts : (commaFields s).map String.toList = s.toList.splitOn ',' := by
    rw [commaFields, List.map_map]
    exact List.map_id'' (fun _ => String.toList_ofList) _
  rw [← String.toList_inj, String.toList_intercalate, hparts]
  exact List.intercalate_splitOn ','

/-- Fields without commas are found again between the commas. -/
theorem commaFields_intercalate (h : ∀ field ∈ fields, ',' ∉ field.toList) (hne : fields ≠ []) :
    commaFields (",".intercalate fields) = fields := by
  have hparts : ∀ part ∈ fields.map String.toList, ',' ∉ part := List.forall_mem_map.2 h
  have hsplit := List.splitOn_intercalate ',' hparts (by simpa using hne)
  rw [commaFields, String.toList_intercalate]
  show (([','].intercalate (fields.map String.toList)).splitOn ',').map String.ofList = fields
  rw [hsplit, List.map_map]
  exact List.map_id'' (fun _ => String.ofList_toList) _

/-- A field that is not blank gives the text in it. -/
theorem filterMap_trimmed? (fields : List String) :
    fields.filterMap trimmed? = (fields.filter fun field => ¬Blank field).map trim := by
  induction fields with
  | nil => rfl
  | cons field fields ih =>
    by_cases hblank : Blank field
    · rw [List.filterMap_cons_none (trimmed?_eq_none_iff.2 hblank),
        List.filter_cons_of_neg (by simpa using hblank), ih]
    · have hsome : trimmed? field = some (trim field) := by
        refine trimmed?_eq_some_iff.2 ⟨fun hnone => hblank ?_, trim_eq_iff.1 rfl⟩
        exact trims_empty_iff.1 (trim_eq_iff.1 hnone)
      rw [List.filterMap_cons_some hsome, List.filter_cons_of_pos (by simpa using hblank),
        List.map_cons, ih]

/-- The texts in the fields, in order, are told by what trimming is. -/
theorem filterMap_trimmed?_eq_iff :
    fields.filterMap trimmed? = names ↔
      List.Forall₂ Trims (fields.filter fun field => ¬Blank field) names := by
  have htrims : Trims = fun s t => trim s = t := funext₂ fun _ _ => propext trim_eq_iff.symm
  rw [filterMap_trimmed?, htrims, ← List.forall₂_map_left_iff, List.forall₂_eq_eq_eq]

end Text

namespace AgentConfig

open Text

variable {text name : String} {fields names : List String}

/-! ## Names in fields -/

/-- What a list can hold. -/
structure IsName (name : String) : Prop where
  nonempty : name ≠ ""
  comma : ',' ∉ name.toList
  bare : Bare name

/-- The fields hold the names in order, each with white space around it or none, and other fields
are blank. -/
inductive Spaced : List String → List String → Prop where
  | nil : Spaced [] []
  | blank {field : String} {fields names : List String} (blank : Blank field)
      (rest : Spaced fields names) : Spaced (field :: fields) names
  | name {before name after : String} {fields names : List String} (before_blank : Blank before)
      (after_blank : Blank after) (rest : Spaced fields names) :
      Spaced ((before ++ name ++ after) :: fields) (name :: names)

theorem comma_notMem_of_blank {s : String} (h : Blank s) : ',' ∉ s.toList :=
  fun hcomma => absurd (h ',' hcomma) (by decide)

theorem Spaced.comma_notMem (h : Spaced fields names) (hnames : ∀ name ∈ names, ',' ∉ name.toList) :
    ∀ field ∈ fields, ',' ∉ field.toList := by
  induction h with
  | nil => exact nofun
  | blank blank _ ih => exact List.forall_mem_cons.2 ⟨comma_notMem_of_blank blank, ih hnames⟩
  | name before_blank after_blank _ ih =>
    obtain ⟨hname, hrest⟩ := List.forall_mem_cons.1 hnames
    refine List.forall_mem_cons.2 ⟨fun hmem => ?_, ih hrest⟩
    rcases mem_around.1 hmem with hcomma | hcomma | hcomma
    · exact comma_notMem_of_blank before_blank hcomma
    · exact hname hcomma
    · exact comma_notMem_of_blank after_blank hcomma

/-- Fields that hold names give them back. -/
theorem Spaced.filterMap_eq (h : Spaced fields names) (hnames : ∀ name ∈ names, IsName name) :
    fields.filterMap trimmed? = names := by
  induction h with
  | nil => rfl
  | blank blank _ ih => rw [List.filterMap_cons_none (trimmed?_eq_none_iff.2 blank), ih hnames]
  | name before_blank after_blank _ ih =>
    obtain ⟨hname, hrest⟩ := List.forall_mem_cons.1 hnames
    have htrims : Trims _ _ := ⟨hname.bare, _, _, before_blank, after_blank, rfl⟩
    rw [List.filterMap_cons_some (trimmed?_eq_some_iff.2 ⟨hname.nonempty, htrims⟩), ih hrest]

/-- All fields hold what they give. -/
theorem spaced_filterMap (fields : List String) : Spaced fields (fields.filterMap trimmed?) := by
  induction fields with
  | nil => exact .nil
  | cons field fields ih =>
    rcases hfield : trimmed? field with - | name
    · rw [List.filterMap_cons_none hfield]
      exact .blank (trimmed?_eq_none_iff.1 hfield) ih
    · rw [List.filterMap_cons_some hfield]
      obtain ⟨-, -, before, after, hbefore, hafter, rfl⟩ := trimmed?_eq_some_iff.1 hfield
      exact .name hbefore hafter ih

/-! ## Reading a list -/

/-- Of fields between commas, those that trim to something are names. -/
theorem parseNames_intercalate (h : ∀ field ∈ fields, ',' ∉ field.toList) :
    parseNames (",".intercalate fields) = fields.filterMap trimmed? := by
  cases fields with
  | nil => rfl
  | cons field fields => rw [parseNames, commaFields_intercalate h (List.cons_ne_nil _ _)]

theorem isName_of_mem_parseNames (h : name ∈ parseNames text) : IsName name := by
  obtain ⟨field, hfield, hname⟩ := List.mem_filterMap.1 h
  obtain ⟨hne, hbare, before, after, -, -, rfl⟩ := trimmed?_eq_some_iff.1 hname
  have hcomma := comma_notMem_of_mem_commaFields hfield
  exact ⟨hne, fun hmem => hcomma (mem_around.2 (.inr (.inl hmem))), hbare⟩

/-- **What a text is read as.** The names are names, and the text is made of fields that hold
them. -/
theorem parseNames_eq_iff :
    parseNames text = names ↔
      (∀ name ∈ names, IsName name) ∧
        ∃ fields, Spaced fields names ∧ text = ",".intercalate fields := by
  constructor
  · rintro rfl
    exact ⟨fun name => isName_of_mem_parseNames, commaFields text, spaced_filterMap _,
      (intercalate_commaFields text).symm⟩
  · rintro ⟨hnames, fields, hspaced, rfl⟩
    rw [parseNames_intercalate (hspaced.comma_notMem fun name hname => (hnames name hname).comma),
      hspaced.filterMap_eq hnames]

/-- **Reading a list of names normalises it.** Fields without commas, joined with commas, are read
as those that are not blank, in order and each without the white space around it. Whatever is read
is a name. And names that were read once are read again as they are, however they are spaced when
they are joined, so the same owners are base implementations. -/
theorem reading_normalises (dumpDir dumpDir' : Option String) :
    (∀ fields names : List String, (∀ field ∈ fields, ',' ∉ field.toList) →
      ((ofTexts (some (",".intercalate fields)) dumpDir).baseImplementations = names ↔
        List.Forall₂ Trims (fields.filter fun field => ¬Blank field) names)) ∧
      (∀ text, ∀ name ∈ (ofTexts (some text) dumpDir).baseImplementations,
        name ≠ "" ∧ ',' ∉ name.toList ∧ Bare name) ∧
      ∀ text fields, Spaced fields (ofTexts (some text) dumpDir).baseImplementations →
        (ofTexts (some (",".intercalate fields)) dumpDir').baseImplementations =
            (ofTexts (some text) dumpDir).baseImplementations ∧
          ∀ owner, (ofTexts (some (",".intercalate fields)) dumpDir').isBaseImplementation owner =
            (ofTexts (some text) dumpDir).isBaseImplementation owner := by
  refine ⟨fun fields names hfields => ?_, fun text name hname => ?_, fun text fields hspaced => ?_⟩
  · show parseNames (",".intercalate fields) = names ↔ _
    rw [parseNames_intercalate hfields, filterMap_trimmed?_eq_iff]
  · obtain ⟨hnonempty, hcomma, hbare⟩ := isName_of_mem_parseNames hname
    exact ⟨hnonempty, hcomma, hbare⟩
  · have hagain : (ofTexts (some (",".intercalate fields)) dumpDir').baseImplementations =
        (ofTexts (some text) dumpDir).baseImplementations :=
      parseNames_eq_iff.2 ⟨fun name => isName_of_mem_parseNames, fields, hspaced, rfl⟩
    refine ⟨hagain, fun owner => ?_⟩
    rw [isBaseImplementation, isBaseImplementation, hagain]

/-! ## One list, written in two ways -/

namespace Rewritten

/-- Two stores. The first is named twice, and the name of the second has white space inside. -/
def stores : List String :=
  ["acme/Store", "acme/Tree Store", "acme/Store"]

/-- White space of several kinds around the names, and two fields without a name. -/
def once : List String :=
  ["\u2003acme/Store\t", "\u3000", "acme/Tree Store", "", " acme/Store"]

/-- The same names, spaced in another way. -/
def again : List String :=
  ["", "acme/Store", "\u00a0acme/Tree Store\n", "acme/Store"]

/-- Both ways of writing are read as the same list, of names that are kept as they are. -/
theorem reading_normalises_rewritten :
    (ofTexts (some (",".intercalate once)) none).baseImplementations = stores ∧
      Bare "acme/Tree Store" ∧
      (ofTexts (some (",".intercalate again)) none).baseImplementations = stores ∧
      (ofTexts (some (",".intercalate again)) none).isBaseImplementation "acme/Tree Store" =
        true := by
  obtain ⟨hread, hnames, hagain⟩ := reading_normalises none none
  have hcommas : ∀ field ∈ once, ',' ∉ field.toList := by decide +kernel
  have htexts : once.filterMap trimmed? = stores := by decide +kernel
  have honce := (hread once stores hcommas).2 (filterMap_trimmed?_eq_iff.1 htexts)
  have htexts' : again.filterMap trimmed? = stores := by decide +kernel
  have hspaced : Spaced again stores := htexts' ▸ spaced_filterMap again
  obtain ⟨hsame, howners⟩ := hagain _ again (honce ▸ hspaced)
  have hstore : "acme/Tree Store" ∈ stores := by decide
  refine ⟨honce, (hnames _ _ (honce ▸ hstore)).2.2, hsame.trans honce, ?_⟩
  rw [howners, isBaseImplementation, honce]
  exact List.contains_iff_mem.2 hstore

end Rewritten

end AgentConfig

end CallPatch
