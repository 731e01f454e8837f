import CallPatch.Dump.Path
/-!
# Dumps — where a path leads

A path is read without looking at what is there: an empty part and a single dot lead
nowhere, two dots take back the name before, and any other part leads on.

The path of a copy starts where the dump directory lies and goes on with the parts of the
owner's name, unless that opens with a slash (`locate_fileFor`). Whether it comes out
below the directory is for the owner's name to say: it does, whichever the directory, just
when the name does not open with a slash and no front of its parts has more pairs of dots
than names (`below_iff`). The parts of the name are kept apart by its slashes, and only
where each of them leads on are they the names that the path comes to
(`destination_plain`).
-/

namespace CallPatch.Dump

variable {owner path : String} {part : String} {names rest here above working : List String}

/-! ## Parts of a path -/

/-- The parts of the owner's name but for the last one. -/
def folders (owner : String) : List String :=
  (parts owner).dropLast

/-- The last part, with the suffix behind it. -/
def fileName (owner : String) : String :=
  (parts owner).getLastD "" ++ suffix

/-- A slash keeps the steps on its sides apart. -/
theorem steps_join {front rest : List Char} (h : path.toList = front ++ '/' :: rest) :
    steps path = steps (.ofList front) ++ steps (.ofList rest) := by
  simp only [steps, parts, h, String.toList_ofList, List.splitOn_append_cons_self, List.map_append,
    List.filter_append]

/-- What is put behind a path without a slash belongs to the last part. -/
theorem splitOn_append {more : List Char} (hmore : '/' ∉ more) (cs : List Char) :
    ∃ front last, cs.splitOn '/' = front ++ [last] ∧
      (cs ++ more).splitOn '/' = front ++ [last ++ more] := by
  induction cs with
  | nil => exact ⟨[], [], rfl, List.splitOn_eq_singleton hmore⟩
  | cons c cs ih =>
    obtain ⟨front, last, hsplit, hsplit'⟩ := ih
    rw [List.cons_append, List.splitOn_cons_eq_if_modifyHead, List.splitOn_cons_eq_if_modifyHead,
      hsplit, hsplit']
    split
    · exact ⟨[] :: front, last, rfl, rfl⟩
    · cases front with
      | nil => exact ⟨[], c :: last, rfl, rfl⟩
      | cons part front => exact ⟨(c :: part) :: front, last, rfl, rfl⟩

/-- Only the last part is written with the suffix. -/
theorem parts_pathOf (owner : String) :
    parts (pathOf owner) = folders owner ++ [fileName owner] := by
  have hslash : '/' ∉ suffix.toList := by decide
  obtain ⟨front, last, hsplit, hsplit'⟩ := splitOn_append hslash owner.toList
  have hparts : parts owner = front.map String.ofList ++ [String.ofList last] := by
    rw [parts, hsplit, List.map_append, List.map_singleton]
  rw [folders, fileName, hparts, List.dropLast_concat, List.getLastD_concat, parts, pathOf,
    String.toList_append, hsplit', List.map_append, List.map_singleton, String.ofList_append,
    String.ofList_toList]

/-- The name of the file leads on. -/
theorem fileName_ne (owner : String) : moves (fileName owner) = true ∧ fileName owner ≠ ".." := by
  have hlength : 4 ≤ (fileName owner).length := by
    rw [fileName, String.length_append]
    exact Nat.le_add_left _ _
  have hne {name : String} (hshort : name.length < 4) : fileName owner ≠ name := by
    rintro rfl
    omega
  refine ⟨?_, hne (by decide)⟩
  rw [moves, Bool.and_eq_true, decide_eq_true_eq, decide_eq_true_eq]
  exact ⟨hne (by decide), hne (by decide)⟩

/-- The file's own name is always a step, whatever the parts before it are. -/
theorem steps_pathOf (owner : String) :
    steps (pathOf owner) = (folders owner).filter moves ++ [fileName owner] := by
  rw [steps, parts_pathOf, List.filter_append, List.filter_cons_of_pos (fileName_ne owner).1]
  rfl

/-- With slashes between them, the parts are the path again. -/
theorem intercalate_parts (path : String) :
    ['/'].intercalate ((parts path).map String.toList) = path.toList := by
  have hparts : (parts path).map String.toList = path.toList.splitOn '/' := by
    rw [parts, List.map_map]
    exact List.map_id'' (fun _ => String.toList_ofList) _
  rw [hparts, List.intercalate_splitOn]

theorem eq_of_parts_eq {path' : String} (h : parts path = parts path') : path = path' := by
  rw [← String.toList_inj, ← intercalate_parts, h, intercalate_parts]

theorem eq_of_pathOf_eq {owner' : String} (h : pathOf owner = pathOf owner') : owner = owner' := by
  have hlist := congrArg String.toList h
  rw [pathOf, pathOf, String.toList_append, String.toList_append] at hlist
  exact String.toList_inj.1 (List.append_cancel_right hlist)

/-! ## The path of a copy -/

/-- What is put behind a path does not change how it opens. -/
theorem isRooted_append {dir : String} (hdir : dir ≠ "") (more : String) :
    isRooted (dir ++ more) = isRooted dir := by
  have hne : dir.toList ≠ [] := fun hnil => hdir (String.toList_eq_nil_iff.1 hnil)
  obtain ⟨c, cs, hlist⟩ := List.exists_cons_of_ne_nil hne
  rw [isRooted, isRooted, String.toList_append, hlist]
  rfl

/-- The suffix does not make a path open with a slash. -/
theorem isRooted_pathOf (owner : String) : isRooted (pathOf owner) = isRooted owner := by
  by_cases howner : owner = ""
  · subst howner
    rfl
  · exact isRooted_append howner suffix

/-- The slash between the directory and the name is written if it is not there. -/
theorem steps_fileFor (dir : String) (hrelative : isRooted owner = false) :
    isRooted (fileFor dir owner) = isRooted dir ∧
      steps (fileFor dir owner) = steps dir ++ steps (pathOf owner) := by
  have hnone : steps "" = [] := rfl
  rw [← isRooted_pathOf] at hrelative
  unfold fileFor
  by_cases hdir : dir = ""
  · subst hdir
    rw [if_pos (by simp), hnone]
    exact ⟨hrelative, rfl⟩
  · rw [if_neg (by simp [hrelative, hdir])]
    split
    · next hlast =>
      obtain ⟨front, hfront⟩ := List.getLast?_eq_some_iff.1 hlast
      have hpath : (dir ++ pathOf owner).toList = front ++ '/' :: (pathOf owner).toList := by
        rw [String.toList_append, hfront, List.append_assoc]
        rfl
      refine ⟨isRooted_append hdir _, ?_⟩
      rw [steps_join hpath, steps_join hfront, String.ofList_toList, String.ofList_nil, hnone,
        List.append_nil]
    · have hpath : (dir ++ "/" ++ pathOf owner).toList =
          dir.toList ++ '/' :: (pathOf owner).toList := by
        rw [String.toList_append, String.toList_append, List.append_assoc]
        rfl
      refine ⟨?_, ?_⟩
      · rw [String.append_assoc]
        exact isRooted_append hdir _
      · rw [steps_join hpath, String.ofList_toList, String.ofList_toList]

theorem follow_append (here front rest : List String) :
    follow here (front ++ rest) = follow (follow here front) rest :=
  List.foldl_append

/-- **The path goes on where the directory lies**, if the owner's name opens with no slash. -/
theorem locate_fileFor (working : List String) (dir : String) (hrelative : isRooted owner = false) :
    locate working (fileFor dir owner) = follow (locate working dir) (steps (pathOf owner)) := by
  obtain ⟨hrooted, hsteps⟩ := steps_fileFor dir hrelative
  rw [locate, start, hrooted, hsteps, follow_append]
  rfl

/-- If it opens with one, the directory is of no account. -/
theorem fileFor_of_isRooted (dir : String) (hrooted : isRooted owner = true) :
    fileFor dir owner = pathOf owner := by
  rw [fileFor, isRooted_pathOf, hrooted, Bool.true_or, if_pos rfl]

/-- The name of the file is the last part. -/
theorem exists_steps_fileFor (dir owner : String) :
    ∃ front, steps (fileFor dir owner) = front ++ [fileName owner] := by
  cases hrooted : isRooted owner with
  | true =>
    rw [fileFor_of_isRooted dir hrooted, steps_pathOf]
    exact ⟨_, rfl⟩
  | false =>
    rw [(steps_fileFor dir hrooted).2, steps_pathOf, ← List.append_assoc]
    exact ⟨_, rfl⟩

/-! ## Names that parts come to -/

/-- Goes through parts below some folder, and ends with the names that lead on from there; with
none if the parts climb out of the folder. -/
def settle (here : List String) : List String → Option (List String)
  | [] => some here
  | part :: rest =>
    if part = ".." then if here = [] then none else settle here.dropLast rest
    else settle (here ++ [part]) rest

/-- Parts are settled from where the parts before them have settled. -/
theorem settle_append (here front rest : List String) :
    settle here (front ++ rest) = (settle here front).bind fun there => settle there rest := by
  induction front generalizing here with
  | nil => rfl
  | cons part front ih =>
    rw [List.cons_append, settle, settle]
    split
    · split
      · rfl
      · exact ih _
    · exact ih _

/-- Where the parts do not climb they lead down. -/
theorem follow_of_settle {ps : List String} (h : settle here ps = some names)
    (above : List String) : follow (above ++ here) ps = above ++ names := by
  induction ps generalizing here with
  | nil =>
    obtain rfl := Option.some.inj h
    rfl
  | cons part ps ih =>
    rw [settle] at h
    rw [follow, List.foldl_cons, step]
    by_cases hpart : part = ".."
    · rw [if_pos hpart] at h ⊢
      by_cases hhere : here = []
      · rw [if_pos hhere] at h
        cases h
      · rw [if_neg hhere] at h
        rw [List.dropLast_append_of_ne_nil hhere]
        exact ih h
    · rw [if_neg hpart] at h ⊢
      rw [List.append_assoc]
      exact ih h

/-- Names are those of the place where the parts start, or come from the parts. -/
theorem mem_follow {name : String} {ps : List String} (h : name ∈ follow here ps) :
    name ∈ here ∨ name ∈ ps := by
  induction ps generalizing here with
  | nil => exact .inl h
  | cons part ps ih =>
    rcases ih h with hstep | hrest
    · rw [step] at hstep
      split at hstep
      · exact .inl ((List.dropLast_sublist here).subset hstep)
      · rcases List.mem_append.1 hstep with hhere | hpart
        · exact .inl hhere
        · exact .inr (List.mem_singleton.1 hpart ▸ List.mem_cons_self)
    · exact .inr (List.mem_cons_of_mem _ hrest)

/-- Where they climb they leave the folder, and a name that they do not have is not found again. -/
theorem notMem_follow_of_settle {name : String} {ps : List String} (h : settle here ps = none)
    (hhere : name ∉ here) (hps : name ∉ ps) : name ∉ follow (name :: here) ps := by
  induction ps generalizing here with
  | nil => cases h
  | cons part ps ih =>
    rw [List.mem_cons, not_or] at hps
    rw [settle] at h
    rw [follow, List.foldl_cons, step]
    by_cases hpart : part = ".."
    · rw [if_pos hpart] at h ⊢
      cases here with
      | nil =>
        -- this is the climb: nothing of the start is left
        intro hfollow
        exact (mem_follow hfollow).elim List.not_mem_nil hps.2
      | cons first here =>
        rw [if_neg (List.cons_ne_nil first here)] at h
        exact ih h (fun hmem => hhere ((List.dropLast_sublist _).subset hmem)) hps.2
    · rw [if_neg hpart] at h ⊢
      refine ih h (fun hmem => ?_) hps.2
      rcases List.mem_append.1 hmem with hold | hnew
      · exact hhere hold
      · exact hps.1 (List.mem_singleton.1 hnew)

theorem forall_front_cons {P : List String → Prop} (hnil : P []) {ps : List String} :
    (∀ front, front <+: part :: ps → P front) ↔ ∀ front, front <+: ps → P (part :: front) := by
  constructor
  · intro hall front hfront
    exact hall _ (List.cons_prefix_cons.2 ⟨rfl, hfront⟩)
  · intro hall front hfront
    rcases List.prefix_cons_iff.1 hfront with rfl | ⟨front, rfl, hrest⟩
    · exact hnil
    · exact hall front hrest

/-- The parts do not climb just when no front of them has more pairs of dots than names, those of
the folder included. -/
theorem settle_ne_none_iff {ps : List String} :
    settle here ps ≠ none ↔ ∀ front, front <+: ps →
      front.count ".." ≤ here.length + front.countP (· ≠ "..") := by
  induction ps generalizing here with
  | nil => simp [settle]
  | cons part ps ih =>
    rw [settle, forall_front_cons (Nat.zero_le _)]
    by_cases hpart : part = ".."
    · subst hpart
      have hdots (front : List String) : (".." :: front).countP (· ≠ "..") =
          front.countP (· ≠ "..") := List.countP_cons_of_neg (by simp)
      simp only [hdots, List.count_cons_self, if_true]
      by_cases hhere : here = []
      · subst hhere
        rw [if_pos rfl]
        refine iff_of_false (fun h => h rfl) fun hall => ?_
        exact absurd (hall [] List.nil_prefix) (by decide)
      · have hlength := List.length_pos_iff.2 hhere
        rw [if_neg hhere, ih, List.length_dropLast]
        refine forall_congr' fun front => imp_congr_right fun _ => ?_
        omega
    · have hname (front : List String) : (part :: front).countP (· ≠ "..") =
          front.countP (· ≠ "..") + 1 := List.countP_cons_of_pos (by simpa using hpart)
      rw [if_neg hpart, ih]
      refine forall_congr' fun front => imp_congr_right fun _ => ?_
      rw [List.count_cons_of_ne hpart, hname, List.length_append, List.length_singleton]
      omega

/-- The names that the path of a copy comes to, below the dump directory; none if it climbs out of
there. -/
def destination (owner : String) : Option (List String) :=
  settle [] (steps (pathOf owner))

/-- No front of the path has more pairs of dots than names. -/
def Stays (owner : String) : Prop :=
  ∀ front, front <+: steps (pathOf owner) → front.count ".." ≤ front.countP (· ≠ "..")

/-- Every part of the owner's name leads on, as a name does. -/
def Plain (owner : String) : Prop :=
  ∀ part ∈ folders owner, moves part = true ∧ part ≠ ".."

instance (owner : String) : Decidable (Plain owner) :=
  inferInstanceAs (Decidable (∀ part ∈ folders owner, moves part = true ∧ part ≠ ".."))

theorem destination_ne_none_iff : destination owner ≠ none ↔ Stays owner := by
  simp only [destination, settle_ne_none_iff, List.length_nil, Nat.zero_add]
  exact Iff.rfl

/-- A path that stays comes out somewhere. -/
theorem Stays.destination_eq (h : Stays owner) : ∃ names, destination owner = some names :=
  Option.ne_none_iff_exists'.1 (destination_ne_none_iff.2 h)

/-- The name of the file is the last one. -/
theorem destination_ne_nil (h : destination owner = some names) : names ≠ [] := by
  rw [destination, steps_pathOf, settle_append, Option.bind_eq_some_iff] at h
  obtain ⟨there, -, hlast⟩ := h
  rw [settle, if_neg (fileName_ne owner).2] at hlast
  obtain rfl := Option.some.inj hlast
  exact List.append_ne_nil_of_right_ne_nil _ (List.cons_ne_nil _ _)

/-- **Where a copy below the directory lies**: the names it comes to go on from the place of the
directory. -/
theorem locate_of_destination (working : List String) (dir : String)
    (hrelative : isRooted owner = false) (h : destination owner = some names) :
    locate working (fileFor dir owner) = locate working dir ++ names := by
  rw [locate_fileFor working dir hrelative, ← follow_of_settle h, List.append_nil]

/-! ## Below a directory -/

/-- The one place is reached from the other by going down. -/
def Below (place dir : List String) : Prop :=
  ∃ names ≠ [], place = dir ++ names

theorem exists_length_lt (ps : List String) : ∃ n, ∀ part ∈ ps, part.length < n := by
  induction ps with
  | nil => exact ⟨0, fun part hpart => absurd hpart List.not_mem_nil⟩
  | cons part ps ih =>
    obtain ⟨n, hn⟩ := ih
    refine ⟨part.length + 1 + n, List.forall_mem_cons.2 ⟨by omega, fun part' hpart' => ?_⟩⟩
    have hlength := hn part' hpart'
    omega

/-- A path of a single name leads from the root to a place that has a name unlike all the parts. -/
theorem exists_fresh (ps : List String) :
    ∃ path name, name ∉ ps ∧ ∀ working, locate working path = [name] := by
  obtain ⟨n, hn⟩ := exists_length_lt ps
  let name := String.ofList (List.replicate (n + 3) 'a')
  have hlength : name.length = n + 3 := by
    rw [← String.length_toList, String.toList_ofList, List.length_replicate]
  have hne {short : String} (hshort : short.length < 3) : name ≠ short := by
    rintro rfl
    omega
  have hparts : parts name = [name] := by
    have hslash : '/' ∉ List.replicate (n + 3) 'a' := fun hmem =>
      absurd (List.eq_of_mem_replicate hmem) (by decide)
    rw [parts, String.toList_ofList, List.splitOn_eq_singleton hslash]
    rfl
  have hmoves : moves name = true := by
    rw [moves, Bool.and_eq_true, decide_eq_true_eq, decide_eq_true_eq]
    exact ⟨hne (by decide), hne (by decide)⟩
  have hsteps : steps ("/" ++ name) = [name] := by
    have hpath : ("/" ++ name).toList = [] ++ '/' :: name.toList := String.toList_append ..
    have hnone : steps (.ofList []) = [] := rfl
    rw [steps_join hpath, String.ofList_toList, hnone, List.nil_append, steps, hparts,
      List.filter_cons_of_pos hmoves, List.filter_nil]
  refine ⟨"/" ++ name, name, fun hmem => ?_, fun working => ?_⟩
  · have hshort := hn name hmem
    omega
  · have hrooted : isRooted ("/" ++ name) = true := isRooted_append (by decide) name
    rw [locate, start, hrooted, if_pos rfl, hsteps, follow, List.foldl_cons, step,
      if_neg (hne (by decide))]
    rfl

/-- **The copy lies below the dump directory, whichever it is, just when the owner's name opens with
no slash and the path stays there.** -/
theorem below_iff (working : List String) :
    (∀ dir, Below (locate working (fileFor dir owner)) (locate working dir)) ↔
      isRooted owner = false ∧ Stays owner := by
  constructor
  · intro hall
    -- a directory at the root, with a name that the path does not have
    obtain ⟨dir, name, hname, hdir⟩ := exists_fresh (steps (pathOf owner))
    obtain ⟨names, -, hbelow⟩ := hall dir
    have hmem : name ∈ locate working (fileFor dir owner) := by
      rw [hbelow, hdir]
      exact List.mem_cons_self
    cases hrooted : isRooted owner with
    | true =>
      rw [fileFor_of_isRooted dir hrooted, locate, start, isRooted_pathOf, hrooted,
        if_pos rfl] at hmem
      exact absurd ((mem_follow hmem).resolve_left List.not_mem_nil) hname
    | false =>
      refine ⟨rfl, destination_ne_none_iff.1 fun hclimbs => ?_⟩
      rw [locate_fileFor working dir hrooted, hdir] at hmem
      exact notMem_follow_of_settle hclimbs List.not_mem_nil hname hmem
  · rintro ⟨hrelative, hstays⟩ dir
    obtain ⟨names, hnames⟩ := hstays.destination_eq
    exact ⟨names, destination_ne_nil hnames, locate_of_destination working dir hrelative hnames⟩

/-- A name that climbs may come back into one directory, but not into all. -/
example : locate ["srv"] (fileFor "copies" "../copies/acme/Store") =
    locate ["srv"] "copies" ++ ["acme", "Store.vpa"] := by
  decide +kernel

/-- Parts that are names are walked as they are. -/
theorem settle_of_plain {ps : List String} (h : ∀ part ∈ ps, part ≠ "..") (here : List String) :
    settle here ps = some (here ++ ps) := by
  induction ps generalizing here with
  | nil => rw [settle, List.append_nil]
  | cons part ps ih =>
    obtain ⟨hpart, hrest⟩ := List.forall_mem_cons.1 h
    rw [settle, if_neg hpart, ih hrest, List.append_assoc]
    rfl

/-- The parts of a plain name are the names that the path comes to. -/
theorem destination_plain (h : Plain owner) : destination owner = some (parts (pathOf owner)) := by
  have hsteps : steps (pathOf owner) = parts (pathOf owner) := by
    rw [steps_pathOf, parts_pathOf, List.filter_eq_self.2 fun part hpart => (h part hpart).1]
  have hnames : ∀ part ∈ parts (pathOf owner), part ≠ ".." := by
    rw [parts_pathOf]
    exact List.forall_mem_append.2 ⟨fun part hpart => (h part hpart).2,
      List.forall_mem_singleton.2 (fileName_ne owner).2⟩
  rw [destination, hsteps, settle_of_plain hnames, List.nil_append]

end CallPatch.Dump
