import CallPatch.Dump.Disk
import CallPatch.Proofs.Dump.Paths
import Mathlib.Data.List.DropRight
/-!
# Dumps — what writing a copy leaves

A copy can be written where the path and the names in it are not too long, no file stands
where a folder is needed, and no folder where the file is to be (`Disk.Writable`). Then
its file holds the bytes afterwards, wherever the path leads. All other files are as they
were, and so are all files if the copy cannot be written. No folder is lost, and where the
copy is written those on the way are there (`Disk.written_write`).
-/

namespace CallPatch.Dump

variable {path : String} {here place : List String} {ps : List String} {bytes : Bytes}

/-! ## Lengths -/

/-- A front of the parts makes a front of what they make together. -/
theorem intercalate_prefix {α : Type} {sep : List α} {front whole : List (List α)}
    (h : front <+: whole) : sep.intercalate front <+: sep.intercalate whole := by
  obtain ⟨rest, rfl⟩ := h
  induction front with
  | nil => exact List.nil_prefix
  | cons part front ih =>
    rw [List.cons_append]
    by_cases hfront : front = []
    · subst hfront
      rw [List.nil_append, List.intercalate_singleton]
      cases rest with
      | nil => exact ⟨[], by rw [List.append_nil, List.intercalate_singleton]⟩
      | cons part' rest =>
        rw [List.intercalate_cons_cons, List.append_assoc]
        exact List.prefix_append ..
    · rw [List.intercalate_cons_of_ne_nil hfront,
        List.intercalate_cons_of_ne_nil (List.append_ne_nil_of_left_ne_nil hfront rest)]
      exact (List.prefix_append_right_inj _).2 ih

/-- The path of the folder is a front of the path. -/
theorem folderOf_prefix (path : String) : (folderOf path).toList <+: path.toList := by
  have hfront : ((parts path).dropLast.rdropWhile fun part => !moves part) <+: parts path :=
    List.IsPrefix.trans (List.rdropWhile_prefix ..) (List.dropLast_prefix _)
  rw [folderOf, String.toList_intercalate, ← intercalate_parts path]
  exact intercalate_prefix (hfront.map String.toList)

/-- Where a path is not too long that of its folder is not. -/
theorem isPath_folderOf (h : isPath path = true) : isPath (folderOf path) = true := by
  obtain ⟨rest, hrest⟩ := folderOf_prefix path
  rw [isPath, Bool.and_eq_true, decide_eq_true_eq, Bool.not_eq_true', ← Bool.not_eq_true,
    List.contains_iff_mem, ← hrest, Utf8.ofString, ← hrest] at h
  rw [isPath, Bool.and_eq_true, decide_eq_true_eq, Bool.not_eq_true', ← Bool.not_eq_true,
    List.contains_iff_mem, Utf8.ofString]
  rw [Utf8.encode, List.flatMap_append, List.length_append] at h
  exact ⟨Nat.le_trans (Nat.le_add_right ..) h.1, fun hmem => h.2 (List.mem_append_left _ hmem)⟩

namespace Disk

variable {d d' : Disk} {dir owner : String}

/-! ## Folders on the way -/

/-- The places that parts lead to, one after the other. -/
def way (here : List String) : List String → List (List String)
  | [] => []
  | part :: rest => step here part :: way (step here part) rest

/-- What making the folders at some places leaves, or at some of them. -/
structure Entered (d d' : Disk) (places : List (List String)) : Prop where
  working : d'.working = d.working
  files : d'.files = d.files
  kept : ∀ place, d.isFolder place = true → d'.isFolder place = true
  made : ∀ place, d'.isFolder place = true → d.isFolder place = true ∨ place ∈ places

theorem isFolder_insert {place' : List String} :
    ({ d with folders := d.folders.insert place' } : Disk).isFolder place = true ↔
      d.isFolder place = true ∨ place = place' := by
  rw [isFolder, isFolder, Bool.or_eq_true, Bool.or_eq_true, List.contains_iff_mem,
    List.contains_iff_mem, List.mem_insert_iff, or_assoc, or_comm (a := place = place')]

theorem enter_cons {part : String} :
    d.enter here (part :: ps) =
      if isName part = true ∧ d.file? (step here part) = none then
        enter { d with folders := d.folders.insert (step here part) } (step here part) ps
      else (d, false) := by
  rw [enter]
  cases isName part <;> cases d.file? (step here part) <;> simp

/-- Going on makes no folders but those on the way, and touches no file. -/
theorem entered_enter (d : Disk) (here ps : List String) :
    d.Entered (d.enter here ps).1 (way here ps) := by
  induction ps generalizing d here with
  | nil => exact ⟨rfl, rfl, fun _ => id, fun _ => .inl⟩
  | cons part ps ih =>
    rw [enter_cons]
    split
    · have hrest := ih { d with folders := d.folders.insert (step here part) } (step here part)
      refine ⟨hrest.working, hrest.files, fun place hplace => ?_, fun place hplace => ?_⟩
      · exact hrest.kept place (isFolder_insert.2 (.inl hplace))
      · rcases hrest.made place hplace with hnow | hlater
        · rcases isFolder_insert.1 hnow with hbefore | rfl
          · exact .inl hbefore
          · exact .inr List.mem_cons_self
        · exact .inr (List.mem_cons_of_mem _ hlater)
    · exact ⟨rfl, rfl, fun _ => id, fun _ => .inl⟩

/-- It comes to the end if no name is too long and no file is in the way. -/
theorem enter_eq_true_iff :
    (d.enter here ps).2 = true ↔
      (∀ part ∈ ps, isName part = true) ∧ ∀ place ∈ way here ps, d.file? place = none := by
  induction ps generalizing d here with
  | nil => simp [enter, way]
  | cons part ps ih =>
    rw [enter_cons, way, List.forall_mem_cons, List.forall_mem_cons]
    split
    · next hpart =>
      rw [ih]
      exact ⟨fun h => ⟨⟨hpart.1, h.1⟩, hpart.2, h.2⟩, fun h => ⟨h.1.2, h.2.2⟩⟩
    · next hpart => exact iff_of_false Bool.false_ne_true fun h => hpart ⟨h.1.1, h.2.1⟩

/-- Then all folders on the way are there. -/
theorem isFolder_of_mem_way (h : (d.enter here ps).2 = true) (hplace : place ∈ way here ps) :
    (d.enter here ps).1.isFolder place = true := by
  induction ps generalizing d here with
  | nil => cases hplace
  | cons part ps ih =>
    rw [enter_cons] at h ⊢
    split at h
    · next hpart =>
      rw [if_pos hpart]
      rcases List.mem_cons.1 hplace with rfl | hrest
      · exact (entered_enter ..).kept _ (isFolder_insert.2 (.inr rfl))
      · exact ih h hrest
    · cases h

/-! ## Files -/

/-- The places of the folders on the way to the file of a path. -/
def foldersTo (d : Disk) (path : String) : List (List String) :=
  way (start d.working path) (steps path).dropLast

/-- The copy for the owner can be written. -/
structure Writable (d : Disk) (dir owner : String) : Prop where
  path : isPath (fileFor dir owner) = true
  names : ∀ name ∈ steps (fileFor dir owner), isName name = true
  /-- No file stands where a folder is needed. -/
  folders : ∀ place ∈ d.foldersTo (fileFor dir owner), d.file? place = none
  /-- No folder is where the file is to be, nor is one needed there. -/
  file : d.isFolder (d.locate (fileFor dir owner)) = false ∧
    d.locate (fileFor dir owner) ∉ d.foldersTo (fileFor dir owner)

instance (d : Disk) (dir owner : String) : Decidable (d.Writable dir owner) :=
  decidable_of_iff
    (isPath (fileFor dir owner) = true ∧ (∀ name ∈ steps (fileFor dir owner), isName name = true) ∧
      (∀ place ∈ d.foldersTo (fileFor dir owner), d.file? place = none) ∧
        d.isFolder (d.locate (fileFor dir owner)) = false ∧
          d.locate (fileFor dir owner) ∉ d.foldersTo (fileFor dir owner))
    ⟨fun ⟨hpath, hnames, hfolders, hfile⟩ => ⟨hpath, hnames, hfolders, hfile⟩,
      fun ⟨hpath, hnames, hfolders, hfile⟩ => ⟨hpath, hnames, hfolders, hfile⟩⟩

/-- What writing the copy for the owner leaves. -/
structure Written (d d' : Disk) (dir owner : String) (bytes : Bytes) : Prop where
  working : d'.working = d.working
  /-- The file holds the bytes, if the copy can be written. -/
  copy : d.Writable dir owner → d'.file? (d.locate (fileFor dir owner)) = some bytes
  others : ∀ place, (d.Writable dir owner → place ≠ d.locate (fileFor dir owner)) →
    d'.file? place = d.file? place
  kept : ∀ place, d.isFolder place = true → d'.isFolder place = true
  /-- Folders are made on the way, all of them if the copy can be written. -/
  made : ∀ place, d'.isFolder place = true →
    d.isFolder place = true ∨ place ∈ d.foldersTo (fileFor dir owner)
  needed : d.Writable dir owner → ∀ place ∈ d.foldersTo (fileFor dir owner),
    d'.isFolder place = true

theorem entered_makeFolders (d : Disk) (path : String) :
    d.Entered (d.makeFolders path).1 (d.foldersTo path) := by
  unfold makeFolders
  split
  · exact d.entered_enter ..
  · exact ⟨rfl, rfl, fun _ => id, fun _ => .inl⟩

/-- The copy can be written if the folders can be made, and then the file. -/
theorem writable_iff :
    d.Writable dir owner ↔ (d.makeFolders (fileFor dir owner)).2 = true ∧
      isPath (fileFor dir owner) = true ∧ isName (fileName owner) = true ∧
        (d.makeFolders (fileFor dir owner)).1.isFolder (d.locate (fileFor dir owner)) = false := by
  have hentered := d.entered_makeFolders (fileFor dir owner)
  obtain ⟨front, hsteps⟩ := exists_steps_fileFor dir owner
  constructor
  · intro h
    have hnames := List.forall_mem_append.1 (hsteps ▸ h.names)
    have hmade : (d.makeFolders (fileFor dir owner)).2 = true := by
      rw [makeFolders, if_pos (isPath_folderOf h.path), enter_eq_true_iff]
      refine ⟨?_, h.folders⟩
      rw [hsteps, List.dropLast_concat]
      exact hnames.1
    refine ⟨hmade, h.path, hnames.2 _ List.mem_cons_self, Bool.eq_false_iff.2 fun hfolder => ?_⟩
    rcases hentered.made _ hfolder with hbefore | hneeded
    · exact Bool.eq_false_iff.1 h.file.1 hbefore
    · exact h.file.2 hneeded
  · rintro ⟨hmade, hpath, hname, hfile⟩
    rw [makeFolders, if_pos (isPath_folderOf hpath)] at hmade hfile
    obtain ⟨hnames, hfolders⟩ := enter_eq_true_iff.1 hmade
    refine ⟨hpath, ?_, hfolders, Bool.eq_false_iff.2 fun hbefore => ?_, fun hneeded => ?_⟩
    · rw [hsteps, List.dropLast_concat] at hnames
      rw [hsteps]
      exact List.forall_mem_append.2 ⟨hnames, List.forall_mem_singleton.2 hname⟩
    · exact Bool.eq_false_iff.1 hfile ((d.entered_enter ..).kept _ hbefore)
    · exact Bool.eq_false_iff.1 hfile (isFolder_of_mem_way hmade hneeded)

/-- Of a copy that cannot be written at most folders are left. -/
theorem write_eq (d : Disk) (dir owner : String) (bytes : Bytes) :
    d.write dir owner bytes =
      if d.Writable dir owner then
        { (d.makeFolders (fileFor dir owner)).1 with
          files := Table.put (d.locate (fileFor dir owner)) bytes d.files }
      else (d.makeFolders (fileFor dir owner)).1 := by
  have hiff : d.Writable dir owner ↔ _ := writable_iff
  obtain ⟨front, hsteps⟩ := exists_steps_fileFor dir owner
  have hlast : (steps (fileFor dir owner)).getLast?.all isName = isName (fileName owner) := by
    rw [hsteps, List.getLast?_concat, Option.all_some]
  rw [write]
  dsimp only
  rw [hlast, put, (d.entered_makeFolders _).files]
  by_cases hwritable : d.Writable dir owner
  · obtain ⟨hmade, hpath, hname, hfile⟩ := hiff.1 hwritable
    simp [hwritable, hmade, hpath, hname, hfile]
  · rw [if_neg hwritable]
    split
    · next hready =>
      rw [Bool.and_eq_true, Bool.and_eq_true] at hready
      -- all else is well, so it is a folder that is there
      have hfolder : (d.makeFolders (fileFor dir owner)).1.isFolder
          (d.locate (fileFor dir owner)) = true := by
        by_contra hnone
        exact hwritable (hiff.2 ⟨hready.1.1, hready.1.2, hready.2, Bool.eq_false_iff.2 hnone⟩)
      rw [if_pos hfolder]
    · rfl

/-- All folders on the way are there, if the copy can be written. -/
theorem Writable.isFolder_makeFolders (h : d.Writable dir owner)
    (hneeded : place ∈ d.foldersTo (fileFor dir owner)) :
    (d.makeFolders (fileFor dir owner)).1.isFolder place = true := by
  have hmade := (writable_iff.1 h).1
  rw [makeFolders, if_pos (isPath_folderOf h.path)] at hmade ⊢
  exact isFolder_of_mem_way hmade hneeded

/-- **What writing a copy leaves.** -/
theorem written_write (d : Disk) (dir owner : String) (bytes : Bytes) :
    d.Written (d.write dir owner bytes) dir owner bytes := by
  have hentered := d.entered_makeFolders (fileFor dir owner)
  have hneeded (h : d.Writable dir owner) : ∀ place ∈ d.foldersTo (fileFor dir owner),
      (d.makeFolders (fileFor dir owner)).1.isFolder place = true :=
    fun place => h.isFolder_makeFolders
  rw [write_eq]
  generalize (d.makeFolders (fileFor dir owner)).1 = opened at hentered hneeded
  by_cases hwritable : d.Writable dir owner
  · rw [if_pos hwritable]
    constructor
    case working => exact hentered.working
    case copy => exact fun _ => Table.get?_put_self ..
    case others => exact fun place hne => Table.get?_put_of_ne (hne hwritable) ..
    case kept => exact hentered.kept
    case made => exact hentered.made
    case needed => exact fun _ => hneeded hwritable
  · rw [if_neg hwritable]
    constructor
    case working => exact hentered.working
    case copy => exact fun h => absurd h hwritable
    case others => exact fun place _ => congrArg (Table.get? place) hentered.files
    case kept => exact hentered.kept
    case made => exact hentered.made
    case needed => exact fun h => absurd h hwritable

/-- Two copies do not hinder each other if neither has its file where the other needs a folder. -/
theorem Written.writable {dir' owner' : String} (h : d.Written d' dir owner bytes)
    (h' : d.Writable dir' owner')
    (hfile : d.locate (fileFor dir owner) ∉ d.foldersTo (fileFor dir' owner'))
    (hfolder : d.locate (fileFor dir' owner') ∉ d.foldersTo (fileFor dir owner)) :
    d'.Writable dir' owner' := by
  have hlocate : d'.locate (fileFor dir' owner') = d.locate (fileFor dir' owner') := by
    rw [locate, locate, h.working]
  have hfolders : d'.foldersTo (fileFor dir' owner') = d.foldersTo (fileFor dir' owner') := by
    rw [foldersTo, foldersTo, h.working]
  constructor
  case path => exact h'.path
  case names => exact h'.names
  case folders =>
    rw [hfolders]
    intro place hplace
    rw [h.others place fun _ heq => hfile (heq ▸ hplace)]
    exact h'.folders place hplace
  case file =>
    rw [hlocate, hfolders]
    refine ⟨Bool.eq_false_iff.2 fun hthere => ?_, h'.file.2⟩
    rcases h.made _ hthere with hbefore | hmade
    · exact Bool.eq_false_iff.1 h'.file.1 hbefore
    · exact hfolder hmade

/-- Of two copies that come to one file the later one takes the place of the other. -/
theorem Written.replaced {d'' : Disk} {owner' : String} {bytes' : Bytes}
    (h : d.Written d' dir owner bytes) (h' : d'.Written d'' dir owner' bytes')
    (hwritable : d.Writable dir owner) (hwritable' : d.Writable dir owner')
    (hsame : d.locate (fileFor dir owner') = d.locate (fileFor dir owner)) :
    d''.file? (d.locate (fileFor dir owner)) = some bytes' := by
  have hfile : d.locate (fileFor dir owner) ∉ d.foldersTo (fileFor dir owner') :=
    hsame ▸ hwritable'.file.2
  have hfolder : d.locate (fileFor dir owner') ∉ d.foldersTo (fileFor dir owner) :=
    hsame ▸ hwritable.file.2
  have hcopy := h'.copy (h.writable hwritable' hfile hfolder)
  rwa [locate, h.working, ← locate, hsame] at hcopy

end Disk

end CallPatch.Dump
