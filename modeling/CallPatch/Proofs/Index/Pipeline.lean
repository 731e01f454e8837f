import CallPatch.Proofs.Index.Content
import Mathlib.Data.List.DropRight
/-!
# Entry indexes — two in a row

A staging index and the installed index it is emptied into, one call at a time.
Both tell entries apart by their joined keys alone, so of the call sites that
share one the first to be reported stands for all: in the staging index until
the next transfer, in the installed index for good (`first_come`). A call site
with a joined key of its own is never kept out; one without may be, and is then
not listed (`Shared.kept_out`).

The history of calls decides everything. Which entries wait in either index is
read off it (`Kept`), with the calls cut at the last transfer.
-/

namespace CallPatch

/-- An index for reports, and the index that takes on what was staged in it. -/
structure Pipeline where
  staging : EntryIndex
  installed : EntryIndex
  deriving DecidableEq, Repr

namespace Pipeline

/-- What is asked of the two indexes. -/
inductive Call where
  | report (key : EntryKey)
  | transfer
  deriving DecidableEq, Repr

/-- The entry that the call reports. -/
def Call.key? : Call → Option EntryKey
  | .report key => some key
  | .transfer => none

/-- Nothing staged, nothing installed. -/
def fresh : Pipeline :=
  { staging := .staging, installed := .installed }

/-- One call. -/
def call (p : Pipeline) : Call → Pipeline
  | .report key => { p with staging := (p.staging.report key).1 }
  | .transfer =>
    let moved := p.staging.transfer p.installed
    { staging := moved.source, installed := moved.target }

/-- One call after another, from the start. -/
def run (calls : List Call) : Pipeline :=
  calls.foldl call fresh

/-! ## The history -/

/-- Everything that was reported, in order. -/
def reported (calls : List Call) : List EntryKey :=
  calls.filterMap Call.key?

/-- What was reported since the last transfer. -/
def recent (calls : List Call) : List EntryKey :=
  reported (calls.rtakeWhile (· ≠ .transfer))

/-- What had been reported at the last transfer. -/
def settled (calls : List Call) : List EntryKey :=
  reported (calls.rdropWhile (· ≠ .transfer))

/-- The entry is the first of those that share its joined key. -/
def IsFirst (keys : List EntryKey) (key : EntryKey) : Prop :=
  keys.find? (fun k => k.joined = key.joined) = some key

variable {calls : List Call} {keys keys' : List EntryKey} {key k : EntryKey} {p : Pipeline}

/-- Calls one after another report what each of them does. -/
theorem reported_append (calls calls' : List Call) :
    reported (calls ++ calls') = reported calls ++ reported calls' :=
  List.filterMap_append ..

/-- What was reported was handed on or is still waiting. -/
theorem settled_append_recent (calls : List Call) :
    settled calls ++ recent calls = reported calls := by
  rw [settled, recent, ← reported_append, List.rdropWhile_append_rtakeWhile]

theorem recent_report (calls : List Call) (key : EntryKey) :
    recent (calls ++ [.report key]) = recent calls ++ [key] := by
  rw [recent, List.rtakeWhile_concat_pos _ _ _ (by simp), reported_append]
  rfl

theorem settled_report (calls : List Call) (key : EntryKey) :
    settled (calls ++ [.report key]) = settled calls := by
  rw [settled, List.rdropWhile_concat_pos _ _ _ (by simp), settled]

/-- Behind a transfer nothing waits. -/
theorem recent_transfer (calls : List Call) : recent (calls ++ [.transfer]) = [] := by
  rw [recent, List.rtakeWhile_concat_neg _ _ _ (by simp)]
  rfl

theorem settled_transfer (calls : List Call) :
    settled (calls ++ [.transfer]) = reported calls := by
  rw [settled, List.rdropWhile_concat_neg _ _ _ (by simp), reported_append]
  exact List.append_nil _

/-- A key is the first of its joined text in one part, or in the other where the one has none. -/
theorem isFirst_append :
    IsFirst (keys ++ keys') key ↔
      IsFirst keys key ∨ (∀ k ∈ keys, k.joined ≠ key.joined) ∧ IsFirst keys' key := by
  have hnone : keys.find? (fun k => k.joined = key.joined) = none ↔
      ∀ k ∈ keys, k.joined ≠ key.joined := by simp
  rw [IsFirst, List.find?_append, Option.or_eq_some_iff, hnone]
  exact Iff.rfl

theorem isFirst_singleton : IsFirst [k] key ↔ key = k := by
  by_cases hjoined : k.joined = key.joined
  · simp [IsFirst, hjoined, eq_comm]
  · simp only [IsFirst, List.find?_singleton, hjoined, decide_false, Bool.false_eq_true, if_false,
      reduceCtorEq, false_iff]
    rintro rfl
    exact hjoined rfl

/-- An entry shares its joined key with one of the entries just when one of these is the first to
have it. -/
theorem exists_isFirst_iff {joined : String} :
    (∃ k, IsFirst keys k ∧ k.joined = joined) ↔ ∃ k ∈ keys, k.joined = joined := by
  constructor
  · rintro ⟨k, hfirst, hjoined⟩
    exact ⟨k, List.mem_of_find?_eq_some hfirst, hjoined⟩
  · rintro ⟨k, hk, rfl⟩
    obtain ⟨k', hfirst⟩ : ∃ k', keys.find? (fun k' => k'.joined = k.joined) = some k' := by
      rw [← Option.isSome_iff_exists, List.find?_isSome]
      exact ⟨k, hk, by simp⟩
    have hjoined : k'.joined = k.joined := by simpa using List.find?_some hfirst
    exact ⟨k', by rwa [IsFirst, hjoined], hjoined⟩

/-! ## What waits -/

/-- In the staging index wait the first of the entries reported since the last transfer, in the
installed index the first of those reported before it. -/
structure Kept (calls : List Call) (p : Pipeline) : Prop where
  staging : p.staging.AtRest
  installed : p.installed.AtRest
  staged : ∀ k, k ∈ p.staging.pending ↔ IsFirst (recent calls) k
  listed : ∀ k, k ∈ p.installed.pending ↔ IsFirst (settled calls) k

/-- A joined key is present in an index that holds the first of some entries if one has it. -/
theorem mem_existence_iff {ix : EntryIndex} (h : ix.AtRest)
    (hpending : ∀ k, k ∈ ix.pending ↔ IsFirst keys k) {joined : String} :
    joined ∈ ix.existence ↔ ∃ k ∈ keys, k.joined = joined := by
  have hsame : (∃ k ∈ ix.pending, k.joined = joined) ↔ ∃ k, IsFirst keys k ∧ k.joined = joined :=
    exists_congr fun k => and_congr_left fun _ => hpending k
  rw [h.mem_existence, hsame, exists_isFirst_iff]

/-- Nothing has been called, and nothing is there. -/
theorem kept_fresh : Kept [] fresh where
  staging := EntryIndex.atRest_empty _
  installed := EntryIndex.atRest_empty _
  staged _ := ⟨nofun, nofun⟩
  listed _ := ⟨nofun, nofun⟩

/-- A report stages the entry where its joined key has not been reported since the last transfer. -/
theorem Kept.report (h : Kept calls p) (key : EntryKey) :
    Kept (calls ++ [.report key]) (p.call (.report key)) := by
  refine ⟨h.staging.report key, h.installed, fun k => ?_, fun k => ?_⟩
  · have hnew : key.joined ∉ p.staging.existence ↔ ∀ k ∈ recent calls, k.joined ≠ key.joined := by
      rw [mem_existence_iff h.staging h.staged]
      simp
    show k ∈ (p.staging.report key).1.pending ↔ _
    rw [EntryIndex.mem_pending_report, recent_report, isFirst_append, isFirst_singleton,
      h.staged, hnew]
    -- the entry that is new is the one reported, so either may stand in the condition
    refine or_congr_right (and_congr_left ?_)
    rintro rfl
    exact Iff.rfl
  · rw [settled_report]
    exact h.listed k

/-- A transfer installs the entry where its joined key had not been reported before. -/
theorem Kept.transfer (h : Kept calls p) : Kept (calls ++ [.transfer]) (p.call .transfer) := by
  have hmoved : EntryIndex.Moved p.staging p.installed (p.staging.transfer p.installed) :=
    h.staging.transfer h.installed
  refine ⟨hmoved.source_atRest, hmoved.target_atRest, fun k => ?_, fun k => ?_⟩
  · have hnone : (p.call .transfer).staging.pending = [] := hmoved.source_pending
    rw [hnone, recent_transfer]
    exact ⟨nofun, nofun⟩
  · have hnew : k.joined ∉ p.installed.existence ↔ ∀ k' ∈ settled calls, k'.joined ≠ k.joined := by
      rw [mem_existence_iff h.installed h.listed]
      simp
    show k ∈ (p.staging.transfer p.installed).target.pending ↔ _
    -- what is installed comes before what is staged, as in the history
    rw [hmoved.mem_target h.staging h.installed, settled_transfer, ← settled_append_recent,
      isFirst_append, h.listed, h.staged, hnew]
    exact or_congr_right and_comm

/-- **The history tells what waits.** -/
theorem kept_run (calls : List Call) : Kept calls (run calls) := by
  induction calls using List.reverseRecOn with
  | nil => exact kept_fresh
  | append_singleton calls c ih =>
    have hrun : run (calls ++ [c]) = (run calls).call c := by
      rw [run, List.foldl_append]
      rfl
    rw [hrun]
    cases c with
    | report key => exact ih.report key
    | transfer => exact ih.transfer

/-- **First come, first listed.** A report succeeds just when none since the last transfer had its
joined key. After the next transfer an entry is listed just when it was the first with its joined
key ever to be reported. -/
theorem first_come (calls : List Call) (key : EntryKey) :
    (((run calls).staging.report key).2 = true ↔ ∀ k ∈ recent calls, k.joined ≠ key.joined) ∧
      (key.member ∈ ((run (calls ++ [.transfer])).installed.membersOf? key.owner).getD [] ↔
        IsFirst (reported calls) key) := by
  have hkept := kept_run calls
  have hthere : key.joined ∈ (run calls).staging.existence ↔
      ∃ k ∈ recent calls, k.joined = key.joined := mem_existence_iff hkept.staging hkept.staged
  constructor
  · by_cases hmem : key.joined ∈ (run calls).staging.existence
    · rw [EntryIndex.report_of_mem hmem]
      obtain ⟨k, hk, hjoined⟩ := hthere.1 hmem
      exact ⟨nofun, fun hnone => absurd hjoined (hnone k hk)⟩
    · refine ⟨fun _ k hk hjoined => hmem (hthere.2 ⟨k, hk, hjoined⟩), fun _ => ?_⟩
      exact (hkept.staging.report_of_notMem hmem).2.2
  · have hkept' := kept_run (calls ++ [.transfer])
    rw [hkept'.installed.mem_membersOf, hkept'.listed, settled_transfer]

/-! ## Two call sites with one joined key -/

namespace Shared

/-- The member `b#c` of `a`. -/
def first : EntryKey := { owner := "a", member := "b#c" }

/-- The member `c` of `a#b`. -/
def second : EntryKey := { owner := "a#b", member := "c" }

/-- The first is transferred before the second is reported and transferred. -/
def history : List Call :=
  [.report first, .transfer, .report second, .transfer]

/-- **A call site can be kept out by another one.** Its first report fails while the other one is
staged. When that has been transferred it is reported with success, and not listed after all. -/
theorem kept_out :
    second ∉ reported [.report first] ∧
      ((run [.report first]).staging.report second).2 = false ∧
      ((run [.report first, .transfer]).staging.report second).2 = true ∧
      second.member ∉ ((run history).installed.membersOf? second.owner).getD [] := by
  decide +kernel

end Shared

end Pipeline

end CallPatch
