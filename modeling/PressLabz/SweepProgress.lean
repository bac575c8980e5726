import PressLabz.OldestFirst
import PressLabz.OrphanSweeps

/-! # What a sweep gets done

`sweepOrphans` of `orphans.ts`, pass after pass, over a bucket that treats each key in one way
for good.  A pass tries the oldest records and a record that failed keeps its age, so the ones
that fail stand in front for ever: as soon as they are `ORPHAN_BATCH`, nothing behind them is
tried again (`sweeps_progress_iff`).
-/
namespace PressLabz
open OldestFirst

/-! ## Passes -/

/-- The loop over the batch, with what `remove` makes of each key. -/
def sweepOrphans (answer : String → DeleteAnswer) (s : MediaStore) :
    List MediaOrphanRow → Nat × MediaStore
  | [] => (0, s)
  | orphan :: orphans =>
    let key := orphan.storageKey
    match answer key with
    | .results errors =>
      let swept := sweepOrphans answer
        ((s.deleteObjects [key] (.results errors)).forgetOrphan key) orphans
      (swept.1 + 1, swept.2)
    | .failed error => sweepOrphans answer (s.recordOrphanFailure key error) orphans

/-- What the bucket makes of the deletion of a key, each time it is asked. -/
inductive Fate where
  | deleted
  /-- The request is answered, and the answer says that the object is still there. -/
  | reported
  /-- The request fails. -/
  | failing
  deriving DecidableEq

def Fate.Allows (key : String) : Fate → DeleteAnswer → Prop
  | .deleted, .results errors => key ∉ errors
  | .reported, .results errors => key ∈ errors
  | .failing, .failed _ => True
  | _, _ => False

/-- The table has one record of a key: `storage_key` is unique. -/
def MediaStore.OneRecordEach (s : MediaStore) : Prop :=
  (s.orphans.map MediaOrphanRow.storageKey).Nodup

instance (s : MediaStore) : Decidable s.OneRecordEach := inferInstanceAs (Decidable (List.Nodup _))

section Passes
variable (fate : String → Fate)

/-- `listOrphans` asks for the oldest; between records of one time the choice is the database's. -/
def SweepPass (s left : MediaStore) : Prop :=
  ∃ answer orphans, (∀ key, (fate key).Allows key (answer key)) ∧
    IsOldest MediaOrphanRow.createdAt ORPHAN_BATCH s.orphans orphans ∧
    left = (sweepOrphans answer s orphans).2

/-- The records whose deletion fails that are as old as this one, or older. -/
def stuckAhead (s : MediaStore) (orphan : MediaOrphanRow) : Nat :=
  s.orphans.countP fun other =>
    fate other.storageKey = .failing && other.createdAt ≤ orphan.createdAt

end Passes

/-! ## What one pass does -/

section Effects
variable {fate : String → Fate} {answer : String → DeleteAnswer} {s left : MediaStore}
  {orphans : List MediaOrphanRow} {key : String}

/-- The note of a failure, on the record it is about. -/
def noted (key error : String) (orphan : MediaOrphanRow) : MediaOrphanRow :=
  if orphan.storageKey = key then
    { orphan with
      attempts := orphan.attempts + 1
      lastError := some (String.ofList (error.toList.take 500)) }
  else orphan

theorem noted_same (key error : String) (orphan : MediaOrphanRow) :
    (noted key error orphan).storageKey = orphan.storageKey ∧
      (noted key error orphan).createdAt = orphan.createdAt := by
  rw [noted]
  split
  · exact ⟨rfl, rfl⟩
  · exact ⟨rfl, rfl⟩

theorem served_forget (hkey : fate key ≠ .failing) {orphan : MediaOrphanRow}
    (horphan : orphan.storageKey = key) :
    Served MediaOrphanRow.storageKey MediaOrphanRow.createdAt (fate · = .failing) s.orphans [orphan]
      (s.forgetOrphan key).orphans := by
  refine ⟨id, fun _ => ⟨rfl, rfl⟩, ?_⟩
  rw [List.map_id, MediaStore.forgetOrphan]
  refine List.filter_congr fun other _ => ?_
  by_cases hother : other.storageKey = key
  · simp [hother, horphan, hkey]
  · simp [hother, horphan]

theorem served_fail (hkey : fate key = .failing) {orphan : MediaOrphanRow}
    (horphan : orphan.storageKey = key) (error : String) :
    Served MediaOrphanRow.storageKey MediaOrphanRow.createdAt (fate · = .failing) s.orphans [orphan]
      (s.recordOrphanFailure key error).orphans := by
  refine ⟨noted key error, noted_same key error, ?_⟩
  rw [List.filter_eq_self.mpr fun other _ => ?_]
  · rfl
  · by_cases hother : other.storageKey = key
    · simp [hother, hkey]
    · simp [hother, horphan]

/-- The records after the pass: those of the batch are gone, but for the ones that failed. -/
theorem served_sweepOrphans (hanswer : ∀ key, (fate key).Allows key (answer key)) :
    Served MediaOrphanRow.storageKey MediaOrphanRow.createdAt (fate · = .failing) s.orphans orphans
      (sweepOrphans answer s orphans).2.orphans := by
  induction orphans generalizing s with
  | nil => exact ⟨id, fun _ => ⟨rfl, rfl⟩, by simp [sweepOrphans]⟩
  | cons orphan orphans ih =>
    have hallowed := hanswer orphan.storageKey
    rw [sweepOrphans]
    cases hresult : answer orphan.storageKey with
    | results errors =>
      have hkey : fate orphan.storageKey ≠ .failing := by
        intro hfailing
        rw [hresult, hfailing] at hallowed
        exact hallowed
      exact (served_forget hkey rfl).trans ih
    | failed error =>
      have hkey : fate orphan.storageKey = .failing := by
        cases hfate : fate orphan.storageKey with
        | failing => rfl
        | deleted | reported =>
          rw [hresult, hfate] at hallowed
          exact hallowed.elim
      exact (served_fail hkey rfl error).trans ih

/-- An object that is there after the pass was there before, and was not deleted by it. -/
theorem mem_objects_sweepOrphans (hanswer : ∀ key, (fate key).Allows key (answer key))
    (h : key ∈ (sweepOrphans answer s orphans).2.objects) :
    key ∈ s.objects ∧ (fate key = .deleted → key ∉ orphans.map MediaOrphanRow.storageKey) := by
  induction orphans generalizing s with
  | nil => exact ⟨h, fun _ => List.not_mem_nil⟩
  | cons orphan orphans ih =>
    have hallowed := hanswer orphan.storageKey
    rw [sweepOrphans] at h
    cases hresult : answer orphan.storageKey with
    | results errors =>
      rw [hresult] at h hallowed
      obtain ⟨hmem, hrest⟩ := ih h
      obtain ⟨hobject, hkept⟩ := MediaStore.mem_deleteObjects.mp hmem
      refine ⟨hobject, fun hdeleted hbatch => ?_⟩
      rcases List.mem_cons.mp hbatch with rfl | hbatch
      · -- The answer would have to report the object it deleted.
        rcases hkept with hkept | hkept
        · exact hkept List.mem_cons_self
        · rw [hdeleted] at hallowed
          exact hallowed hkept
      · exact hrest hdeleted hbatch
    | failed error =>
      rw [hresult] at h hallowed
      obtain ⟨hobject, hrest⟩ := ih h
      refine ⟨hobject, fun hdeleted hbatch => ?_⟩
      rcases List.mem_cons.mp hbatch with rfl | hbatch
      · rw [hdeleted] at hallowed
        exact hallowed
      · exact hrest hdeleted hbatch

end Effects

/-! ## The sweep among the tasks -/

/-- The records that the model of the tasks lists are one of the choices. -/
theorem isOldest_listOrphans (s : MediaStore) :
    IsOldest MediaOrphanRow.createdAt ORPHAN_BATCH s.orphans (s.listOrphans ORPHAN_BATCH) := by
  have : Std.Total fun a b : MediaOrphanRow => a.createdAt ≤ b.createdAt :=
    ⟨fun a b => le_total a.createdAt b.createdAt⟩
  have : IsTrans MediaOrphanRow fun a b => a.createdAt ≤ b.createdAt := ⟨fun _ _ _ => le_trans⟩
  exact isOldest_take (List.perm_insertionSort (fun a b => a.createdAt ≤ b.createdAt) s.orphans)
    (List.pairwise_insertionSort _ _)

/-- The steps of the task that a pass is. -/
def sweepEvents (answer : String → DeleteAnswer) (orphans : List MediaOrphanRow) :
    List CleanupEvent :=
  orphans.flatMap fun orphan =>
    match answer orphan.storageKey with
    | .results errors => [.answered (.results errors), .forgot]
    | .failed error => [.answered (.failed error), .noted]

/-- The loop is a run of the task `Sweep`, with nothing else in between. -/
theorem run_sweepEvents (answer : String → DeleteAnswer) (s : MediaStore)
    (orphans : List MediaOrphanRow) :
    MediaSystem.run ⟨s, [.sweep ⟨orphans.map MediaOrphanRow.storageKey, .removing⟩]⟩
        ((sweepEvents answer orphans).map fun e => .advance 0 (.cleanup e)) =
      some ⟨(sweepOrphans answer s orphans).2, [.sweep ⟨[], .removing⟩]⟩ := by
  induction orphans generalizing s with
  | nil => rfl
  | cons orphan orphans ih =>
    rw [sweepEvents, List.flatMap_cons, List.map_append, sweepOrphans, List.map_cons]
    cases answer orphan.storageKey with
    | results errors => exact ih _
    | failed error => exact ih _

/-! ## Pass after pass -/

section Progress
variable (fate : String → Fate)

/-- An answer that the bucket may give. -/
def Fate.answer (key : String) : Fate → DeleteAnswer
  | .deleted => .results []
  | .reported => .results [key]
  | .failing => .failed "SlowDown"

theorem Fate.allows_answer (key : String) (f : Fate) : f.Allows key (f.answer key) := by
  cases f with
  | deleted => exact List.not_mem_nil
  | reported => exact List.mem_cons_self
  | failing => exact trivial

/-- The sweep, as a service of the oldest records. -/
def sweepService : Service MediaStore MediaOrphanRow String Nat where
  items := MediaStore.orphans
  key := MediaOrphanRow.storageKey
  age := MediaOrphanRow.createdAt
  stuck key := fate key = .failing
  limit := ORPHAN_BATCH
  Pass := SweepPass fate
  serves := by
    rintro s _ ⟨answer, orphans, hanswer, holdest, rfl⟩
    exact ⟨orphans, holdest, served_sweepOrphans hanswer⟩
  offers := by
    intro s orphans holdest
    have hanswer := fun key => (fate key).allows_answer key
    exact ⟨_, ⟨_, orphans, hanswer, holdest, rfl⟩, served_sweepOrphans hanswer⟩

/-- Some number of passes one after the other. -/
def SweepPasses (n : Nat) (s left : MediaStore) : Prop := (sweepService fate).Passes n s left

/-- There is a number of passes after which, whatever the database chose, the records of the keys
that can be deleted are gone, and the objects with them. -/
def SweepsProgress (s : MediaStore) : Prop :=
  ∃ n, (∃ left, SweepPasses fate n s left) ∧
    ∀ left, SweepPasses fate n s left → ∀ key, fate key = .deleted →
      ¬ left.Listed key ∧ (s.Listed key → key ∉ left.objects)

variable {fate} {s left : MediaStore} {n : Nat} {key : String}

theorem listed_iff_key (s : MediaStore) :
    s.Listed key ↔ key ∈ s.orphans.map MediaOrphanRow.storageKey := by
  rw [MediaStore.Listed, List.mem_map]

/-- A record goes with its object. -/
theorem SweepPass.gone (h : SweepPass fate s left) (hfate : fate key = .deleted)
    (hlisted : s.Listed key) : left.Listed key ∨ key ∉ left.objects := by
  obtain ⟨answer, orphans, hanswer, -, rfl⟩ := h
  by_cases hobject : key ∈ (sweepOrphans answer s orphans).2.objects
  · obtain ⟨-, hbatch⟩ := mem_objects_sweepOrphans hanswer hobject
    rw [listed_iff_key] at hlisted ⊢
    exact .inl ((served_sweepOrphans hanswer).mem_iff.mpr ⟨hlisted, .inr (hbatch hfate)⟩)
  · exact .inr hobject

theorem SweepPass.objects (h : SweepPass fate s left) (hobject : key ∉ s.objects) :
    key ∉ left.objects := by
  obtain ⟨answer, orphans, hanswer, -, rfl⟩ := h
  exact fun hleft => hobject (mem_objects_sweepOrphans hanswer hleft).1

theorem SweepPasses.objects (h : SweepPasses fate n s left) (hobject : key ∉ s.objects) :
    key ∉ left.objects := by
  induction h with
  | none s => exact hobject
  | one hpass _ ih => exact ih (SweepPass.objects hpass hobject)

theorem SweepPasses.gone (h : SweepPasses fate n s left) (hfate : fate key = .deleted)
    (hlisted : s.Listed key) : left.Listed key ∨ key ∉ left.objects := by
  induction h with
  | none s => exact .inl hlisted
  | one hpass hpasses ih =>
    rcases SweepPass.gone hpass hfate hlisted with hmid | hmid
    · exact ih hmid
    · exact .inr (SweepPasses.objects hpasses hmid)

theorem stuckAhead_lt_of_progress (hone : s.OneRecordEach) (hprogress : SweepsProgress fate s)
    {orphan : MediaOrphanRow} (horphan : orphan ∈ s.orphans)
    (hfate : fate orphan.storageKey = .deleted) : stuckAhead fate s orphan < ORPHAN_BATCH := by
  obtain ⟨n, -, hgone⟩ := hprogress
  have hstuck : (sweepService fate).stuck orphan.storageKey = false := by simp [sweepService, hfate]
  refine (Service.served_iff (v := sweepService fate) hone horphan hstuck).mp
    ⟨n, fun left hpasses hleft => ?_⟩
  exact (hgone left hpasses _ hfate).1 ((listed_iff_key left).mpr hleft)

theorem progress_of_stuckAhead_lt (hone : s.OneRecordEach)
    (hahead : ∀ orphan ∈ s.orphans, fate orphan.storageKey = .deleted →
      stuckAhead fate s orphan < ORPHAN_BATCH) : SweepsProgress fate s := by
  refine ⟨waiting (sweepService fate).key (sweepService fate).stuck s.orphans,
    Service.exists_passes _ _, fun left hpasses key hfate => ?_⟩
  have hstuck : (sweepService fate).stuck key = false := by simp [sweepService, hfate]
  have hgone : ¬ left.Listed key := by
    rw [listed_iff_key]
    by_cases hlisted : s.Listed key
    · obtain ⟨orphan, horphan, rfl⟩ := hlisted
      exact Service.served_in_time (v := sweepService fate) hone horphan hstuck
        (hahead orphan horphan hfate) hpasses le_rfl
    · exact Service.Passes.absent hpasses fun h => hlisted ((listed_iff_key s).mpr h)
  exact ⟨hgone, fun hlisted => (SweepPasses.gone hpasses hfate hlisted).resolve_left hgone⟩

/-- **The sweep gets past the keys that fail** exactly if fewer than a batch of them stand before
each record that could go, ties included. -/
theorem sweeps_progress_iff (hone : s.OneRecordEach) :
    SweepsProgress fate s ↔ ∀ orphan ∈ s.orphans, fate orphan.storageKey = .deleted →
      stuckAhead fate s orphan < ORPHAN_BATCH :=
  ⟨fun hprogress _ => stuckAhead_lt_of_progress hone hprogress, progress_of_stuckAhead_lt hone⟩

end Progress

/-! ## A bucket with a locked folder -/

def lockedKey (i : Nat) : String := "locked/" ++ toString i

/-- Only the free object can be deleted. -/
def lockedFate (key : String) : Fate :=
  if key = "media/free.avif" then .deleted else .failing

/-- A free object, recorded after `locked` that are not. -/
def lockedStore (locked : Nat) : MediaStore where
  rows := []
  orphans := (List.range locked).map (fun i => ⟨lockedKey i, 0, 0, none, i⟩) ++
    [⟨"media/free.avif", 0, 0, none, locked⟩]
  objects := "media/free.avif" :: (List.range locked).map lockedKey

theorem sweeps_progress_one : SweepsProgress lockedFate (lockedStore 1) :=
  (sweeps_progress_iff (by decide +kernel)).mpr (by decide +kernel)

/-- Fifty locked objects, and the one behind them is never tried. -/
theorem locked_folder_stops_the_sweep :
    (lockedStore 50).OneRecordEach ∧ ¬ SweepsProgress lockedFate (lockedStore 50) := by
  have hone : (lockedStore 50).OneRecordEach := by decide +kernel
  refine ⟨hone, fun hprogress => ?_⟩
  have hfree : ⟨"media/free.avif", 0, 0, none, 50⟩ ∈ (lockedStore 50).orphans := by
    decide +kernel
  have hahead := stuckAhead_lt_of_progress hone hprogress hfree (by decide +kernel)
  exact absurd hahead (by decide +kernel)

end PressLabz
