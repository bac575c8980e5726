import PressLabz.MediaUpload

/-! # Orphans

Three pieces of code pair `deleteObjects` with `forgetOrphan`: an abandoned upload
(`abandonObjects`), the route that deletes an asset, and the sweep of `orphans.ts`.
Any number of them run over the tables and the bucket here, one step of one of them at
a time.

`deleteObjects` looks only at whether the request was answered.  A 200 that reports an
error for a key is taken for the deletion of all of them, and what makes a record of an
object disappear too early is such an answer (`orphans_kept`, `error_in_a_batch`).
-/
namespace PressLabz

def DELIVERY_CHECK_KEY : String := "media/delivery-check.txt"

/-- How many objects one pass will try. -/
def ORPHAN_BATCH : Nat := 50

/-! ## Deletions and sweeps -/

inductive CleanupEvent where
  | answered (answer : DeleteAnswer)
  | forgot
  | forgetRefused (error : String)
  /-- `recordOrphanFailure` is written. -/
  | noted
  | noteRefused
  deriving DecidableEq

inductive DeletionPhase where
  | removing
  | forgetting (next : Nat)
  | done
  deriving DecidableEq

/-- The deletion of an asset once its transaction is committed. -/
structure Deletion where
  keys : List String
  phase : DeletionPhase

namespace Deletion

def goTo (d : Deletion) (phase : DeletionPhase) : Deletion := { d with phase := phase }

def afterAnswer (d : Deletion) : DeleteAnswer → Deletion
  | .results _ => d.goTo (.forgetting 0)
  | .failed _ => d.goTo .done

def step (d : Deletion) (s : MediaStore) : CleanupEvent → Option (Deletion × MediaStore)
  | .answered answer =>
    match d.phase with
    | .removing => some (d.afterAnswer answer, s.deleteObjects d.keys answer)
    | _ => none
  | .forgot =>
    match d.phase with
    | .forgetting next =>
      (d.keys[next]?).map fun key => (d.goTo (.forgetting (next + 1)), s.forgetOrphan key)
    | _ => none
  | .forgetRefused _ =>
    match d.phase with
    | .forgetting _ => some (d.goTo .done, s)
    | _ => none
  | _ => none

end Deletion

inductive SweepPhase where
  | removing
  | forgetting
  /-- The store, or the table, refused. -/
  | failing (error : String)
  deriving DecidableEq

/-- A pass over the orphans that were listed; the first of them is the one at hand. -/
structure Sweep where
  keys : List String
  phase : SweepPhase

namespace Sweep

def goTo (w : Sweep) (phase : SweepPhase) : Sweep := { w with phase := phase }

def next (w : Sweep) : Sweep := ⟨w.keys.tail, .removing⟩

def afterAnswer (w : Sweep) : DeleteAnswer → Sweep
  | .results _ => w.goTo .forgetting
  | .failed error => w.goTo (.failing error)

def step (w : Sweep) (s : MediaStore) : CleanupEvent → Option (Sweep × MediaStore)
  | .answered answer =>
    match w.phase, w.keys with
    | .removing, key :: _ => some (w.afterAnswer answer, s.deleteObjects [key] answer)
    | _, _ => none
  | .forgot =>
    match w.phase, w.keys with
    | .forgetting, key :: _ => some (w.next, s.forgetOrphan key)
    | _, _ => none
  | .forgetRefused error =>
    match w.phase with
    | .forgetting => some (w.goTo (.failing error), s)
    | _ => none
  | .noted =>
    match w.phase, w.keys with
    | .failing error, key :: _ => some (w.next, s.recordOrphanFailure key error)
    | _, _ => none
  | .noteRefused =>
    -- The pass ends with the first failure that cannot be noted.
    match w.phase with
    | .failing _ => some (⟨[], .removing⟩, s)
    | _ => none

end Sweep

/-! ## Tasks -/

inductive Task where
  | upload (u : Upload)
  | deletion (d : Deletion)
  | sweep (w : Sweep)

inductive TaskEvent where
  | upload (e : UploadEvent)
  | cleanup (e : CleanupEvent)

namespace Task

def step (s : MediaStore) : Task → TaskEvent → Option (Task × MediaStore)
  | .upload u, .upload e => (u.step s e).map fun next => (.upload next.1, next.2)
  | .deletion d, .cleanup e => (d.step s e).map fun next => (.deletion next.1, next.2)
  | .sweep w, .cleanup e => (w.step s e).map fun next => (.sweep next.1, next.2)
  | _, _ => none

/-- The keys a task may ever touch. -/
def keys : Task → List String
  | .upload u => renditionNames.map (objectKey u.input.id)
  | .deletion d => d.keys
  | .sweep w => w.keys

end Task

/-! ## The system -/

structure MediaSystem where
  store : MediaStore
  tasks : List Task

inductive SystemEvent where
  /-- An upload comes to its writes, with the id it drew. -/
  | startUpload (input : UploadInput)
  /-- The transaction of a deletion is committed. -/
  | startDeletion (id : Uuid) (now : Nat)
  | startSweep
  | advance (i : Nat) (e : TaskEvent)

namespace MediaSystem
variable (sys : MediaSystem)

/-- The key occurs anywhere. -/
def Mentions (key : String) : Prop :=
  key ∈ sys.store.objects ∨ sys.store.Listed key ∨ sys.store.Named key ∨
    ∃ task ∈ sys.tasks, key ∈ task.keys

instance (key : String) : Decidable (sys.Mentions key) :=
  inferInstanceAs (Decidable (_ ∨ _ ∨ _ ∨ ∃ task ∈ sys.tasks, _))

def spawn (store : MediaStore) (task : Task) : MediaSystem := ⟨store, sys.tasks ++ [task]⟩

/-- No id is drawn twice. -/
def step : SystemEvent → Option MediaSystem
  | .startUpload input =>
    if ∀ name ∈ renditionNames, ¬ sys.Mentions (objectKey input.id name) then
      some (sys.spawn sys.store (.upload (Upload.start input)))
    else none
  | .startDeletion id now =>
    match sys.store.deleteMediaRow now id with
    | (some row, left) => some (sys.spawn left (.deletion ⟨storageKeysOf row, .removing⟩))
    | (none, _) => none
  | .startSweep =>
    let listed := (sys.store.listOrphans ORPHAN_BATCH).map MediaOrphanRow.storageKey
    some (sys.spawn sys.store (.sweep ⟨listed, .removing⟩))
  | .advance i e =>
    (sys.tasks[i]?).bind fun task =>
      (task.step sys.store e).map fun next => ⟨next.2, sys.tasks.set i next.1⟩

def run (sys : MediaSystem) : List SystemEvent → Option MediaSystem
  | [] => some sys
  | e :: es => (sys.step e).bind fun next => run next es

/-- No upload is in progress. -/
def NoUpload : Prop := ∀ u, .upload u ∈ sys.tasks → u.Settled

end MediaSystem

/-- An object of the media, not the one that checks the delivery. -/
def isMediaKey (key : String) : Bool :=
  "media/".toList.isPrefixOf key.toList && key ≠ DELIVERY_CHECK_KEY

/-- Every object of the media is named by a row or on record. -/
def MediaStore.AllNamed (s : MediaStore) : Prop :=
  ∀ key ∈ s.objects, isMediaKey key = true → s.Named key ∨ s.Listed key

/-! ## Answers that deleted what was asked -/

/-- The answer reports no error for a key of its request; and an upload is not surprised by
a late write. -/
def Task.Harmless (s : MediaStore) : Task → TaskEvent → Prop
  | .upload u, .upload e => u.Harmless s e
  | .deletion d, .cleanup (.answered (.results errors)) => ∀ key ∈ d.keys, key ∉ errors
  | .sweep w, .cleanup (.answered (.results errors)) => ∀ key ∈ w.keys.head?, key ∉ errors
  | _, _ => True

def MediaSystem.Harmless (sys : MediaSystem) : SystemEvent → Prop
  | .advance i e => ∀ task, sys.tasks[i]? = some task → task.Harmless sys.store e
  | _ => True

def MediaSystem.AllHarmless (sys : MediaSystem) : List SystemEvent → Prop
  | [] => True
  | e :: es => sys.Harmless e ∧ ∀ next, sys.step e = some next → AllHarmless next es

/-! ## What a task is to the others -/

namespace Task

/-- The task is still writing the object. -/
def Puts : Task → String → Prop
  | .upload u, key => ∃ name ∈ u.pending, objectKey u.input.id name = key
  | _, _ => False

/-- The task has written the object, and has not come to an end with it. -/
def Holds : Task → String → Prop
  | .upload u, key => key ∈ u.keys ∧ (∀ next, u.phase ≠ .forgetting next) ∧ u.phase ≠ .done
  | _, _ => False

/-- The task took the object for deleted, and forgets the record. -/
def Forgets : Task → String → Prop
  | .upload u, key => key ∈ u.keys ∧ ∃ next, u.phase = .forgetting next
  | .deletion d, key => key ∈ d.keys ∧ ∃ next, d.phase = .forgetting next
  | .sweep w, key => w.keys.head? = some key ∧ w.phase = .forgetting

/-- What an upload knows, whoever else is there. -/
def Staged : Task → Prop
  | .upload u => (u.pending ++ u.written).Nodup ∧
    match u.phase with
    | .inserting => u.pending = []
    | .recording snapshot => ∀ key ∈ snapshot, key ∈ u.keys
    | .removing sent => ∀ key, key ∈ sent ↔ key ∈ u.keys
    | _ => True
  | _ => True

/-- What the task takes for deleted is gone, and what it is writing is new. -/
structure Sound (task : Task) (s : MediaStore) : Prop where
  forgets : ∀ key, task.Forgets key → key ∉ s.objects
  puts : ∀ key, task.Puts key → key ∉ s.objects ∧ ¬ s.Listed key ∧ ¬ s.Named key
  staged : task.Staged

/-- What a step of the task does to everyone. -/
structure Effect (task task' : Task) (s s' : MediaStore) : Prop where
  objects : ∀ key ∈ s'.objects, key ∈ s.objects ∨ task.Puts key
  listed : ∀ key, s'.Listed key → s.Listed key ∨ key ∈ task.keys
  named : ∀ key, s'.Named key → s.Named key ∨ key ∈ task.keys
  namedKept : ∀ key, s.Named key → s'.Named key
  /-- A record goes only where the task forgets it. -/
  unlisted : ∀ key, s.Listed key → s'.Listed key ∨ task.Forgets key ∧ s'.objects = s.objects
  keys : ∀ key ∈ task'.keys, key ∈ task.keys
  puts : ∀ key, task'.Puts key → task.Puts key
  held : ∀ key ∈ s'.objects, task.Holds key ∨ task.Puts key →
    s'.Named key ∨ s'.Listed key ∨ task'.Holds key
  sound : task'.Sound s'

section Effects
variable {task task' : Task} {s s' : MediaStore} {key : String} {u u' : Upload}
  {name : RenditionName}

theorem puts_keys (h : task.Puts key) : key ∈ task.keys := by
  cases task with
  | upload u =>
    obtain ⟨name, -, rfl⟩ := h
    exact List.mem_map_of_mem Upload.mem_renditionNames
  | deletion d => exact h.elim
  | sweep w => exact h.elim

theorem written_keys (h : key ∈ u.keys) : key ∈ (Task.upload u).keys := by
  obtain ⟨name, -, rfl⟩ := Upload.mem_keys.mp h
  exact List.mem_map_of_mem Upload.mem_renditionNames

theorem forgets_keys (h : task.Forgets key) : key ∈ task.keys := by
  cases task with
  | upload u => exact written_keys h.1
  | deletion d => exact h.1
  | sweep w => exact List.mem_of_mem_head? h.1

/-- A key that is still being written is not among those that were. -/
theorem puts_fresh (hstaged : (Task.upload u).Staged) (hname : name ∈ u.pending) :
    objectKey u.input.id name ∉ u.keys := by
  intro hmem
  obtain ⟨other, hother, heq⟩ := Upload.mem_keys.mp hmem
  obtain rfl := objectKey_inj heq
  exact (List.nodup_append.mp hstaged.1).2.2 other hname other hother rfl

/-- The row of an upload names what was written, and nothing that it might not write. -/
theorem row_keys {rowId : Uuid} {now : Nat} (h : key ∈ u.keys) :
    key ∈ storageKeysOf (u.row rowId now) := by
  obtain ⟨name, hname, rfl⟩ := Upload.mem_keys.mp h
  exact mem_storageKeysOf.mpr (.inr ⟨_, List.mem_map_of_mem hname, rfl⟩)

theorem written_keys_row {rowId : Uuid} {now : Nat} (h : key ∈ storageKeysOf (u.row rowId now)) :
    key ∈ (Task.upload u).keys := by
  rcases mem_storageKeysOf.mp h with rfl | ⟨rendition, hmem, rfl⟩
  · exact List.mem_map_of_mem List.mem_cons_self
  · obtain ⟨name, hname, rfl⟩ := List.mem_map.mp hmem
    exact written_keys (Upload.mem_keys.mpr ⟨name, hname, rfl⟩)

/-- A step that leaves the tables and the bucket as they are has such an effect. -/
theorem Effect.same (hsound : task.Sound s) (hkeys : ∀ key ∈ task'.keys, key ∈ task.keys)
    (hputs : ∀ key, task'.Puts key → task.Puts key)
    (hheld : ∀ key, key ∈ s.objects → task.Holds key →
      s.Named key ∨ s.Listed key ∨ task'.Holds key)
    (hforgets : ∀ key, task'.Forgets key → key ∉ s.objects) (hstaged : task'.Staged) :
    task.Effect task' s s where
  objects _ h := .inl h
  listed _ h := .inl h
  named _ h := .inl h
  namedKept _ h := h
  unlisted _ h := .inl h
  keys := hkeys
  puts := hputs
  held key hkey h := by
    rcases h with hholds | hput
    · exact hheld key hkey hholds
    · exact absurd hkey (hsound.puts key hput).1
  sound := ⟨hforgets, fun key h => hsound.puts key (hputs key h), hstaged⟩

/-- A step that forgets the record of an object that the task took for deleted has such an
effect. -/
theorem Effect.forget (hsound : task.Sound s) (hkey : task.Forgets key)
    (hkeys : ∀ key ∈ task'.keys, key ∈ task.keys)
    (hputs : ∀ key, task'.Puts key → task.Puts key) (hheld : ∀ key, ¬ task.Holds key)
    (hforgets : ∀ key, task'.Forgets key → task.Forgets key) (hstaged : task'.Staged) :
    task.Effect task' s (s.forgetOrphan key) where
  objects _ h := .inl h
  listed _ h := .inl (MediaStore.listed_forgetOrphan.mp h).1
  named _ h := .inl h
  namedKept _ h := h
  unlisted k hlisted := by
    by_cases hsame : k = key
    · subst hsame
      exact .inr ⟨hkey, rfl⟩
    · exact .inl (MediaStore.listed_forgetOrphan.mpr ⟨hlisted, hsame⟩)
  keys := hkeys
  puts := hputs
  held k hobject h := by
    rcases h with hholds | hput
    · exact absurd hholds (hheld k)
    · exact absurd hobject (hsound.puts k hput).1
  sound := by
    refine ⟨fun k h => hsound.forgets k (hforgets k h), fun k h => ?_, hstaged⟩
    obtain ⟨hobject, hlisted, hnamed⟩ := hsound.puts k (hputs k h)
    exact ⟨hobject, fun h => hlisted (MediaStore.listed_forgetOrphan.mp h).1, hnamed⟩

/-- A step that deletes everything it asks for has such an effect. -/
theorem Effect.remove {asked errors : List String} (hsound : task.Sound s)
    (hharmless : ∀ key ∈ asked, key ∉ errors) (hkeys : ∀ key ∈ task'.keys, key ∈ task.keys)
    (hputs : ∀ key, task'.Puts key → task.Puts key) (hheld : ∀ key, task.Holds key → key ∈ asked)
    (hforgets : ∀ key, task'.Forgets key → key ∈ asked) (hstaged : task'.Staged) :
    task.Effect task' s (s.deleteObjects asked (.results errors)) := by
  have hgone : ∀ key ∈ asked, key ∉ (s.deleteObjects asked (.results errors)).objects := by
    intro key hkey hobject
    exact (MediaStore.mem_deleteObjects.mp hobject).2.elim (fun hnot => hnot hkey)
      (hharmless key hkey)
  refine ⟨fun key hkey => .inl (MediaStore.mem_deleteObjects.mp hkey).1, fun _ h => .inl h,
    fun _ h => .inl h, fun _ h => h, fun _ h => .inl h, hkeys, hputs, fun key hkey h => ?_,
    fun key h => hgone key (hforgets key h), fun key hput => ?_, hstaged⟩
  · rcases h with hholds | hput
    · exact absurd hkey (hgone key (hheld key hholds))
    · exact absurd (MediaStore.mem_deleteObjects.mp hkey).1 (hsound.puts key hput).1
  · obtain ⟨hobject, hrest⟩ := hsound.puts key (hputs key hput)
    exact ⟨fun h => hobject (MediaStore.mem_deleteObjects.mp h).1, hrest⟩

/-- An upload that gives up holds what it holds. -/
theorem effect_abandon (hsound : (Task.upload u).Sound s) (hinput : u'.input = u.input)
    (hwritten : u'.written = u.written) (hpending : ∀ name ∈ u'.pending, name ∈ u.pending)
    (hnames : (u'.pending ++ u'.written).Nodup) :
    (Task.upload u).Effect (.upload u'.abandon) s s := by
  have hkeys : u'.keys = u.keys := by rw [Upload.keys, Upload.keys, hwritten, hinput]
  have hputs : ∀ key, (∃ name ∈ u'.pending, objectKey u'.input.id name = key) →
      (Task.upload u).Puts key := by
    rintro key ⟨name, hname, rfl⟩
    exact ⟨name, hpending name hname, by rw [hinput]⟩
  have hall : ∀ key ∈ renditionNames.map (objectKey u'.input.id), key ∈ (Task.upload u).keys := by
    intro key hkey
    rw [hinput] at hkey
    exact hkey
  rcases u'.abandon_cases with ⟨hnone, habandon⟩ | habandon
  · rw [habandon]
    refine Effect.same hsound hall hputs (fun key _ hholds => ?_) ?_ ⟨hnames, trivial⟩
    · have hmem := hholds.1
      rw [← hkeys, hnone] at hmem
      cases hmem
    · rintro key ⟨-, next, hphase⟩
      cases hphase
  · rw [habandon]
    refine Effect.same hsound hall hputs (fun key _ hholds => .inr (.inr ?_)) ?_
      ⟨hnames, fun _ h => h⟩
    · refine ⟨?_, fun next hphase => ?_, fun hphase => ?_⟩
      · rw [Upload.goTo_keys, hkeys]
        exact hholds.1
      · cases hphase
      · cases hphase
    · rintro key ⟨-, next, hphase⟩
      cases hphase

/-- An object that is stored in time is held. -/
theorem effect_stored (hsound : (Task.upload u).Sound s) (hname : name ∈ u.pending)
    (hharmless : u.phase = .writing ∨ ∃ snapshot, u.phase = .recording snapshot) :
    (Task.upload u).Effect (.upload (u.afterStored name))
      s (s.putObject (objectKey u.input.id name)) := by
  have hcases := @Upload.afterStored_cases u name hharmless
  obtain ⟨hforgetting, hdone⟩ : (∀ next, (u.afterStored name).phase ≠ .forgetting next) ∧
      (u.afterStored name).phase ≠ .done := by
    rcases hcases with ⟨hphase, -⟩ | hphase | ⟨snapshot, -, hphase⟩
    · simp [hphase]
    · simp [hphase]
    · simp [hphase]
  refine ⟨fun key hkey => ?_, fun _ h => .inl h, fun _ h => .inl h, fun _ h => h,
    fun _ h => .inl h, fun _ h => h, ?_, fun key hkey h => .inr (.inr ⟨?_, hforgetting, hdone⟩),
    ⟨?_, ?_, ?_, ?_⟩⟩
  · rcases MediaStore.mem_putObject.mp hkey with rfl | hold
    · exact .inr ⟨name, hname, rfl⟩
    · exact .inl hold
  · rintro key ⟨other, hother, rfl⟩
    exact ⟨other, List.mem_of_mem_erase hother, rfl⟩
  · rw [Upload.afterStored_keys, List.mem_append, List.mem_singleton]
    rcases h with hholds | hput
    · exact .inl hholds.1
    · exact .inr ((MediaStore.mem_putObject.mp hkey).resolve_right (hsound.puts key hput).1)
  · rintro key ⟨-, next, hphase⟩
    exact absurd hphase (hforgetting next)
  · rintro key ⟨other, hother, rfl⟩
    obtain ⟨hobject, hlisted, hnamed⟩ :=
      hsound.puts _ ⟨other, List.mem_of_mem_erase hother, rfl⟩
    refine ⟨fun hmem => ?_, hlisted, hnamed⟩
    rcases MediaStore.mem_putObject.mp hmem with heq | hmem
    · -- A name is written once.
      have hnodup := (List.nodup_append.mp hsound.staged.1).1
      obtain rfl := objectKey_inj heq
      exact absurd hother (List.Nodup.not_mem_erase hnodup)
    · exact hobject hmem
  · exact Upload.afterStored_names hsound.staged.1 hname
  · rcases hcases with ⟨hphase, hlast⟩ | hphase | ⟨snapshot, hbefore, hphase⟩
    · rw [hphase]
      exact hlast
    · rw [hphase]
      trivial
    · have hstaged := hsound.staged.2
      rw [hbefore] at hstaged
      rw [hphase]
      intro key hkey
      rw [Upload.afterStored_keys]
      exact List.mem_append_left _ (hstaged key hkey)

theorem effect_refused (hsound : (Task.upload u).Sound s) :
    (Task.upload u).Effect (.upload (u.afterRefused name)) s s := by
  have hnames : (u.pending.erase name ++ u.written).Nodup :=
    hsound.staged.1.sublist ((List.erase_sublist).append_right _)
  by_cases hphase : u.phase = .writing
  · rw [Upload.afterRefused_writing hphase]
    exact effect_abandon hsound rfl rfl (fun _ h => List.mem_of_mem_erase h) hnames
  · rw [Upload.afterRefused_eq hphase]
    refine Effect.same hsound (fun _ h => h) ?_ (fun _ _ h => .inr (.inr h)) hsound.forgets ?_
    · rintro key ⟨other, hother, rfl⟩
      exact ⟨other, List.mem_of_mem_erase hother, rfl⟩
    · refine ⟨hnames, ?_⟩
      have hstaged := hsound.staged.2
      show (match u.phase with
        | .inserting => u.pending.erase name = []
        | .recording snapshot => ∀ key ∈ snapshot, key ∈ u.keys
        | .removing sent => ∀ key, key ∈ sent ↔ key ∈ u.keys
        | _ => True)
      revert hstaged
      cases u.phase with
      | inserting =>
        intro hnone
        show u.pending.erase name = []
        rw [show u.pending = [] from hnone]
        rfl
      | writing | recording _ | removing _ | forgetting _ | done => exact fun h => h

theorem holds_removing {sent : List String} (h : key ∈ u.keys) :
    (Task.upload (u.goTo (.removing sent))).Holds key := by
  refine ⟨h, fun next hphase => ?_, fun hphase => ?_⟩
  · cases hphase
  · cases hphase

/-- A row that is added owns what the upload held. -/
theorem effect_committed {rowId : Uuid} {now : Nat} (hsound : (Task.upload u).Sound s)
    (hphase : u.phase = .inserting) :
    (Task.upload u).Effect (.upload (u.goTo .done)) s (s.createMedia (u.row rowId now)) := by
  have hstaged := hsound.staged.2
  rw [hphase] at hstaged
  have hnone : u.pending = [] := hstaged
  refine ⟨fun _ h => .inl h, fun _ h => .inl h, fun key hnamed => ?_, fun key hnamed => ?_,
    fun _ h => .inl h, fun _ h => h, fun _ h => h, fun key _ h => ?_, ?_, ?_,
    ⟨hsound.staged.1, trivial⟩⟩
  · rcases MediaStore.named_createMedia.mp hnamed with hnew | hold
    · refine .inr (written_keys_row hnew)
    · exact .inl hold
  · exact MediaStore.named_createMedia.mpr (.inr hnamed)
  · rcases h with hholds | ⟨name, hname, -⟩
    · exact .inl (MediaStore.named_createMedia.mpr (.inl (row_keys hholds.1)))
    · rw [hnone] at hname
      cases hname
  · rintro key ⟨-, next, hphase'⟩
    cases hphase'
  · rintro key ⟨name, hname, -⟩
    have hname' : name ∈ u.pending := hname
    rw [hnone] at hname'
    cases hname'

/-- What is recorded was written, and what is still being written is not recorded. -/
theorem effect_recorded {now : Nat} {snapshot : List String} (hsound : (Task.upload u).Sound s)
    (hphase : u.phase = .recording snapshot) :
    (Task.upload u).Effect (.upload (u.goTo (.removing u.keys)))
      s (s.recordOrphans now u.input.id snapshot) := by
  have hstaged := hsound.staged.2
  rw [hphase] at hstaged
  refine ⟨fun key hkey => ?_, fun key hlisted => ?_, fun key hnamed => ?_, fun key hnamed => ?_,
    fun key hlisted => ?_, fun _ h => h, fun _ h => h, fun key hkey h => ?_, ?_, ?_,
    ⟨hsound.staged.1, fun _ => Iff.rfl⟩⟩
  · rw [MediaStore.recordOrphans_objects] at hkey
    exact .inl hkey
  · rcases MediaStore.listed_recordOrphans.mp hlisted with hsnap | hold
    · exact .inr (written_keys (hstaged key hsnap))
    · exact .inl hold
  · exact .inl (MediaStore.named_recordOrphans.mp hnamed)
  · exact MediaStore.named_recordOrphans.mpr hnamed
  · exact .inl (MediaStore.listed_recordOrphans.mpr (.inr hlisted))
  · rw [MediaStore.recordOrphans_objects] at hkey
    rcases h with hholds | hput
    · exact .inr (.inr (holds_removing hholds.1))
    · exact absurd hkey (hsound.puts key hput).1
  · rintro key ⟨-, next, hphase'⟩
    cases hphase'
  · rintro key ⟨name, hname, rfl⟩
    obtain ⟨hobject, hlisted, hnamed⟩ := hsound.puts _ ⟨name, hname, rfl⟩
    rw [MediaStore.recordOrphans_objects, MediaStore.listed_recordOrphans,
      MediaStore.named_recordOrphans]
    refine ⟨hobject, fun h => ?_, hnamed⟩
    rcases h with hsnap | hold
    · exact puts_fresh hsound.staged hname (hstaged _ hsnap)
    · exact hlisted hold

/-- **What a step of an upload** does to everyone. -/
theorem upload_effect {e : UploadEvent} (hsound : (Task.upload u).Sound s)
    (hharmless : u.Harmless s e) (hs : Upload.Stepped u s e u' s') :
    (Task.upload u).Effect (.upload u') s s' := by
  have hputs : ∀ key, (Task.upload u).Puts key → (Task.upload u).Puts key := fun _ h => h
  have hstaged := hsound.staged.2
  cases hs with
  | stored name hname => exact effect_stored hsound hname hharmless
  | refused name hname => exact effect_refused hsound
  | committed rowId now hphase => exact effect_committed hsound hphase
  | insertRefused hphase =>
    exact effect_abandon hsound rfl rfl (fun _ h => h) hsound.staged.1
  | recorded now snapshot hphase => exact effect_recorded hsound hphase
  | recordRefused snapshot hphase =>
    refine Effect.same hsound (fun _ h => h) hputs
      (fun key _ hholds => .inr (.inr (holds_removing hholds.1))) ?_
      ⟨hsound.staged.1, fun _ => Iff.rfl⟩
    · rintro key ⟨-, next, hphase'⟩
      cases hphase'
  | answered answer sent hphase =>
    rw [hphase] at hstaged
    cases answer with
    | results errors =>
      exact Effect.remove hsound (hharmless sent hphase) (fun _ h => h) hputs
        (fun key hholds => (hstaged key).mpr hholds.1) (fun key h => (hstaged key).mpr h.1)
        ⟨hsound.staged.1, trivial⟩
    | failed error =>
      refine Effect.same hsound (fun _ h => h) hputs (fun key hobject hholds => .inr (.inl ?_)) ?_
        ⟨hsound.staged.1, trivial⟩
      -- a request that failed is harmless only with every object on record
      · exact hharmless sent hphase key ((hstaged key).mpr hholds.1) hobject
      · rintro key ⟨-, next, hphase'⟩
        cases hphase'
  | forgot next k hphase hk =>
    have hforgets : ∀ key ∈ u.keys, (Task.upload u).Forgets key := fun _ h => ⟨h, next, hphase⟩
    have hheld : ∀ key, ¬ (Task.upload u).Holds key := fun _ h => h.2.1 next hphase
    have hmem : k ∈ u.keys := List.mem_of_getElem? hk
    rw [Upload.afterForgot]
    split
    · exact Effect.forget hsound (hforgets k hmem) (fun _ h => h) hputs hheld
        (fun key h => hforgets key h.1) ⟨hsound.staged.1, trivial⟩
    · exact Effect.forget hsound (hforgets k hmem) (fun _ h => h) hputs hheld
        (fun key h => hforgets key h.1) ⟨hsound.staged.1, trivial⟩
  | forgetRefused next hphase =>
    refine Effect.same hsound (fun _ h => h) hputs (fun key _ hholds => ?_) ?_
      ⟨hsound.staged.1, trivial⟩
    · exact absurd hphase (hholds.2.1 next)
    · rintro key ⟨-, next, hphase'⟩
      cases hphase'

/-- **What a step of a deletion** does to everyone. -/
theorem deletion_effect {d d' : Deletion} {e : CleanupEvent} (hsound : (Task.deletion d).Sound s)
    (hharmless : (Task.deletion d).Harmless s (.cleanup e)) (h : d.step s e = some (d', s')) :
    (Task.deletion d).Effect (.deletion d') s s' := by
  cases e with
  | answered answer =>
    simp only [Deletion.step] at h
    split at h
    · cases h
      cases answer with
      | results errors =>
        exact Effect.remove hsound hharmless (fun _ h => h) (fun _ h => h) (fun _ h => h.elim)
          (fun _ h => h.1) trivial
      | failed error =>
        refine Effect.same hsound (fun _ h => h) (fun _ h => h) (fun _ _ h => h.elim) ?_ trivial
        rintro key ⟨-, next, hphase⟩
        cases hphase
    · cases h
  | forgot =>
    simp only [Deletion.step] at h
    split at h
    · rename_i next hphase
      obtain ⟨key, hkey, heq⟩ := Option.map_eq_some_iff.mp h
      cases heq
      have hforgets : ∀ key ∈ d.keys, (Task.deletion d).Forgets key := fun _ h => ⟨h, next, hphase⟩
      exact Effect.forget hsound (hforgets key (List.mem_of_getElem? hkey)) (fun _ h => h)
        (fun _ h => h) (fun _ h => h) (fun key h => hforgets key h.1) trivial
    · cases h
  | forgetRefused error =>
    simp only [Deletion.step] at h
    split at h
    · cases h
      refine Effect.same hsound (fun _ h => h) (fun _ h => h) (fun _ _ h => h.elim) ?_ trivial
      rintro key ⟨-, next, hphase⟩
      cases hphase
    · cases h
  | noted | noteRefused => cases h

/-- **What a step of a sweep** does to everyone. -/
theorem sweep_effect {w w' : Sweep} {e : CleanupEvent} (hsound : (Task.sweep w).Sound s)
    (hharmless : (Task.sweep w).Harmless s (.cleanup e)) (h : w.step s e = some (w', s')) :
    (Task.sweep w).Effect (.sweep w') s s' := by
  have hnext : ∀ key ∈ w.keys.tail, key ∈ w.keys := fun _ h => List.mem_of_mem_tail h
  -- A sweep that has not had its answer forgets nothing.
  have hnone : ∀ (w : Sweep) (key : String), w.phase ≠ .forgetting → ¬ (Task.sweep w).Forgets key :=
    fun w key hphase h => hphase h.2
  cases e with
  | answered answer =>
    simp only [Sweep.step] at h
    split at h
    · rename_i key rest hphase hkeys
      cases h
      cases answer with
      | results errors =>
        refine Effect.remove hsound (fun k hk => ?_) (fun _ h => h) (fun _ h => h)
          (fun _ h => h.elim) (fun k h => ?_) trivial
        · obtain rfl := List.mem_singleton.mp hk
          exact hharmless k (by rw [hkeys]; rfl)
        · have hhead : w.keys.head? = some k := h.1
          rw [hkeys] at hhead
          exact List.mem_singleton.mpr (Option.some.inj hhead).symm
      | failed error =>
        exact Effect.same hsound (fun _ h => h) (fun _ h => h) (fun _ _ h => h.elim)
          (fun key h => absurd h (hnone _ key (by rintro ⟨⟩))) trivial
    · cases h
  | forgot =>
    simp only [Sweep.step] at h
    split at h
    · rename_i key rest hphase hkeys
      cases h
      have hhead : (Task.sweep w).Forgets key := ⟨by rw [hkeys]; rfl, hphase⟩
      exact Effect.forget hsound hhead hnext (fun _ h => h) (fun _ h => h)
        (fun key h => absurd h (hnone _ key (by rintro ⟨⟩))) trivial
    · cases h
  | forgetRefused error =>
    simp only [Sweep.step] at h
    split at h
    · cases h
      exact Effect.same hsound (fun _ h => h) (fun _ h => h) (fun _ _ h => h.elim)
        (fun key h => absurd h (hnone _ key (by rintro ⟨⟩))) trivial
    · cases h
  | noted =>
    simp only [Sweep.step] at h
    split at h
    · rename_i error key rest hphase hkeys
      cases h
      refine ⟨fun _ h => .inl h, fun k h => ?_, fun _ h => .inl h, fun _ h => h, fun k h => ?_,
        hnext, fun _ h => h, fun _ _ h => ?_, fun k h => absurd h (hnone _ k (by rintro ⟨⟩)),
        fun _ h => h.elim, trivial⟩
      · exact .inl (MediaStore.listed_recordOrphanFailure.mp h)
      · exact .inl (MediaStore.listed_recordOrphanFailure.mpr h)
      · exact h.elim (fun h => h.elim) fun h => h.elim
    · cases h
  | noteRefused =>
    simp only [Sweep.step] at h
    split at h
    · cases h
      exact Effect.same hsound (fun _ h => by cases h) (fun _ h => h) (fun _ _ h => h.elim)
        (fun key h => absurd h (hnone _ key (by rintro ⟨⟩))) trivial
    · cases h

/-- **What a step of a task** does to everyone. -/
theorem step_effect {e : TaskEvent} (hsound : task.Sound s) (hharmless : task.Harmless s e)
    (h : task.step s e = some (task', s')) : task.Effect task' s s' := by
  cases task with
  | upload u =>
    cases e with
    | upload e =>
      obtain ⟨⟨u', left⟩, hstep, heq⟩ := Option.map_eq_some_iff.mp h
      cases heq
      exact upload_effect hsound hharmless (Upload.step_stepped hstep)
    | cleanup e => cases h
  | deletion d =>
    cases e with
    | upload e => cases h
    | cleanup e =>
      obtain ⟨⟨d', left⟩, hstep, heq⟩ := Option.map_eq_some_iff.mp h
      cases heq
      exact deletion_effect hsound hharmless hstep
  | sweep w =>
    cases e with
    | upload e => cases h
    | cleanup e =>
      obtain ⟨⟨w', left⟩, hstep, heq⟩ := Option.map_eq_some_iff.mp h
      cases heq
      exact sweep_effect hsound hharmless hstep

/-- Only the answer to a request and a write can do harm, and neither forgets a record. -/
theorem harmless_of_forgotten {e : TaskEvent} (h : task.step s e = some (task', s'))
    (hlisted : s.Listed key) (hforgotten : ¬ s'.Listed key) : task.Harmless s e := by
  -- an answer changes objects only
  have hanswer : ∀ asked answer, s' = s.deleteObjects asked answer → False := by
    rintro asked answer rfl
    exact hforgotten
      ((MediaStore.listed_of_orphans (MediaStore.deleteObjects_orphans answer)).mpr hlisted)
  cases task with
  | upload u =>
    cases e with
    | cleanup e => cases h
    | upload e =>
      obtain ⟨⟨u', left⟩, hstep, heq⟩ := Option.map_eq_some_iff.mp h
      cases heq
      cases Upload.step_stepped hstep with
      | stored name _ => exact absurd hlisted hforgotten
      | answered answer sent _ => exact (hanswer sent answer rfl).elim
      | refused | committed | insertRefused | recorded | recordRefused | forgot | forgetRefused =>
        trivial
  | deletion d =>
    cases e with
    | upload e => trivial
    | cleanup e =>
      obtain ⟨⟨d', left⟩, hstep, heq⟩ := Option.map_eq_some_iff.mp h
      cases heq
      cases e with
      | answered answer =>
        simp only [Deletion.step] at hstep
        split at hstep
        · cases hstep
          exact (hanswer _ answer rfl).elim
        · cases hstep
      | forgot | forgetRefused | noted | noteRefused => trivial
  | sweep w =>
    cases e with
    | upload e => trivial
    | cleanup e =>
      obtain ⟨⟨w', left⟩, hstep, heq⟩ := Option.map_eq_some_iff.mp h
      cases heq
      cases e with
      | answered answer =>
        simp only [Sweep.step] at hstep
        split at hstep
        · cases hstep
          exact (hanswer _ answer rfl).elim
        · cases hstep
      | forgot | forgetRefused | noted | noteRefused => trivial

end Effects
end Task

/-! ## What holds of the system -/

/-- Every object is accounted for, by a row, a record or an upload that holds it; and no
task touches what another one is writing. -/
structure MediaSystem.Inv (sys : MediaSystem) : Prop where
  covered : ∀ key ∈ sys.store.objects, isMediaKey key = true →
    sys.store.Named key ∨ sys.store.Listed key ∨ ∃ task ∈ sys.tasks, task.Holds key
  sound : ∀ (i : Nat) (task : Task), sys.tasks[i]? = some task → task.Sound sys.store
  apart : ∀ (i j : Nat) (task other : Task), i ≠ j → sys.tasks[i]? = some task →
    sys.tasks[j]? = some other → ∀ key, task.Puts key → key ∉ other.keys

namespace MediaSystem
section Invariant
variable {sys next : MediaSystem} {i : Nat} {task task' : Task} {s' : MediaStore} {key : String}
  {es : List SystemEvent} {e : SystemEvent}

theorem getElem?_set_cases {α : Type} {l : List α} {i j : Nat} {a b : α}
    (h : (l.set i a)[j]? = some b) : i = j ∧ b = a ∨ i ≠ j ∧ l[j]? = some b := by
  rw [List.getElem?_set] at h
  by_cases hsame : i = j
  · rw [if_pos hsame] at h
    split at h
    · exact .inl ⟨hsame, (Option.some.inj h).symm⟩
    · cases h
  · rw [if_neg hsame] at h
    exact .inr ⟨hsame, h⟩

/-- **A step of one task** keeps the invariant, whatever the others are at. -/
theorem Inv.advance (h : sys.Inv) (htask : sys.tasks[i]? = some task)
    (he : task.Effect task' sys.store s') : Inv ⟨s', sys.tasks.set i task'⟩ := by
  have hsound := h.sound i task htask
  have hlt : i < sys.tasks.length := (List.getElem?_eq_some_iff.mp htask).1
  refine ⟨fun key hobject hmedia => ?_, fun j other hother => ?_,
    fun j k first second hne hfirst hsecond key hput => ?_⟩
  · have hheld : task.Holds key ∨ task.Puts key → s'.Named key ∨ s'.Listed key ∨
        ∃ task ∈ sys.tasks.set i task', task.Holds key := fun hmine =>
      (he.held key hobject hmine).imp_right fun h => h.imp_right fun h =>
        ⟨task', List.mem_set hlt task', h⟩
    rcases he.objects key hobject with hold | hput
    · rcases h.covered key hold hmedia with hnamed | hlisted | ⟨holder, hmem, hholds⟩
      · exact .inl (he.namedKept key hnamed)
      · rcases he.unlisted key hlisted with hlisted | ⟨hforgets, -⟩
        · exact .inr (.inl hlisted)
        · exact absurd hold (hsound.forgets key hforgets)
      · obtain ⟨j, hj⟩ := List.mem_iff_getElem?.mp hmem
        by_cases hsame : i = j
        · subst hsame
          obtain rfl := Option.some.inj (htask.symm.trans hj)
          exact hheld (.inl hholds)
        · have hstays : (sys.tasks.set i task')[j]? = some holder := by
            rw [List.getElem?_set_ne hsame]
            exact hj
          exact .inr (.inr ⟨holder, List.mem_of_getElem? hstays, hholds⟩)
    · exact hheld (.inr hput)
  · rcases getElem?_set_cases hother with ⟨-, rfl⟩ | ⟨hne, hother⟩
    · exact he.sound
    · -- What the task wrote, listed or named is nothing the other one was writing.
      have hsound' := h.sound j other hother
      have hmine : ∀ key, other.Puts key → key ∉ task.keys :=
        h.apart j i other task (Ne.symm hne) hother htask
      refine ⟨fun key hforgets hobject => ?_, fun key hput => ?_, hsound'.staged⟩
      · rcases he.objects key hobject with hold | hput
        · exact hsound'.forgets key hforgets hold
        · exact h.apart i j task other hne htask hother key hput (Task.forgets_keys hforgets)
      · obtain ⟨hobject, hlisted, hnamed⟩ := hsound'.puts key hput
        refine ⟨fun hnow => ?_, fun hnow => ?_, fun hnow => ?_⟩
        · rcases he.objects key hnow with hold | hputs
          · exact hobject hold
          · exact hmine key hput (Task.puts_keys hputs)
        · exact (he.listed key hnow).elim hlisted (hmine key hput)
        · exact (he.named key hnow).elim hnamed (hmine key hput)
  · rcases getElem?_set_cases hfirst with ⟨rfl, rfl⟩ | ⟨-, hother⟩
    · rcases getElem?_set_cases hsecond with ⟨rfl, -⟩ | ⟨-, hother⟩
      · exact absurd rfl hne
      · exact h.apart i k task second hne htask hother key (he.puts key hput)
    · rcases getElem?_set_cases hsecond with ⟨rfl, rfl⟩ | ⟨-, hother'⟩
      · exact fun hkey => h.apart j i first task hne hother htask key hput (he.keys key hkey)
      · exact h.apart j k first second hne hother hother' key hput

/-- A new task joins the others without harm to the invariant. -/
theorem Inv.spawn (h : sys.Inv) (hobjects : s'.objects = sys.store.objects)
    (hcovers : ∀ key, sys.store.Named key ∨ sys.store.Listed key → s'.Named key ∨ s'.Listed key)
    (hkept : ∀ key, s'.Named key ∨ s'.Listed key → sys.store.Named key ∨ sys.store.Listed key)
    (hsound : task.Sound s') (hputs : ∀ key, task.Puts key → ¬ sys.Mentions key)
    (hkeys : ∀ key ∈ task.keys, sys.store.Named key ∨ sys.store.Listed key ∨ ¬ sys.Mentions key) :
    (sys.spawn s' task).Inv := by
  have hsplit : ∀ {j : Nat} {other : Task}, (sys.tasks ++ [task])[j]? = some other →
      sys.tasks[j]? = some other ∨ j = sys.tasks.length ∧ other = task := by
    intro j other hj
    rcases Nat.lt_or_ge j sys.tasks.length with hlt | hge
    · rw [List.getElem?_append_left hlt] at hj
      exact .inl hj
    · rw [List.getElem?_append_right hge, List.getElem?_singleton] at hj
      split at hj
      · exact .inr ⟨by omega, (Option.some.inj hj).symm⟩
      · cases hj
  refine ⟨fun key hobject hmedia => ?_, fun j other hother => ?_,
    fun j k first second hne hfirst hsecond key hput hkey => ?_⟩
  · have hobject' : key ∈ sys.store.objects := hobjects ▸ hobject
    rcases h.covered key hobject' hmedia with hnamed | hlisted | ⟨holder, hmem, hholds⟩
    · exact (hcovers key (.inl hnamed)).imp_right .inl
    · exact (hcovers key (.inr hlisted)).imp_right .inl
    · exact .inr (.inr ⟨holder, List.mem_append_left _ hmem, hholds⟩)
  · rcases hsplit hother with hother | ⟨-, rfl⟩
    · have hsound' := h.sound j other hother
      refine ⟨fun key hforgets hobject => ?_, fun key hput => ?_, hsound'.staged⟩
      · exact hsound'.forgets key hforgets (hobjects ▸ hobject)
      · obtain ⟨hobject, hlisted, hnamed⟩ := hsound'.puts key hput
        have hnone : ¬ (s'.Named key ∨ s'.Listed key) := fun h =>
          (hkept key h).elim hnamed hlisted
        exact ⟨hobjects ▸ hobject, fun h => hnone (.inr h), fun h => hnone (.inl h)⟩
    · exact hsound
  · rcases hsplit hfirst with hold | ⟨rfl, rfl⟩
    · rcases hsplit hsecond with hold' | ⟨rfl, rfl⟩
      · exact h.apart j k first second hne hold hold' key hput hkey
      -- what an older task is still to put is neither named nor listed, and is mentioned
      · obtain ⟨-, hlisted, hnamed⟩ := (h.sound j first hold).puts key hput
        rcases hkeys key hkey with h | h | h
        · exact hnamed h
        · exact hlisted h
        · exact h (.inr (.inr (.inr ⟨first, List.mem_of_getElem? hold, Task.puts_keys hput⟩)))
    · rcases hsplit hsecond with hold | ⟨rfl, -⟩
      · exact hputs key hput (.inr (.inr (.inr ⟨second, List.mem_of_getElem? hold, hkey⟩)))
      · exact hne rfl

/-- What a new upload writes is mentioned nowhere. -/
theorem fresh_input {input : UploadInput}
    (hfresh : ∀ name ∈ renditionNames, ¬ sys.Mentions (objectKey input.id name)) :
    ∀ key ∈ (Task.upload (Upload.start input)).keys, ¬ sys.Mentions key := by
  intro key hkey
  obtain ⟨name, hname, rfl⟩ := List.mem_map.mp hkey
  exact hfresh name hname

/-- **A step of the system** keeps the invariant. -/
theorem Inv.step (h : sys.Inv) (hharmless : sys.Harmless e) (hstep : sys.step e = some next) :
    next.Inv := by
  cases e with
  | startUpload input =>
    simp only [MediaSystem.step] at hstep
    split at hstep
    · rename_i hfresh
      cases hstep
      have hnew := fresh_input hfresh
      have hputs : ∀ key, (Task.upload (Upload.start input)).Puts key → ¬ sys.Mentions key :=
        fun key hput => hnew key (Task.puts_keys hput)
      refine h.spawn rfl (fun _ h => h) (fun _ h => h) ⟨?_, fun key hput => ?_, ?_, trivial⟩ hputs
        fun key hkey => .inr (.inr (hnew key hkey))
      · rintro key ⟨-, n, hphase⟩
        cases hphase
      · exact ⟨fun h => hputs key hput (.inl h), fun h => hputs key hput (.inr (.inl h)),
          fun h => hputs key hput (.inr (.inr (.inl h)))⟩
      · show (renditionNames ++ []).Nodup
        decide
    · cases hstep
  | startDeletion id now =>
    simp only [MediaSystem.step] at hstep
    split at hstep
    · rename_i row left hdelete
      cases hstep
      obtain ⟨hrow, hobjects, hlisted, hrows, hrows'⟩ := MediaStore.deleteMediaRow_some hdelete
      refine h.spawn hobjects (fun key hkey => ?_) (fun key hkey => ?_)
        ⟨?_, fun _ h => h.elim, trivial⟩ (fun _ h => h.elim) fun key hkey => .inl ⟨row, hrow, hkey⟩
      -- the objects of the row that goes are listed as it goes
      · rcases hkey with ⟨other, hother, hkey⟩ | hkey
        · rcases hrows' other hother with rfl | hstays
          · exact .inr ((hlisted key).mpr (.inl hkey))
          · exact .inl ⟨other, hstays, hkey⟩
        · exact .inr ((hlisted key).mpr (.inr hkey))
      · rcases hkey with ⟨other, hother, hkey⟩ | hkey
        · exact .inl ⟨other, hrows other hother, hkey⟩
        · exact ((hlisted key).mp hkey).imp_left fun h => ⟨row, hrow, h⟩
      · rintro key ⟨-, n, hphase⟩
        cases hphase
    · cases hstep
  | startSweep =>
    cases hstep
    refine h.spawn rfl (fun _ h => h) (fun _ h => h) ⟨?_, fun _ h => h.elim, trivial⟩
      (fun _ h => h.elim) fun key hkey => .inr (.inl ?_)
    · rintro key ⟨-, hphase⟩
      cases hphase
    -- a sweep takes what is on record
    · obtain ⟨orphan, horphan, rfl⟩ := List.mem_map.mp hkey
      exact MediaStore.mem_listOrphans horphan
  | advance i e =>
    obtain ⟨task, htask, hstep⟩ := Option.bind_eq_some_iff.mp hstep
    obtain ⟨⟨task', s'⟩, htaskStep, rfl⟩ := Option.map_eq_some_iff.mp hstep
    exact h.advance htask
      (Task.step_effect (h.sound i task htask) (hharmless task htask) htaskStep)

/-- **A record is forgotten once its object is gone.** -/
theorem Inv.forgotten (h : sys.Inv) (hstep : sys.step e = some next)
    (hlisted : sys.store.Listed key) (hforgotten : ¬ next.store.Listed key) :
    key ∉ next.store.objects := by
  cases e with
  | startUpload input =>
    simp only [MediaSystem.step] at hstep
    split at hstep
    · cases hstep
      exact absurd hlisted hforgotten
    · cases hstep
  | startDeletion id now =>
    simp only [MediaSystem.step] at hstep
    split at hstep
    · rename_i row left hdelete
      cases hstep
      obtain ⟨-, -, hall, -⟩ := MediaStore.deleteMediaRow_some hdelete
      exact absurd ((hall key).mpr (.inr hlisted)) hforgotten
    · cases hstep
  | startSweep =>
    cases hstep
    exact absurd hlisted hforgotten
  | advance i e =>
    obtain ⟨task, htask, hstep⟩ := Option.bind_eq_some_iff.mp hstep
    obtain ⟨⟨task', s'⟩, htaskStep, rfl⟩ := Option.map_eq_some_iff.mp hstep
    have hsound := h.sound i task htask
    have hharmless := Task.harmless_of_forgotten htaskStep hlisted hforgotten
    have heffect := Task.step_effect hsound hharmless htaskStep
    obtain ⟨hforgets, hobjects⟩ := (heffect.unlisted key hlisted).resolve_left hforgotten
    intro hobject
    exact hsound.forgets key hforgets (hobjects ▸ hobject)

/-- Where no upload is in progress, rows and records are all there is. -/
theorem Inv.allNamed (h : sys.Inv) (hnone : sys.NoUpload) : sys.store.AllNamed := by
  intro key hobject hmedia
  rcases h.covered key hobject hmedia with hnamed | hlisted | ⟨task, hmem, hholds⟩
  · exact .inl hnamed
  · exact .inr hlisted
  · cases task with
    | upload u => exact absurd (hnone u hmem).1 hholds.2.2
    | deletion d => exact hholds.elim
    | sweep w => exact hholds.elim

theorem inv_start {s : MediaStore} (h : s.AllNamed) : Inv ⟨s, []⟩ where
  covered key hobject hmedia := (h key hobject hmedia).imp_right .inl
  sound _ _ h := by cases h
  apart _ _ _ _ _ h := by cases h

theorem Inv.run (h : sys.Inv) (hall : sys.AllHarmless es) (hrun : sys.run es = some next) :
    next.Inv := by
  induction es generalizing sys with
  | nil => cases hrun; exact h
  | cons e es ih =>
    obtain ⟨mid, hstep, hrest⟩ := Option.bind_eq_some_iff.mp hrun
    exact ih (h.step hall.1 hstep) (hall.2 mid hstep) hrest

end Invariant
end MediaSystem

/-! ## Records and objects -/

/-- What is asked of the records in a state of the system: the next step, if it forgets one,
does so after its object; and with no upload in progress each object is accounted for. -/
structure OrphansKept (sys : MediaSystem) : Prop where
  forgotten : ∀ e next, sys.step e = some next → ∀ key,
    sys.store.Listed key → ¬ next.store.Listed key → key ∉ next.store.objects
  allNamed : sys.NoUpload → sys.store.AllNamed

/-- **Orphans.**  In every run whose answers deleted what they were asked to, and whose
uploads were not surprised by a late write, a record is forgotten once its object is
gone, and every object is named by a row or a record. -/
theorem orphans_kept {found : MediaStore} {es : List SystemEvent} {sys : MediaSystem}
    (hstart : found.AllNamed) (hall : MediaSystem.AllHarmless ⟨found, []⟩ es)
    (hrun : MediaSystem.run ⟨found, []⟩ es = some sys) : OrphansKept sys := by
  have hinv := (MediaSystem.inv_start hstart).run hall hrun
  exact ⟨fun e next hstep key hlisted hgone => hinv.forgotten hstep hlisted hgone, hinv.allNamed⟩

/-! ### The deletion of an asset -/

/-- An asset with two objects. -/
def photoRow : MediaRecord where
  id := 7
  storageKey := "media/photo.avif"
  mimeType := "image/avif"
  width := some 800
  height := some 600
  alt := []
  uploadedById := none
  byteSize := 1000
  «meta» := ⟨some [("avif", ⟨"media/photo.avif", "image/avif", 1000⟩),
    ("webp", ⟨"media/photo.webp", "image/webp", 1000⟩)], some "photo.jpg"⟩
  createdAt := 0

def photoStore : MediaStore := ⟨[photoRow], [], ["media/photo.avif", "media/photo.webp"]⟩

/-- The asset with two objects is deleted, and the answer reports these errors. -/
def photoDeleted (errors : List String) : List SystemEvent :=
  [.startDeletion 7 0, .advance 0 (.cleanup (.answered (.results errors))),
    .advance 0 (.cleanup .forgot)]

theorem photoRow_keys : storageKeysOf photoRow = ["media/photo.avif", "media/photo.webp"] := by
  decide +kernel

theorem photoStore_allNamed : photoStore.AllNamed := fun key hobject _ =>
  .inl ⟨photoRow, List.mem_cons_self, by rw [photoRow_keys]; exact hobject⟩

/-- The first of the two records is forgotten, and the other is next. -/
def recordLeft (objects : List String) : MediaSystem :=
  ⟨⟨[], [⟨"media/photo.webp", 7, 0, none, 0⟩], objects⟩,
    [.deletion ⟨["media/photo.avif", "media/photo.webp"], .forgetting 1⟩]⟩

theorem orphans_kept_photo : OrphansKept (recordLeft []) := by
  have hall : MediaSystem.AllHarmless ⟨photoStore, []⟩ (photoDeleted []) := by
    refine ⟨trivial, fun next hnext => ⟨fun task htask => ?_, fun _ _ => ⟨fun task _ => ?_, ?_⟩⟩⟩
    · obtain rfl := Option.some.inj hnext
      obtain rfl := Option.some.inj htask
      exact fun _ _ => List.not_mem_nil
    · cases task with
      | upload u => trivial
      | deletion d => trivial
      | sweep w => trivial
    · exact fun _ _ => trivial
  exact orphans_kept photoStore_allNamed hall rfl

/-- **An error in a batch** is taken for a deletion: the object is there, and neither a row
nor a record names it. -/
theorem error_in_a_batch :
    photoStore.AllNamed ∧
    MediaSystem.run ⟨photoStore, []⟩ (photoDeleted ["media/photo.webp"]) =
      some (recordLeft ["media/photo.webp"]) ∧
    ¬ OrphansKept (recordLeft ["media/photo.webp"]) ∧
    ∃ next, (recordLeft ["media/photo.webp"]).step (.advance 0 (.cleanup .forgot)) = some next ∧
      next.NoUpload ∧ "media/photo.webp" ∈ next.store.objects ∧ ¬ next.store.AllNamed := by
  have hstep : (recordLeft ["media/photo.webp"]).step (.advance 0 (.cleanup .forgot)) =
      some ⟨⟨[], [], ["media/photo.webp"]⟩,
        [.deletion ⟨["media/photo.avif", "media/photo.webp"], .forgetting 2⟩]⟩ := rfl
  have hlisted : (recordLeft ["media/photo.webp"]).store.Listed "media/photo.webp" :=
    ⟨_, List.mem_cons_self, rfl⟩
  refine ⟨photoStore_allNamed, rfl, fun hkept => ?_, _, hstep, fun u hu => ?_,
    List.mem_cons_self, fun hnamed => ?_⟩
  · refine hkept.forgotten _ _ hstep "media/photo.webp" hlisted ?_ List.mem_cons_self
    rintro ⟨orphan, horphan, -⟩
    cases horphan
  · cases List.mem_singleton.mp hu
  · rcases hnamed "media/photo.webp" List.mem_cons_self (by decide +kernel) with
      ⟨row, hrow, -⟩ | ⟨orphan, horphan, -⟩
    · cases hrow
    · cases horphan

end PressLabz
