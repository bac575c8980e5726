import PressLabz.Database

/-! # Where media lives

An asset is a row of `media` and the objects that the row names, in two systems
that cannot share a transaction.  This is what both can be asked for: the
repository `media.ts` of `packages/db`, with the table `media_orphans` of the objects
that have lost their row, and `putObject` and `deleteObjects` of `storage.ts`.

The bucket is kept as the keys that are in it.  A `DeleteObjects` request is
answered with 200 and a result per key, or fails as a whole; the code reads nothing
of the answer but that.
-/
namespace PressLabz

/-! ## Rows -/

structure Rendition where
  key : String
  contentType : String
  byteSize : Nat
  deriving DecidableEq

structure MediaMeta where
  /-- By the name of the encoding. -/
  renditions : Option (List (String × Rendition))
  originalName : Option String
  deriving DecidableEq

/-- A row of `media`: what a page reads of it, and the rest. -/
structure MediaRecord extends MediaRow where
  byteSize : Nat
  «meta» : MediaMeta
  /-- Microseconds, as the database keeps it. -/
  createdAt : Nat
  deriving DecidableEq

/-- Every object key an asset owns, primary rendition included. -/
def storageKeysOf (row : MediaRecord) : List String :=
  (row.storageKey :: (row.meta.renditions.getD []).map (·.2.key)).eraseDups

structure MediaOrphanRow where
  storageKey : String
  mediaId : Uuid
  attempts : Nat
  lastError : Option String
  createdAt : Nat
  deriving DecidableEq

theorem mem_storageKeysOf {row : MediaRecord} {key : String} : key ∈ storageKeysOf row ↔
    key = row.storageKey ∨ ∃ rendition ∈ row.meta.renditions.getD [], rendition.2.key = key := by
  rw [storageKeysOf, List.mem_eraseDups, List.mem_cons, List.mem_map]

/-! ## The two systems -/

/-- The tables of media, and the bucket. -/
structure MediaStore where
  rows : List MediaRecord
  orphans : List MediaOrphanRow
  objects : List String

/-- What comes of a `DeleteObjects` request: the keys that its 200 reports as errors, or
the error it fails with. -/
inductive DeleteAnswer where
  | results (errors : List String)
  | failed (error : String)
  deriving DecidableEq

namespace MediaStore
variable (s : MediaStore) (key : String)

/-- A row owns the object. -/
def Named : Prop := ∃ row ∈ s.rows, key ∈ storageKeysOf row

/-- An orphan record lists the object. -/
def Listed : Prop := ∃ orphan ∈ s.orphans, orphan.storageKey = key

instance : Decidable (s.Named key) := inferInstanceAs (Decidable (∃ row ∈ s.rows, _))

instance : Decidable (s.Listed key) := inferInstanceAs (Decidable (∃ orphan ∈ s.orphans, _))

/-- The insert of `createMedia`. -/
def createMedia (row : MediaRecord) : MediaStore := { s with rows := row :: s.rows }

/-- One value of the insert: nothing for a key that is listed already. -/
def recordOrphan (now : Nat) (mediaId : Uuid) : MediaStore :=
  if s.Listed key then s
  else { s with orphans := s.orphans ++ [⟨key, mediaId, 0, none, now⟩] }

def recordOrphans (now : Nat) (mediaId : Uuid) (keys : List String) : MediaStore :=
  keys.foldl (fun s key => s.recordOrphan key now mediaId) s

def forgetOrphan : MediaStore :=
  { s with orphans := s.orphans.filter fun orphan => orphan.storageKey ≠ key }

/-- The reason is cut to 500 characters. -/
def recordOrphanFailure (reason : String) : MediaStore :=
  { s with orphans := s.orphans.map fun orphan =>
      if orphan.storageKey = key then
        { orphan with
          attempts := orphan.attempts + 1
          lastError := some (String.ofList (reason.toList.take 500)) }
      else orphan }

/-- The oldest orphans. -/
def listOrphans (limit : Nat) : List MediaOrphanRow :=
  (s.orphans.insertionSort fun a b => a.createdAt ≤ b.createdAt).take (min 500 (max 1 limit))

/-- The transaction of `deleteMediaRow`: the row goes, the one of its primary key, and what
it named is listed. -/
def deleteMediaRow (now : Nat) (id : Uuid) : Option MediaRecord × MediaStore :=
  match s.rows.find? fun row => row.id = id with
  | none => (none, s)
  | some row =>
    (some row, recordOrphans { s with rows := s.rows.eraseP fun row => row.id = id } now row.id
      (storageKeysOf row))

def putObject : MediaStore := { s with objects := key :: s.objects }

/-- What the bucket makes of a request. -/
def deleteObjects (keys : List String) : DeleteAnswer → MediaStore
  | .results errors => { s with objects := s.objects.filter fun key => key ∉ keys ∨ key ∈ errors }
  | .failed _ => s

end MediaStore

/-! ## What each of them changes -/

namespace MediaStore
variable {s : MediaStore} {key k : String} {keys : List String} {now : Nat} {mediaId : Uuid}
  {row : MediaRecord}

theorem named_of_rows {s' : MediaStore} (hrows : s'.rows = s.rows) :
    s'.Named key ↔ s.Named key := by
  rw [Named, hrows]
  rfl

theorem listed_of_orphans {s' : MediaStore} (horphans : s'.orphans = s.orphans) :
    s'.Listed key ↔ s.Listed key := by
  rw [Listed, horphans]
  rfl

@[simp] theorem listed_createMedia : (s.createMedia row).Listed key ↔ s.Listed key := Iff.rfl

theorem named_createMedia : (s.createMedia row).Named key ↔
    key ∈ storageKeysOf row ∨ s.Named key := by
  simp [Named, createMedia]

theorem recordOrphan_objects : (s.recordOrphan key now mediaId).objects = s.objects := by
  rw [recordOrphan]
  split
  · rfl
  · rfl

theorem recordOrphan_rows : (s.recordOrphan key now mediaId).rows = s.rows := by
  rw [recordOrphan]
  split
  · rfl
  · rfl

theorem listed_recordOrphan :
    (s.recordOrphan k now mediaId).Listed key ↔ key = k ∨ s.Listed key := by
  rw [recordOrphan]
  split
  · rename_i hlisted
    refine ⟨.inr, ?_⟩
    rintro (rfl | h)
    · exact hlisted
    · exact h
  · simp [Listed, or_comm, eq_comm]

@[simp] theorem recordOrphans_objects : (s.recordOrphans now mediaId keys).objects = s.objects := by
  induction keys generalizing s with
  | nil => rfl
  | cons k rest ih => exact ih.trans recordOrphan_objects

@[simp] theorem recordOrphans_rows : (s.recordOrphans now mediaId keys).rows = s.rows := by
  induction keys generalizing s with
  | nil => rfl
  | cons k rest ih => exact ih.trans recordOrphan_rows

/-- **Whatever is recorded is listed**, on top of what was. -/
@[simp] theorem listed_recordOrphans :
    (s.recordOrphans now mediaId keys).Listed key ↔ key ∈ keys ∨ s.Listed key := by
  induction keys generalizing s with
  | nil => simp [recordOrphans]
  | cons k rest ih =>
    show (recordOrphans _ now mediaId rest).Listed key ↔ _
    rw [ih, listed_recordOrphan, List.mem_cons]
    tauto

@[simp] theorem named_recordOrphans :
    (s.recordOrphans now mediaId keys).Named key ↔ s.Named key :=
  named_of_rows recordOrphans_rows

@[simp] theorem listed_forgetOrphan :
    (s.forgetOrphan k).Listed key ↔ s.Listed key ∧ key ≠ k := by
  simp only [Listed, forgetOrphan, List.mem_filter, decide_eq_true_eq]
  constructor
  · rintro ⟨orphan, ⟨hmem, hne⟩, rfl⟩
    exact ⟨⟨orphan, hmem, rfl⟩, hne⟩
  · rintro ⟨⟨orphan, hmem, rfl⟩, hne⟩
    exact ⟨orphan, ⟨hmem, hne⟩, rfl⟩

/-- A failure is noted on the record, which stays. -/
@[simp] theorem listed_recordOrphanFailure {reason : String} :
    (s.recordOrphanFailure k reason).Listed key ↔ s.Listed key := by
  have hkey : ∀ orphan : MediaOrphanRow, (if orphan.storageKey = k then
      { orphan with
        attempts := orphan.attempts + 1
        lastError := some (String.ofList (reason.toList.take 500)) }
      else orphan).storageKey = orphan.storageKey := by
    intro orphan
    split
    · rfl
    · rfl
  simp only [Listed, recordOrphanFailure, List.mem_map, exists_exists_and_eq_and, hkey]

theorem mem_listOrphans {limit : Nat} {orphan : MediaOrphanRow} (h : orphan ∈ s.listOrphans limit) :
    s.Listed orphan.storageKey :=
  ⟨orphan, (List.mem_insertionSort _).mp (List.mem_of_mem_take h), rfl⟩

@[simp] theorem mem_putObject : key ∈ (s.putObject k).objects ↔ key = k ∨ key ∈ s.objects :=
  List.mem_cons

@[simp] theorem listed_putObject : (s.putObject k).Listed key ↔ s.Listed key := Iff.rfl

theorem deleteObjects_orphans (answer : DeleteAnswer) :
    (s.deleteObjects keys answer).orphans = s.orphans := by
  cases answer with
  | results errors => rfl
  | failed error => rfl

theorem mem_deleteObjects {errors : List String} :
    key ∈ (s.deleteObjects keys (.results errors)).objects ↔
      key ∈ s.objects ∧ (key ∉ keys ∨ key ∈ errors) := by
  simp [deleteObjects]

/-- **The deletion of a row** lists what the row named, and nothing else changes. -/
theorem deleteMediaRow_some {id : Uuid} {left : MediaStore}
    (h : s.deleteMediaRow now id = (some row, left)) :
    row ∈ s.rows ∧ left.objects = s.objects ∧
      (∀ key, left.Listed key ↔ key ∈ storageKeysOf row ∨ s.Listed key) ∧
      (∀ other ∈ left.rows, other ∈ s.rows) ∧ ∀ other ∈ s.rows, other = row ∨ other ∈ left.rows := by
  rw [deleteMediaRow] at h
  split at h
  · cases h
  · rename_i found hfound
    cases h
    have hmem := List.mem_of_find?_eq_some hfound
    refine ⟨hmem, recordOrphans_objects, fun key => listed_recordOrphans, fun other hother => ?_,
      fun other hother => ?_⟩
    · rw [recordOrphans_rows] at hother
      exact List.mem_of_mem_eraseP hother
    · rw [recordOrphans_rows]
      -- The row that goes is the first of the id, which is the one that was found.
      obtain ⟨-, init, rest, hrows, hinit⟩ := List.find?_eq_some_iff_append.mp hfound
      have hid : row.id = id := by simpa using List.find?_some hfound
      have herase : s.rows.eraseP (fun row => row.id = id) = init ++ rest := by
        rw [hrows, List.eraseP_append_right,
          List.eraseP_cons_of_pos (p := fun row : MediaRecord => decide (row.id = id))
            (decide_eq_true hid)]
        exact fun row hrow => by simpa using hinit row hrow
      rw [herase]
      rw [hrows] at hother
      rcases List.mem_append.mp hother with hother | hother
      · exact .inr (List.mem_append_left _ hother)
      · rcases List.mem_cons.mp hother with rfl | hother
        · exact .inl rfl
        · exact .inr (List.mem_append_right _ hother)

end MediaStore
end PressLabz
