import Mathlib.Data.List.Basic
import PressLabz.ContentTypes
import PressLabz.Forest
import PressLabz.RowLocks
import PressLabz.Rows

/-! # The database

The tables of `packages/db/src/schema` that content lives in, with their
constraints, and the statements the repository issues on them.

The database names new rows by random uuids, and this development assumes that it
never hands out one twice.  `retired` remembers the ids of deleted documents for
that one purpose.

Times in a timestamp column are microseconds; `publishedAt` is only ever written
from a millisecond date and is kept in milliseconds.
-/
namespace PressLabz

/-- What `toColumns` writes: the editorial fields. -/
structure Columns where
  slug : String
  title : String
  excerpt : Option String
  status : ContentStatus
  blocks : Blocks
  «meta» : Meta
  publishedAt : Option Nat
  parentId : Option Uuid

/-- `contents`. -/
structure ContentRow extends Columns where
  id : Uuid
  type : String
  locale : String
  translationGroupId : Uuid
  authorId : Option Uuid
  version : Nat
  createdAt : Nat
  updatedAt : Nat

/-- `content_revisions`: a document as it was. -/
structure ContentRevisionRow extends Columns where
  id : Uuid
  contentId : Uuid
  authorId : Option Uuid
  version : Nat
  createdAt : Nat

/-- `translation_groups`. -/
structure TranslationGroupRow where
  id : Uuid
  type : String
  deriving DecidableEq

/-- `content_media`. -/
structure ContentMediaRow where
  contentId : Uuid
  mediaId : Uuid
  source : MediaSource
  deriving DecidableEq

/-- `media`, as far as a page shows it and an event names it. -/
structure MediaRow where
  id : Uuid
  storageKey : String
  mimeType : String
  width : Option Nat
  height : Option Nat
  alt : List (String × String)
  uploadedById : Option Uuid
  deriving DecidableEq

structure Database where
  contents : List ContentRow
  groups : List TranslationGroupRow
  revisions : List ContentRevisionRow
  contentMedia : List ContentMediaRow
  «media» : List MediaRow
  retired : List Uuid

/-- The rows the writers lock. -/
inductive RowKey where
  | group (id : Uuid)
  | doc (id : Uuid)
  deriving DecidableEq

/-- What an update of a document sets; the other columns stay. -/
structure RowWrite where
  columns : Columns
  updatedAt : Nat
  version : Nat

/-- The row with a write applied. -/
def ContentRow.put (r : ContentRow) (w : RowWrite) : ContentRow :=
  { r with toColumns := w.columns, updatedAt := w.updatedAt, version := w.version }

/-- How much history a document keeps. -/
def REVISION_LIMIT : Nat := 50

namespace Database

/-- A database with no content in it. -/
def empty («media» : List MediaRow) : Database := ⟨[], [], [], [], «media», []⟩

variable (db : Database)

/-! ## Look-ups -/

def content (id : Uuid) : Option ContentRow := Rows.find ContentRow.id db.contents id

def group (id : Uuid) : Option TranslationGroupRow :=
  Rows.find TranslationGroupRow.id db.groups id

def revisionsOf (id : Uuid) : List ContentRevisionRow :=
  db.revisions.filter fun v => v.contentId = id

def mediaOf (id : Uuid) : List ContentMediaRow := db.contentMedia.filter fun m => m.contentId = id

def membersOf (groupId : Uuid) : List ContentRow :=
  db.contents.filter fun r => r.translationGroupId = groupId

def childrenOf (id : Uuid) : List Uuid :=
  (db.contents.filter fun r => r.parentId = some id).map (·.id)

/-- The parent pointers. -/
def parents : Forest.Parents Uuid := fun id => (db.content id).map (·.parentId)

/-! ## Statements -/

def insertGroup (g : TranslationGroupRow) : Database := { db with groups := g :: db.groups }

def deleteGroup (id : Uuid) : Database :=
  { db with groups := db.groups.filter fun g => g.id ≠ id }

def insertContent (r : ContentRow) : Database := { db with contents := r :: db.contents }

def setContent (id : Uuid) (w : ContentRow → RowWrite) : Database :=
  { db with contents := db.contents.map fun r => if r.id = id then r.put (w r) else r }

/-- `delete from contents`, with what cascades. -/
def deleteContent (id : Uuid) : Database :=
  { db with
    contents := db.contents.filter fun r => r.id ≠ id
    revisions := db.revisions.filter fun v => v.contentId ≠ id
    contentMedia := db.contentMedia.filter fun m => m.contentId ≠ id
    retired := id :: db.retired }

def insertRevision (v : ContentRevisionRow) : Database :=
  { db with revisions := v :: db.revisions }

/-- `order by created_at desc, version desc`. -/
def newerRevision (a b : ContentRevisionRow) : Bool :=
  if a.createdAt ≠ b.createdAt then decide (b.createdAt < a.createdAt)
  else decide (b.version ≤ a.version)

/-- The revisions a prune keeps. -/
def keptRevisions (revisions : List ContentRevisionRow) : List ContentRevisionRow :=
  (revisions.insertionSort (newerRevision · ·)).take REVISION_LIMIT

def pruneRevisions (id : Uuid) : Database :=
  { db with
    revisions := db.revisions.filter fun v =>
      ¬ (v.contentId = id ∧ v.id ∉ (keptRevisions (db.revisionsOf id)).map (·.id)) }

/-- The statements of `syncMediaReferences`: one delete for each row that goes,
one insert for each that comes. -/
def syncMedia (gone added : List ContentMediaRow) : Database :=
  { db with
    contentMedia := added.reverse ++ db.contentMedia.filter fun m => m ∉ gone }

/-! ## Constraints -/

/-- What the schema checks. -/
structure Constraints : Prop where
  contents_pkey : (db.contents.map ContentRow.id).Nodup
  contents_type_locale_slug_uq : db.contents.Pairwise fun a b =>
    ¬ (a.type = b.type ∧ a.locale = b.locale ∧ a.slug = b.slug)
  contents_group_locale_uq : db.contents.Pairwise fun a b =>
    ¬ (a.translationGroupId = b.translationGroupId ∧ a.locale = b.locale)
  contents_translation_group_fk : ∀ r ∈ db.contents, ∃ g ∈ db.groups,
    g.id = r.translationGroupId ∧ g.type = r.type
  contents_parent_fk : ∀ r ∈ db.contents, ∀ p ∈ r.parentId, ∃ q ∈ db.contents,
    q.id = p ∧ q.type = r.type ∧ q.locale = r.locale
  contents_parent_not_self : ∀ r ∈ db.contents, r.parentId ≠ some r.id
  translation_groups_pkey : (db.groups.map TranslationGroupRow.id).Nodup
  content_revisions_pkey : (db.revisions.map ContentRevisionRow.id).Nodup
  content_revisions_content_fk : ∀ v ∈ db.revisions, ∃ r ∈ db.contents, r.id = v.contentId
  content_media_pkey : db.contentMedia.Nodup
  content_media_content_fk : ∀ m ∈ db.contentMedia, ∃ r ∈ db.contents, r.id = m.contentId
  content_media_media_fk : ∀ m ∈ db.contentMedia, ∃ a ∈ db.media, a.id = m.mediaId
  /-- No id is handed out twice. -/
  fresh : ∀ r ∈ db.contents, r.id ∉ db.retired

instance : Decidable db.Constraints :=
  decidable_of_iff
    ((db.contents.map ContentRow.id).Nodup ∧
      (db.contents.Pairwise fun a b =>
        ¬ (a.type = b.type ∧ a.locale = b.locale ∧ a.slug = b.slug)) ∧
      (db.contents.Pairwise fun a b =>
        ¬ (a.translationGroupId = b.translationGroupId ∧ a.locale = b.locale)) ∧
      (∀ r ∈ db.contents, ∃ g ∈ db.groups, g.id = r.translationGroupId ∧ g.type = r.type) ∧
      (∀ r ∈ db.contents, ∀ p ∈ r.parentId, ∃ q ∈ db.contents,
        q.id = p ∧ q.type = r.type ∧ q.locale = r.locale) ∧
      (∀ r ∈ db.contents, r.parentId ≠ some r.id) ∧
      (db.groups.map TranslationGroupRow.id).Nodup ∧
      (db.revisions.map ContentRevisionRow.id).Nodup ∧
      (∀ v ∈ db.revisions, ∃ r ∈ db.contents, r.id = v.contentId) ∧
      db.contentMedia.Nodup ∧
      (∀ m ∈ db.contentMedia, ∃ r ∈ db.contents, r.id = m.contentId) ∧
      (∀ m ∈ db.contentMedia, ∃ a ∈ db.media, a.id = m.mediaId) ∧
      ∀ r ∈ db.contents, r.id ∉ db.retired)
    ⟨fun ⟨h1, h2, h3, h4, h5, h6, h7, h8, h9, h10, h11, h12, h13⟩ =>
        ⟨h1, h2, h3, h4, h5, h6, h7, h8, h9, h10, h11, h12, h13⟩,
      fun ⟨h1, h2, h3, h4, h5, h6, h7, h8, h9, h10, h11, h12, h13⟩ =>
        ⟨h1, h2, h3, h4, h5, h6, h7, h8, h9, h10, h11, h12, h13⟩⟩

/-- A row of a key is there to be locked. -/
def present : RowKey → Bool
  | .group id => (db.group id).isSome
  | .doc id => (db.content id).isSome

end Database

/-- What the locks and the commits of this database know. -/
def engine : RowLocks.Engine Database RowKey where
  present := Database.present
  valid db := decide db.Constraints

theorem engine_valid {db : Database} (h : engine.valid db = true) : db.Constraints :=
  of_decide_eq_true h

/-! ## What the statements do to the look-ups -/

namespace Database
variable {db : Database} {id j : Uuid}

@[simp] theorem put_id (r : ContentRow) (w : RowWrite) : (r.put w).id = r.id := rfl

theorem content_of_mem (h : db.Constraints) {r : ContentRow} (hr : r ∈ db.contents) :
    db.content r.id = some r := Rows.find_of_mem h.contents_pkey hr

theorem mem_of_content {r : ContentRow} (h : db.content id = some r) : r ∈ db.contents :=
  Rows.mem_of_find h

theorem id_of_content {r : ContentRow} (h : db.content id = some r) : r.id = id :=
  Rows.key_of_find h

/-- The group of a document is there. -/
theorem group_of_content (h : db.Constraints) {r : ContentRow} (hr : db.content id = some r) :
    ∃ g, db.group r.translationGroupId = some g := by
  obtain ⟨g, hg, hgid, -⟩ := h.contents_translation_group_fk r (mem_of_content hr)
  exact ⟨g, hgid ▸ Rows.find_of_mem h.translation_groups_pkey hg⟩

/-- A document is of the type of its group. -/
theorem type_of_group (h : db.Constraints) {g : TranslationGroupRow} (hg : g ∈ db.groups)
    {r : ContentRow} (hr : r ∈ db.contents) (hgroup : r.translationGroupId = g.id) :
    r.type = g.type := by
  obtain ⟨g', hg', hid, htype⟩ := h.contents_translation_group_fk r hr
  have heq := Rows.find_of_mem h.translation_groups_pkey hg
  rw [← hgroup, ← hid, Rows.find_of_mem h.translation_groups_pkey hg'] at heq
  rw [← htype, Option.some.inj heq]

/-- The documents of a group are of one type. -/
theorem translation_type (h : db.Constraints) {a b : ContentRow} (ha : a ∈ db.contents)
    (hb : b ∈ db.contents) (hgroup : a.translationGroupId = b.translationGroupId) :
    a.type = b.type := by
  obtain ⟨g, hg, hid, htype⟩ := h.contents_translation_group_fk b hb
  rw [← htype]
  exact type_of_group h hg ha (hgroup.trans hid.symm)

theorem mem_childrenOf : j ∈ db.childrenOf id ↔
    ∃ r ∈ db.contents, r.parentId = some id ∧ r.id = j := by
  simp [childrenOf, and_assoc]

@[simp] theorem content_insertContent (r : ContentRow) :
    (db.insertContent r).content id = if r.id = id then some r else db.content id :=
  Rows.find_cons r db.contents id

theorem content_setContent (w : ContentRow → RowWrite) :
    (db.setContent id w).content j =
      (db.content j).map fun r => if r.id = id then r.put (w r) else r :=
  Rows.find_map fun r => by split <;> rfl

theorem content_setContent_self (w : ContentRow → RowWrite) {r : ContentRow}
    (h : db.content id = some r) : (db.setContent id w).content id = some (r.put (w r)) := by
  rw [content_setContent, h, Option.map_some, if_pos (id_of_content h)]

theorem content_setContent_of_ne (w : ContentRow → RowWrite) (h : j ≠ id) :
    (db.setContent id w).content j = db.content j := by
  rw [content_setContent]
  cases hj : db.content j with
  | none => rfl
  | some r => rw [Option.map_some, if_neg (fun heq => h ((id_of_content hj).symm.trans heq))]

@[simp] theorem content_deleteContent :
    (db.deleteContent id).content j = if j = id then none else db.content j := by
  have := Rows.find_filter ContentRow.id db.contents j
    fun i => decide (i ≠ id)
  by_cases hj : j = id
  · simpa [content, deleteContent, hj] using this
  · simpa [content, deleteContent, hj] using this

theorem group_deleteGroup_of_ne (h : j ≠ id) : (db.deleteGroup id).group j = db.group j := by
  have := Rows.find_filter TranslationGroupRow.id db.groups j
    fun i => decide (i ≠ id)
  simpa [group, deleteGroup, h] using this

@[simp] theorem content_insertRevision (v : ContentRevisionRow) :
    (db.insertRevision v).content id = db.content id := rfl

@[simp] theorem content_pruneRevisions (c : Uuid) :
    (db.pruneRevisions c).content id = db.content id := rfl

end Database
end PressLabz
