import PressLabz.PublicSite
import PressLabz.VersionHistory

/-! # What a write empties from the page cache

The module `cache-invalidation` of `packages/modules`, which hears what a write
announces and purges tags, and the writes themselves: the four operations on
documents, as `ContentCommits` has them, and the two on media of
`packages/db/src/repositories/media.ts`, each with what its route emits.

What a write of documents can change is stated once (`Touches`, `Moves`): the
rows it announces, the parent pointers of the children of a document it deletes,
and no slug but that of one document it announces.
-/
namespace PressLabz
open Forest

/-! ## Writes of media -/

inductive MediaError where
  | forbidden
  | inUse
  deriving DecidableEq

/-- The loop over the patch: a text sets a language, a null removes it. -/
def mergeAlt (alt : List (String × String)) (patch : List (String × Option String)) :
    List (String × String) :=
  patch.foldl (fun merged entry =>
    match entry.2 with
    | none => merged.filter (·.1 ≠ entry.1)
    | some text => assign merged entry.1 text) alt

namespace Database
variable (db : Database)

def mediaRow (id : Uuid) : Option MediaRow := Rows.find MediaRow.id db.media id

/-- One transaction, with the row locked from the read to the write. -/
def patchMediaAlt (id : Uuid) (patch : List (String × Option String))
    (authorize : MediaRow → Bool) : Except MediaError (Option MediaRow × Database) :=
  match db.mediaRow id with
  | none => .ok (none, db)
  | some current =>
    if !authorize current then .error .forbidden
    else .ok (some { current with alt := mergeAlt current.alt patch },
      { db with «media» := db.media.map fun row =>
          if row.id = id then { row with alt := mergeAlt row.alt patch } else row })

/-- `content_media_media_fk` refuses while a document names the asset. -/
def deleteMedia (id : Uuid) : Except MediaError (Option MediaRow × Database) :=
  if db.contentMedia.any (·.mediaId = id) then .error .inUse
  else .ok (db.mediaRow id, { db with «media» := db.media.filter fun row => row.id ≠ id })

end Database

structure MediaEvent where
  id : Uuid
  mimeType : String
  uploadedById : Option Uuid
  deriving DecidableEq

/-- The payload the routes of media emit. -/
def mediaEventOf (row : MediaRow) : MediaEvent := ⟨row.id, row.mimeType, row.uploadedById⟩

/-! ## What is emitted -/

/-- An emission of the core. -/
inductive CoreEvent where
  | content (name : ActionName) (event : ContentEvent)
  | media (name : ActionName) (event : MediaEvent)

/-- A write that was committed: a call of the repository with its answer, or a
write of media. -/
inductive Write where
  | content (call : Call) (answer : List ContentRow)
  | patchMediaAlt (id : Uuid) (patch : List (String × Option String))
      (authorize : MediaRow → Bool)
  | deleteMedia (id : Uuid)

/-- The write takes the database from one state to the next. -/
def Write.Commits (write : Write) (found left : Database) : Prop :=
  match write with
  | .content call answer => Post call answer found left
  | .patchMediaAlt id patch authorize =>
    ∃ row, found.patchMediaAlt id patch authorize = .ok (row, left)
  | .deleteMedia id => ∃ row, found.deleteMedia id = .ok (row, left)

/-- What the routes and the scheduler emit after each call. -/
def emitted (found : Database) : Call → List ContentRow → List CoreEvent
  | .createContent _ _, answer =>
    answer.map fun row => .content .contentCreated (contentEventOf row)
  | .updateContent _ id _ _ _, answer =>
    answer.flatMap fun row =>
      (transitionsFor (((found.content id).map (·.status)).getD row.status)
        (contentEventOf row)).map fun a => .content a.name a.payload.toContentEvent
  | .deleteContent _ _ _, answer =>
    answer.map fun row => .content .contentDeleted (contentEventOf row)
  | .publishDueContent _ _, answer =>
    answer.flatMap fun row =>
      (transitionsFor .scheduled (contentEventOf row)).map fun a =>
        .content a.name a.payload.toContentEvent

def Write.announced (write : Write) (found : Database) : List CoreEvent :=
  match write with
  | .content call answer => emitted found call answer
  | .patchMediaAlt id patch authorize =>
    match found.patchMediaAlt id patch authorize with
    | .ok (some row, _) => [.media .mediaUpdated (mediaEventOf row)]
    | _ => []
  | .deleteMedia id =>
    match found.deleteMedia id with
    | .ok (some row, _) => [.media .mediaDeleted (mediaEventOf row)]
    | _ => []

/-! ## What is purged -/

def purgeContent (event : ContentEvent) : List CacheTag :=
  [.content event.id, .contentList event.type event.locale,
    .translationGroup event.translationGroupId]

def purgeMedia (event : MediaEvent) : List CacheTag := [.media event.id]

/-- The handlers the module registers. -/
def cacheInvalidation : CoreEvent → List CacheTag
  | .content name event =>
    match name with
    | .contentCreated | .contentUpdated | .contentPublished | .contentUnpublished
    | .contentDeleted => purgeContent event
    | _ => []
  | .media name event =>
    match name with
    | .mediaUploaded | .mediaUpdated | .mediaDeleted => purgeMedia event
    | _ => []

def Write.purged (write : Write) (found : Database) : List CacheTag :=
  (write.announced found).flatMap cacheInvalidation

/-- The documents a write announces. -/
def Write.rows : Write → List ContentRow
  | .content _ answer => answer
  | _ => []

/-- However a document is announced, what it is tagged with is purged. -/
theorem mem_purged_transitions {previousStatus : ContentStatus} {event : ContentEvent}
    {tag : CacheTag} : tag ∈ ((transitionsFor previousStatus event).map fun a =>
      CoreEvent.content a.name a.payload.toContentEvent).flatMap cacheInvalidation ↔
        tag ∈ purgeContent event := by
  unfold transitionsFor
  by_cases hwas : previousStatus = .published
  · by_cases his : event.status = .published
    · simp [hwas, his, cacheInvalidation]
    · simp [hwas, his, cacheInvalidation]
  · by_cases his : event.status = .published
    · simp [hwas, his, cacheInvalidation]
    · simp [hwas, his, cacheInvalidation]

/-- **What a write of documents purges**: for each document it announces, the
document, the lists of its type and language, and its group. -/
theorem mem_purged_content {call : Call} {answer : List ContentRow} {found : Database}
    {tag : CacheTag} : tag ∈ (Write.content call answer).purged found ↔
      ∃ row ∈ answer, tag ∈ purgeContent (contentEventOf row) := by
  show tag ∈ (emitted found call answer).flatMap cacheInvalidation ↔ _
  cases call with
  | createContent _ _ =>
    rw [emitted, List.mem_flatMap]
    simp [cacheInvalidation]
  | updateContent _ id _ _ _ =>
    rw [emitted, List.flatMap_assoc, List.mem_flatMap]
    simp only [mem_purged_transitions]
  | deleteContent _ _ =>
    rw [emitted, List.mem_flatMap]
    simp [cacheInvalidation]
  | publishDueContent _ _ =>
    rw [emitted, List.flatMap_assoc, List.mem_flatMap]
    simp only [mem_purged_transitions]

/-- **What a write of media purges**: the asset, if it was there. -/
theorem mem_purged_patchMediaAlt {id : Uuid} {patch : List (String × Option String)}
    {authorize : MediaRow → Bool} {found left : Database} {row : Option MediaRow}
    (h : found.patchMediaAlt id patch authorize = .ok (row, left)) (tag : CacheTag) :
    tag ∈ (Write.patchMediaAlt id patch authorize).purged found ↔
      ∃ m ∈ row, tag = .media m.id := by
  unfold Write.purged Write.announced
  simp only [h]
  cases row with
  | none => simp
  | some m => simp [cacheInvalidation, purgeMedia, mediaEventOf]

theorem mem_purged_deleteMedia {id : Uuid} {found left : Database} {row : Option MediaRow}
    (h : found.deleteMedia id = .ok (row, left)) (tag : CacheTag) :
    tag ∈ (Write.deleteMedia id).purged found ↔ ∃ m ∈ row, tag = .media m.id := by
  unfold Write.purged Write.announced
  simp only [h]
  cases row with
  | none => simp
  | some m => simp [cacheInvalidation, purgeMedia, mediaEventOf]

/-! ## What a write of documents changes -/

/-- The rows that are not announced are what they were, but for the parent of a
row whose parent is gone; and the rows that are announced are told truly. -/
structure Touches (answer : List ContentRow) (f : ContentRow → ContentRow)
    (found left : Database) : Prop where
  detached : ∀ r, f r = r ∨ f r = r.put r.detached
  rest : left.contents.filter (fun r => r.id ∉ answer.map (·.id)) =
    (found.contents.filter fun r => r.id ∉ answer.map (·.id)).map f
  told : ∀ a ∈ answer, ∀ r, found.content a.id = some r ∨ left.content a.id = some r →
    SameDocument r a

/-- One document at most, the only one announced then, got another slug or
another parent, or came or went; the others lose their parent with it. -/
structure Moves (moved : Option Uuid) (answer : List ContentRow) (found left : Database) :
    Prop where
  announced : ∀ id, moved = some id → answer.map (·.id) = [id]
  slug : ∀ id, moved ≠ some id →
    (left.content id).map (·.slug) = (found.content id).map (·.slug)
  parent : ∀ id, moved ≠ some id → left.parents id = found.parents id ∨
    ∃ parent, moved = some parent ∧ left.content parent = none ∧
      found.parents id = some (some parent)
  always : Always found left

section Effects
variable {found left : Database} {answer : List ContentRow} {f : ContentRow → ContentRow}

theorem Touches.refl (found : Database) : Touches [] id found found where
  detached _ := .inl rfl
  rest := by simp
  told _ h := by cases h

theorem Moves.refl (found : Database) : Moves none [] found found where
  announced _ h := by cases h
  slug _ _ := rfl
  parent _ _ := .inl rfl
  always := .refl found

/-- An update of a row is not seen among the others. -/
theorem filter_setRow {ids : List Uuid} {id : Uuid} (hid : id ∈ ids) (w : ContentRow → RowWrite)
    (rows : List ContentRow) :
    (rows.map fun r => if r.id = id then r.put (w r) else r).filter (fun r => r.id ∉ ids) =
      rows.filter fun r => r.id ∉ ids := by
  induction rows with
  | nil => rfl
  | cons r rest ih =>
    rw [List.map_cons]
    by_cases hr : r.id = id
    · rw [if_pos hr, List.filter_cons_of_neg (by simpa [hr] using hid),
        List.filter_cons_of_neg (by simpa [hr] using hid)]
      exact ih
    · rw [if_neg hr, List.filter_cons, List.filter_cons, ih]

/-- The publication of several documents is not seen among the others. -/
theorem filter_published {ids : List Uuid} {claimed : List ContentRow} (stamps : Stamps)
    (hids : ∀ r ∈ claimed, r.id ∈ ids) (db : Database) :
    (claimed.foldl (·.published stamps) db).contents.filter (fun r => r.id ∉ ids) =
      db.contents.filter fun r => r.id ∉ ids := by
  induction claimed generalizing db with
  | nil => rfl
  | cons current rest ih =>
    rw [List.foldl_cons, ih fun r hr => hids r (List.mem_cons_of_mem _ hr)]
    exact filter_setRow (hids current List.mem_cons_self) _ _

section Updated
variable {type : AnyContentType} {current : ContentRow} {next : ContentState} {stamps : Stamps}

theorem touches_updated (h : found.content current.id = some current) :
    Touches [current.put (next.write current stamps)] id found
      (found.updated type current next stamps) where
  detached _ := .inl rfl
  rest := by
    rw [List.map_id]
    exact filter_setRow List.mem_cons_self _ _
  told a ha r hr := by
    obtain rfl := List.mem_singleton.mp ha
    rcases hr with hr | hr
    · obtain rfl := Option.some.inj (h.symm.trans hr)
      exact .put current _
    · obtain rfl := Option.some.inj ((content_updated h).symm.trans hr)
      exact .refl _

theorem moves_updated (h : found.content current.id = some current) :
    Moves (some current.id) [current.put (next.write current stamps)] found
      (found.updated type current next stamps) where
  announced id hid := by
    obtain rfl := Option.some.inj hid
    rfl
  slug id hid := by
    rw [content_updated_of_ne fun heq => hid (heq ▸ rfl)]
  parent id hid := by
    have hne : id ≠ current.id := fun heq => hid (heq ▸ rfl)
    exact .inl ((parents_superseded stamps h).2 id hne)
  always := by
    have hwrite : Always found (found.superseded current stamps (next.write current stamps)) :=
      always_superseded
    exact hwrite.trans ⟨fun _ r hr => .inl ⟨r, hr, .refl r⟩, fun _ h => h⟩

end Updated

theorem touches_created {input : CreateContentInput} {fresh : Fresh}
    (hnew : found.content fresh.id = none) :
    Touches [input.row fresh (input.groupId fresh)] id found (found.created input fresh) where
  detached _ := .inl rfl
  rest := by
    have hcontents : (found.created input fresh).contents =
        input.row fresh (input.groupId fresh) :: found.contents := by
      rw [Database.created, Database.opened]
      split
      · rfl
      · rfl
    rw [List.map_id, hcontents]
    exact List.filter_cons_of_neg (by simp)
  told a ha r hr := by
    obtain rfl := List.mem_singleton.mp ha
    rcases hr with hr | hr
    · exact absurd (hnew.symm.trans hr) (by simp)
    · have hcreated : (found.created input fresh).content fresh.id =
          some (input.row fresh (input.groupId fresh)) := by
        rw [content_created, if_pos rfl]
      exact Option.some.inj (hcreated.symm.trans hr) ▸ .refl _

theorem moves_created {input : CreateContentInput} {fresh : Fresh}
    (hnew : found.content fresh.id = none) :
    Moves (some fresh.id) [input.row fresh (input.groupId fresh)] found
      (found.created input fresh) where
  announced id hid := by
    obtain rfl := Option.some.inj hid
    rfl
  slug id hid := by
    rw [content_created_of_ne fun heq => hid (heq ▸ rfl)]
  parent id hid := .inl ((parents_created found input fresh).2 id fun heq => hid (heq ▸ rfl))
  always := always_created hnew

section Removed
variable {current : ContentRow}

theorem touches_removed (h : found.content current.id = some current) :
    Touches [current] (fun r => if r.parentId = some current.id then r.put r.detached else r)
      found (found.removed current) where
  detached r := by
    by_cases hr : r.parentId = some current.id
    · exact .inr (if_pos hr)
    · exact .inl (if_neg hr)
  rest := by
    have hcontents : (found.removed current).contents = (found.contents.map fun r =>
        if r.parentId = some current.id then r.put r.detached else r).filter
          fun r => r.id ≠ current.id := by
      rw [Database.removed]
      split
      · rfl
      · rfl
    rw [hcontents, List.filter_filter, List.filter_map]
    congr 1
    refine List.filter_congr fun r _ => ?_
    by_cases hr : r.parentId = some current.id
    · simp [hr]
    · simp [hr]
  told a ha r hr := by
    obtain rfl := List.mem_singleton.mp ha
    rcases hr with hr | hr
    · exact Option.some.inj (h.symm.trans hr) ▸ .refl _
    · rw [content_removed, content_withoutDocument, if_pos rfl] at hr
      cases hr

theorem moves_removed :
    Moves (some current.id) [current] found (found.removed current) where
  announced id hid := by
    obtain rfl := Option.some.inj hid
    rfl
  slug id hid := by
    have hne : id ≠ current.id := fun heq => hid (heq ▸ rfl)
    rw [content_removed, content_withoutDocument, if_neg hne, Option.map_map]
    congr 1
    funext r
    by_cases hr : r.parentId = some current.id
    · simp [hr, ContentRow.put, ContentRow.detached]
    · simp [hr]
  parent id hid := by
    have hne : id ≠ current.id := fun heq => hid (heq ▸ rfl)
    rw [parents_removed, if_neg hne]
    cases hp : found.parents id with
    | none => exact .inl rfl
    | some p =>
      by_cases hparent : p = some current.id
      · subst hparent
        refine .inr ⟨current.id, rfl, ?_, rfl⟩
        rw [content_removed, content_withoutDocument, if_pos rfl]
      · exact .inl (by rw [Option.map_some, if_neg hparent])
  always := always_removed

end Removed

section Published
variable {stamps : Stamps} {claimed : List ContentRow}

theorem touches_published (hnodup : (claimed.map (·.id)).Nodup)
    (hrow : ∀ r ∈ claimed, found.content r.id = some r) :
    Touches (claimed.map fun r => r.put (r.publication stamps)) id found
      (claimed.foldl (·.published stamps) found) where
  detached _ := .inl rfl
  rest := by
    rw [List.map_id]
    refine filter_published stamps (fun r hr => ?_) found
    exact List.mem_map.mpr ⟨_, List.mem_map_of_mem hr, rfl⟩
  told a ha r hr := by
    obtain ⟨row, hmem, rfl⟩ := List.mem_map.mp ha
    rcases hr with hr | hr
    · obtain rfl := Option.some.inj ((hrow row hmem).symm.trans hr)
      exact .put row _
    · have hwritten := (publishEach_written stamps hnodup hrow hmem).1
      exact Option.some.inj (hwritten.symm.trans hr) ▸ .refl _

theorem moves_published (hnodup : (claimed.map (·.id)).Nodup)
    (hrow : ∀ r ∈ claimed, found.content r.id = some r) :
    Moves none (claimed.map fun r => r.put (r.publication stamps)) found
      (claimed.foldl (·.published stamps) found) where
  announced _ h := by cases h
  slug id _ := by
    obtain ⟨-, -, hdocs, -⟩ := publishEach_frame stamps hnodup hrow
    by_cases hid : ∃ r ∈ claimed, r.id = id
    · obtain ⟨r, hr, rfl⟩ := hid
      rw [(publishEach_written stamps hnodup hrow hr).1, hrow r hr]
      rfl
    · have hne : ∀ r ∈ claimed, r.id ≠ id := fun r hr heq => hid ⟨r, hr, heq⟩
      rw [(hdocs id hne).content]
  parent id _ := .inl (congrFun (publishEach_frame stamps hnodup hrow).1 id)
  always := (publishEach_frame stamps hnodup hrow).2.1

end Published

/-- **A committed call** touches the documents it answers with, and moves what it moves. -/
theorem Post.effects {call : Call} (h : Post call answer found left) :
    ∃ f moved, Touches answer f found left ∧ Moves moved answer found left := by
  cases call with
  | createContent input fresh =>
    obtain ⟨rfl, hnew, -, rfl⟩ := h
    exact ⟨_, _, touches_created hnew, moves_created hnew⟩
  | updateContent type id patch options stamps =>
    rcases h with ⟨rfl, rfl⟩ | ⟨current, next, hcur, -, rfl, rfl⟩
    · exact ⟨_, _, .refl left, .refl left⟩
    · obtain rfl := Database.id_of_content hcur
      exact ⟨_, _, touches_updated hcur, moves_updated hcur⟩
  | deleteContent id authorize =>
    rcases h with ⟨rfl, rfl⟩ | ⟨current, hcur, -, rfl, rfl⟩
    · exact ⟨_, _, .refl left, .refl left⟩
    · obtain rfl := Database.id_of_content hcur
      exact ⟨_, _, touches_removed hcur, moves_removed⟩
  | publishDueContent now stamps =>
    obtain ⟨claimed, hnodup, hrow, rfl, rfl⟩ := h
    have hfound : ∀ r ∈ claimed, found.content r.id = some r := fun r hr => (hrow r hr).1
    exact ⟨_, _, touches_published hnodup hfound, moves_published hnodup hfound⟩

end Effects
end PressLabz
