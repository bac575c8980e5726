import PressLabz.CanonicalUrls
import PressLabz.ContentRoutes

/-! # The media reference mirror

`packages/db/src/repositories/media-references.ts`.  `content_media` holds in
rows what documents name in JSON, and `reconcileMediaReferences` is what brings
the one in line with the other.  The API starts only behind a marker that says it
did (`mayStart`).

It runs under a lock on `contents`, so it is a function of one state of the
database; a run that throws is rolled back (`reconciled`).  A document spells the
uuid of an asset as its author did and a row as the database prints it.  Rows and
references are compared as texts here, and a reference in capitals to an asset
that is there counts as dangling (`reconcile_exact`).
-/
namespace PressLabz

/-! ## The marker -/

inductive MediaReferenceSyncState where
  | pending | ready
  deriving DecidableEq

/-- The row of `media_reference_sync`. -/
structure MediaReferenceSync where
  state : MediaReferenceSyncState
  reconciledAt : Option Nat
  deriving DecidableEq

/-- What a reconciliation reads and writes. -/
structure ReferenceStore where
  db : Database
  sync : Option MediaReferenceSync

inductive ReconcileError where
  /-- The marker has no row. -/
  | unseeded
  /-- A statement the schema refused. -/
  | constraint (name : String)
  | mismatch (missing extra : Nat)
  deriving DecidableEq

def ReconcileError.message : ReconcileError → String
  | .unseeded =>
    "media_reference_sync holds no row: this database has not had the migration that " ++
      "creates it, or the row was removed. Run `pnpm db:migrate` and try again."
  | .constraint name => "violates constraint " ++ name
  | .mismatch missing extra =>
    "The media reference mirror does not match the documents after reconciling: " ++
      toString missing ++ " missing, " ++ toString extra ++ " unexpected. Nothing was committed."

/-- `readMediaReferenceSyncState`; none where it throws. -/
def ReferenceStore.readMediaReferenceSyncState (store : ReferenceStore) :
    Option MediaReferenceSyncState := store.sync.map (·.state)

/-- What the API asks before it opens anything else. -/
def ReferenceStore.mayStart (store : ReferenceStore) : Bool :=
  store.readMediaReferenceSyncState = some .ready

/-! ## What a run reports -/

/-- A live reference whose asset is not there. -/
structure DanglingReference where
  contentId : Uuid
  type : String
  locale : String
  slug : String
  title : String
  mediaId : UuidText
  source : MediaSource
  at_ : MediaPlace
  deriving DecidableEq

structure ReconcileResult where
  documents : Nat
  dangling : List DanglingReference
  unknownTypes : List String
  revisionsNamingAbsentMedia : Nat
  added : Nat
  removed : Nat
  state : MediaReferenceSyncState
  deriving DecidableEq

/-! ## References and rows -/

/-- A reference and the document it was found in. -/
structure WantedReference where
  document : ContentRow
  reference : ContentMediaReference

def WantedReference.row (wanted : WantedReference) : ContentMediaRow :=
  wanted.reference.row wanted.document.id

def WantedReference.dangling (wanted : WantedReference) : DanglingReference where
  contentId := wanted.document.id
  type := wanted.document.type
  locale := wanted.document.locale
  slug := wanted.document.slug
  title := wanted.document.title
  mediaId := wanted.reference.mediaId
  source := wanted.reference.source
  at_ := wanted.reference.at_

/-- What a row and a reference are compared by, as texts. -/
structure MirrorKey where
  contentId : Uuid
  mediaId : UuidText
  source : MediaSource
  deriving DecidableEq

def WantedReference.key (wanted : WantedReference) : MirrorKey :=
  ⟨wanted.document.id, wanted.reference.mediaId, wanted.reference.source⟩

def ContentMediaRow.key (row : ContentMediaRow) : MirrorKey :=
  ⟨row.contentId, Uuid.text row.mediaId, row.source⟩

section
variable (resolveType : String → Option AnyContentType)

/-- The references of the documents whose type is known. -/
def wantedReferences (documents : List ContentRow) : List WantedReference :=
  documents.flatMap fun document =>
    match resolveType document.type with
    | none => []
    | some type =>
      (mediaReferencesOf type document.blocks document.meta).map fun reference =>
        ⟨document, reference⟩

def unknownTypes (documents : List ContentRow) : List String :=
  ((documents.map (·.type)).filter fun type => (resolveType type).isNone).eraseDups

end

namespace Database
variable (db : Database)

/-- The assets among `referenced`, under the ids the database prints. -/
def presentMedia (referenced : List UuidText) : List UuidText :=
  (db.media.filter fun asset => asset.id ∈ referenced.map UuidText.uuid).map (Uuid.text ·.id)

/-- What a revision names, as `countRevisionsNamingAbsentMedia` reads it. -/
def namedInRevision (revision : ContentRevisionRow) : List UuidText :=
  (mediaReferencesInBlocks revision.blocks).map (·.mediaId) ++
    match revision.meta.lookup "featuredMediaId" with
    | some (.uuid mediaId) => [mediaId]
    | _ => []

/-- How many texts in revisions name an asset that is gone; case does not matter. -/
def countRevisionsNamingAbsentMedia : Nat :=
  (db.revisions.flatMap namedInRevision).eraseDups.countP fun mediaId =>
    ¬ ∃ asset ∈ db.media, asset.id = mediaId.uuid

def deleteContentMedia (row : ContentMediaRow) : Database :=
  { db with contentMedia := db.contentMedia.filter fun m => m ≠ row }

/-- An insert, with the constraints it is checked against. -/
def insertContentMedia (row : ContentMediaRow) : Except ReconcileError Database :=
  if row ∈ db.contentMedia then .error (.constraint "content_media_pkey")
  else if ¬ ∃ document ∈ db.contents, document.id = row.contentId then
    .error (.constraint "content_media_content_fk")
  else if ¬ ∃ asset ∈ db.media, asset.id = row.mediaId then
    .error (.constraint "content_media_media_fk")
  else .ok { db with contentMedia := row :: db.contentMedia }

/-- The rows that no reference names. -/
def staleRows (wanted : List WantedReference) : List ContentMediaRow :=
  db.contentMedia.filter fun row => row.key ∉ wanted.map (·.key)

/-- The references that have no row. -/
def freshReferences (wanted : List WantedReference) : List WantedReference :=
  wanted.filter fun reference => reference.key ∉ db.contentMedia.map (·.key)

/-- The deletes and then the inserts. -/
def settle (wanted : List WantedReference) : Except ReconcileError Database :=
  ((db.freshReferences wanted).map (·.row)).foldlM insertContentMedia
    ((db.staleRows wanted).foldl deleteContentMedia db)

/-- What is wanted and not there. -/
def missingKeys (wanted : List WantedReference) : List MirrorKey :=
  (wanted.map (·.key)).eraseDups.filter fun key => key ∉ db.contentMedia.map (·.key)

/-- What is there and not wanted. -/
def extraKeys (wanted : List WantedReference) : List MirrorKey :=
  (db.contentMedia.map (·.key)).eraseDups.filter fun key => key ∉ wanted.map (·.key)

end Database

/-! ## The reconciliation -/

section
variable (resolveType : String → Option AnyContentType) (now : Nat)

/-- The references whose text is no text of an asset. -/
def danglingReferences (db : Database) : List WantedReference :=
  let wanted := wantedReferences resolveType db.contents
  let present := db.presentMedia (wanted.map (·.reference.mediaId)).eraseDups
  wanted.filter fun reference => reference.reference.mediaId ∉ present

/-- Brings `content_media` in line with every document and marks the installation
ready, or reports why not and marks it pending. -/
def reconcileMediaReferences (store : ReferenceStore) :
    Except ReconcileError (ReconcileResult × ReferenceStore) :=
  match store.sync with
  | none => .error .unseeded
  | some _ =>
    let db := store.db
    let wanted := wantedReferences resolveType db.contents
    let unknown := unknownTypes resolveType db.contents
    let dangling := danglingReferences resolveType db
    let historic := db.countRevisionsNamingAbsentMedia
    if 0 < dangling.length ∨ 0 < unknown.length then
      .ok (⟨db.contents.length, dangling.map (·.dangling), unknown, historic, 0, 0, .pending⟩,
        ⟨db, some ⟨.pending, none⟩⟩)
    else
      match db.settle wanted with
      | .error e => .error e
      | .ok settled =>
        -- The table is read back before the marker moves.
        let missing := settled.missingKeys wanted
        let extra := settled.extraKeys wanted
        if 0 < missing.length ∨ 0 < extra.length then
          .error (.mismatch missing.length extra.length)
        else
          .ok (⟨db.contents.length, [], [], historic, (db.freshReferences wanted).length,
              (db.staleRows wanted).length, .ready⟩,
            ⟨settled, some ⟨.ready, some now⟩⟩)

/-- The store a run leaves. -/
def reconciled (store : ReferenceStore) : ReferenceStore :=
  match reconcileMediaReferences resolveType now store with
  | .ok (_, left) => left
  | .error _ => store

end

/-! ## References and their keys -/

/-- A document names an asset once in a text and a source. -/
theorem firstOfEach_nodup (references : List ContentMediaReference) :
    ((firstOfEach references).map fun r => (r.mediaId, r.source)).Nodup := by
  induction references with
  | nil => exact List.nodup_nil
  | cons x rest ih =>
    rw [firstOfEach, List.map_cons]
    refine List.nodup_cons.mpr ⟨fun hx => ?_, ih.sublist (List.filter_sublist.map _)⟩
    obtain ⟨r, hr, heq⟩ := List.mem_map.mp hx
    have hne := of_decide_eq_true (List.mem_filter.mp hr).2
    exact hne ⟨congrArg Prod.fst heq, congrArg Prod.snd heq⟩

theorem mediaReferencesOf_nodup (type : AnyContentType) (blocks : Blocks) («meta» : Meta) :
    ((mediaReferencesOf type blocks «meta»).map fun r => (r.mediaId, r.source)).Nodup :=
  ((List.perm_insertionSort _ _).map _).nodup_iff.mpr (firstOfEach_nodup _)

section Wanted
variable {resolveType : String → Option AnyContentType} {documents : List ContentRow}

theorem mem_wantedReferences {wanted : WantedReference} :
    wanted ∈ wantedReferences resolveType documents ↔
      wanted.document ∈ documents ∧ ∃ type, resolveType wanted.document.type = some type ∧
        wanted.reference ∈
          mediaReferencesOf type wanted.document.blocks wanted.document.meta := by
  obtain ⟨document, reference⟩ := wanted
  constructor
  · intro h
    obtain ⟨found, hfound, h⟩ := List.mem_flatMap.mp h
    split at h
    · cases h
    · rename_i type htype
      obtain ⟨r, hr, heq⟩ := List.mem_map.mp h
      cases heq
      exact ⟨hfound, type, htype, hr⟩
  · rintro ⟨hdocument, type, htype, hr⟩
    refine List.mem_flatMap.mpr ⟨document, hdocument, ?_⟩
    rw [htype]
    exact List.mem_map_of_mem hr

/-- No two references have one key. -/
theorem wantedReferences_nodup (hnodup : (documents.map ContentRow.id).Nodup) :
    ((wantedReferences resolveType documents).map WantedReference.key).Nodup := by
  induction documents with
  | nil => exact List.nodup_nil
  | cons document rest ih =>
    obtain ⟨hnot, hrest⟩ := List.nodup_cons.mp hnodup
    rw [wantedReferences, List.flatMap_cons, List.map_append]
    refine List.nodup_append.mpr ⟨?_, ih hrest, fun a ha b hb heq => hnot ?_⟩
    · split
      · exact List.nodup_nil
      · rename_i type _
        rw [List.map_map]
        refine List.Nodup.of_map (fun key : MirrorKey => (key.mediaId, key.source)) ?_
        rw [List.map_map]
        exact mediaReferencesOf_nodup type document.blocks document.meta
    · obtain ⟨w, hw, rfl⟩ := List.mem_map.mp ha
      obtain ⟨w', hw', rfl⟩ := List.mem_map.mp hb
      have hid : w.document = document := by
        split at hw
        · cases hw
        · obtain ⟨r, -, rfl⟩ := List.mem_map.mp hw
          rfl
      rw [← hid, show w.document.id = w'.document.id from congrArg MirrorKey.contentId heq]
      exact List.mem_map_of_mem (mem_wantedReferences.mp hw').1

theorem unknownTypes_eq_nil : unknownTypes resolveType documents = [] ↔
    ∀ r ∈ documents, ∃ type, resolveType r.type = some type := by
  rw [unknownTypes, List.eq_nil_iff_forall_not_mem]
  constructor
  · intro h r hr
    refine Option.ne_none_iff_exists'.mp fun hnone => h r.type ?_
    exact List.mem_eraseDups.mpr (List.mem_filter.mpr
      ⟨List.mem_map_of_mem hr, Option.isNone_iff_eq_none.mpr hnone⟩)
  · intro h type htype
    obtain ⟨hmem, hnone⟩ := List.mem_filter.mp (List.mem_eraseDups.mp htype)
    obtain ⟨r, hr, rfl⟩ := List.mem_map.mp hmem
    obtain ⟨known, hknown⟩ := h r hr
    rw [hknown] at hnone
    cases hnone

end Wanted

/-! ## The statements -/

namespace Database
variable {db : Database}

theorem deleteEach (rows : List ContentMediaRow) : rows.foldl deleteContentMedia db =
    { db with contentMedia := db.contentMedia.filter fun m => m ∉ rows } := by
  induction rows generalizing db with
  | nil => simp
  | cons row rest ih =>
    rw [List.foldl_cons, ih, deleteContentMedia]
    congr 1
    rw [List.filter_filter]
    refine List.filter_congr fun m _ => ?_
    simp [Bool.and_comm]

/-- Rows that are new and name what is there are inserted. -/
theorem insertEach {rows : List ContentMediaRow} (hnodup : rows.Nodup)
    (hnew : ∀ row ∈ rows, row ∉ db.contentMedia)
    (hcontent : ∀ row ∈ rows, ∃ document ∈ db.contents, document.id = row.contentId)
    (hmedia : ∀ row ∈ rows, ∃ asset ∈ db.media, asset.id = row.mediaId) :
    rows.foldlM insertContentMedia db =
      .ok { db with contentMedia := rows.reverse ++ db.contentMedia } := by
  induction rows generalizing db with
  | nil => rfl
  | cons row rest ih =>
    obtain ⟨hnot, hrest⟩ := List.nodup_cons.mp hnodup
    have hrow : db.insertContentMedia row =
        .ok { db with contentMedia := row :: db.contentMedia } := by
      rw [insertContentMedia, if_neg (hnew row List.mem_cons_self),
        if_neg (not_not_intro (hcontent row List.mem_cons_self)),
        if_neg (not_not_intro (hmedia row List.mem_cons_self))]
    have hfresh : ∀ r ∈ rest, r ∉ row :: db.contentMedia := by
      intro r hr hmem
      rcases List.mem_cons.mp hmem with rfl | hmem
      · exact hnot hr
      · exact hnew r (List.mem_cons_of_mem _ hr) hmem
    rw [List.foldlM_cons, hrow]
    refine (@ih { db with contentMedia := row :: db.contentMedia } hrest hfresh
      (fun r hr => hcontent r (List.mem_cons_of_mem _ hr))
      fun r hr => hmedia r (List.mem_cons_of_mem _ hr)).trans ?_
    simp

end Database

theorem ContentMediaRow.key_inj {a b : ContentMediaRow} (h : a.key = b.key) : a = b := by
  obtain ⟨contentId, mediaId, source⟩ := a
  obtain ⟨contentId', mediaId', source'⟩ := b
  simpa [ContentMediaRow.key, Uuid.text_inj] using h

/-- A reference that is spelled as its row is. -/
def WantedReference.Printed (wanted : WantedReference) : Prop := wanted.row.key = wanted.key

theorem WantedReference.printed_iff {wanted : WantedReference} :
    wanted.Printed ↔ wanted.reference.mediaId = Uuid.text wanted.reference.mediaId.uuid := by
  simp [WantedReference.Printed, WantedReference.row, WantedReference.key,
    ContentMediaReference.row, ContentMediaRow.key, eq_comm]

/-- The rows are those of the references. -/
def Database.Holds (db : Database) (wanted : List WantedReference) : Prop :=
  ∀ row, row ∈ db.contentMedia ↔ ∃ reference ∈ wanted, row = reference.row

section Settle
variable {db : Database} {wanted : List WantedReference}
  (hprinted : ∀ w ∈ wanted, w.Printed)
include hprinted

/-- Where the rows are those of the references, nothing is stale. -/
theorem staleRows_of_holds (h : db.Holds wanted) : db.staleRows wanted = [] := by
  refine List.filter_eq_nil_iff.mpr fun row hrow => ?_
  obtain ⟨w, hw, rfl⟩ := (h row).mp hrow
  have hkey : w.row.key ∈ wanted.map (·.key) := hprinted w hw ▸ List.mem_map_of_mem hw
  simpa using hkey

/-- Where the rows are those of the references, no reference is fresh. -/
theorem freshReferences_of_holds (h : db.Holds wanted) : db.freshReferences wanted = [] := by
  refine List.filter_eq_nil_iff.mpr fun w hw => ?_
  have hrow : w.row ∈ db.contentMedia := (h w.row).mpr ⟨w, hw, rfl⟩
  have hkey : w.key ∈ db.contentMedia.map (·.key) := hprinted w hw ▸ List.mem_map_of_mem hrow
  simpa using hkey

theorem settle_of_holds (h : db.Holds wanted) : db.settle wanted = .ok db := by
  rw [Database.settle, staleRows_of_holds hprinted h, freshReferences_of_holds hprinted h]
  rfl

/-- The read-back finds what the arithmetic says. -/
theorem readBack_of_holds (h : db.Holds wanted) :
    db.missingKeys wanted = [] ∧ db.extraKeys wanted = [] := by
  constructor
  · refine List.filter_eq_nil_iff.mpr fun key hkey => ?_
    obtain ⟨w, hw, rfl⟩ := List.mem_map.mp (List.mem_eraseDups.mp hkey)
    have := List.filter_eq_nil_iff.mp (freshReferences_of_holds hprinted h) w hw
    simpa using this
  · refine List.filter_eq_nil_iff.mpr fun key hkey => ?_
    obtain ⟨row, hrow, rfl⟩ := List.mem_map.mp (List.mem_eraseDups.mp hkey)
    have := List.filter_eq_nil_iff.mp (staleRows_of_holds hprinted h) row hrow
    simpa using this

/-- **The deletes and the inserts leave the rows of the references.** -/
theorem settle_holds (hnodup : (wanted.map (·.key)).Nodup)
    (hcontent : ∀ w ∈ wanted, w.document ∈ db.contents)
    (hmedia : ∀ w ∈ wanted, ∃ asset ∈ db.media, asset.id = w.reference.mediaId.uuid) :
    ∃ rows, db.settle wanted = .ok { db with contentMedia := rows } ∧
      Database.Holds { db with contentMedia := rows } wanted := by
  have hsub : ∀ w ∈ db.freshReferences wanted, w ∈ wanted := fun w hw =>
    (List.mem_filter.mp hw).1
  have hfresh : ∀ w ∈ db.freshReferences wanted, w.row ∉ db.contentMedia := by
    intro w hw hrow
    have hkey : w.key ∉ db.contentMedia.map (·.key) :=
      of_decide_eq_true (List.mem_filter.mp hw).2
    exact hkey (hprinted w (hsub w hw) ▸ List.mem_map_of_mem hrow)
  have hrows : ((db.freshReferences wanted).map (·.row)).Nodup := by
    have hkeys : ((db.freshReferences wanted).map (·.row)).map ContentMediaRow.key =
        (db.freshReferences wanted).map (·.key) := by
      rw [List.map_map]
      exact List.map_congr_left fun w hw => hprinted w (hsub w hw)
    refine List.Nodup.of_map ContentMediaRow.key ?_
    rw [hkeys]
    exact hnodup.sublist (List.filter_sublist.map _)
  refine ⟨((db.freshReferences wanted).map (·.row)).reverse ++
    db.contentMedia.filter fun m => m ∉ db.staleRows wanted, ?_,
    fun row => ⟨fun hrow => ?_, ?_⟩⟩
  · rw [Database.settle, Database.deleteEach, Database.insertEach hrows]
    · intro row hrow hmem
      obtain ⟨w, hw, rfl⟩ := List.mem_map.mp hrow
      exact hfresh w hw (List.mem_filter.mp hmem).1
    · intro row hrow
      obtain ⟨w, hw, rfl⟩ := List.mem_map.mp hrow
      exact ⟨w.document, hcontent w (hsub w hw), rfl⟩
    · intro row hrow
      obtain ⟨w, hw, rfl⟩ := List.mem_map.mp hrow
      exact hmedia w (hsub w hw)
  · rcases List.mem_append.mp hrow with hrow | hrow
    · obtain ⟨w, hw, rfl⟩ := List.mem_map.mp (List.mem_reverse.mp hrow)
      exact ⟨w, hsub w hw, rfl⟩
    · -- A row that stayed has the key of a reference.
      obtain ⟨hrow, hstale⟩ := List.mem_filter.mp hrow
      have hkey : row.key ∈ wanted.map (·.key) := by
        by_contra hnot
        exact of_decide_eq_true hstale (List.mem_filter.mpr ⟨hrow, decide_eq_true hnot⟩)
      obtain ⟨w, hw, heq⟩ := List.mem_map.mp hkey
      exact ⟨w, hw, ContentMediaRow.key_inj (heq.symm.trans (hprinted w hw).symm)⟩
  · rintro ⟨w, hw, rfl⟩
    by_cases hheld : w.key ∈ db.contentMedia.map (·.key)
    · refine List.mem_append_right _ (List.mem_filter.mpr ⟨?_, decide_eq_true fun hstale => ?_⟩)
      · obtain ⟨row, hrow, heq⟩ := List.mem_map.mp hheld
        exact ContentMediaRow.key_inj (heq.trans (hprinted w hw).symm) ▸ hrow
      · have hnot : w.row.key ∉ wanted.map (·.key) :=
          of_decide_eq_true (List.mem_filter.mp hstale).2
        exact hnot (hprinted w hw ▸ List.mem_map_of_mem hw)
    · refine List.mem_append_left _ (List.mem_reverse.mpr (List.mem_map_of_mem ?_))
      exact List.mem_filter.mpr ⟨hw, decide_eq_true hheld⟩

end Settle

/-! ## What a run decides -/

section Decides
variable (resolveType : String → Option AnyContentType)

/-- Every type of a document is known, and every asset that a document names is
there. -/
def Complete (db : Database) : Prop :=
  ∀ r ∈ db.contents, ∃ type, resolveType r.type = some type ∧
    ∀ reference ∈ mediaReferencesOf type r.blocks r.meta,
      ∃ asset ∈ db.media, asset.id = reference.mediaId.uuid

/-- Every reference is spelled as the database prints a uuid. -/
def ReferencesPrinted (db : Database) : Prop :=
  ∀ r ∈ db.contents, ∀ type, resolveType r.type = some type →
    ∀ reference ∈ mediaReferencesOf type r.blocks r.meta,
      reference.mediaId = Uuid.text reference.mediaId.uuid

/-- The mirror is the references of the documents. -/
def MirrorExact (db : Database) : Prop :=
  ∀ row, row ∈ db.contentMedia ↔ ∃ r ∈ db.contents, ∃ type,
    resolveType r.type = some type ∧
      ∃ reference ∈ mediaReferencesOf type r.blocks r.meta, row = reference.row r.id

/-- A run finds nothing to diagnose: no dangling reference and no unknown type. -/
def Clean (db : Database) : Prop :=
  danglingReferences resolveType db = [] ∧ unknownTypes resolveType db.contents = []

variable {resolveType} {db : Database}

theorem danglingReferences_eq_nil : danglingReferences resolveType db = [] ↔
    ∀ w ∈ wantedReferences resolveType db.contents,
      ∃ asset ∈ db.media, Uuid.text asset.id = w.reference.mediaId := by
  refine List.filter_eq_nil_iff.trans (forall₂_congr fun w hw => ?_)
  rw [decide_eq_true_iff, not_not]
  constructor
  · intro h
    obtain ⟨asset, hasset, heq⟩ := List.mem_map.mp h
    exact ⟨asset, (List.mem_filter.mp hasset).1, heq⟩
  · rintro ⟨asset, hasset, heq⟩
    refine List.mem_map.mpr ⟨asset, List.mem_filter.mpr ⟨hasset, decide_eq_true ?_⟩, heq⟩
    refine List.mem_map.mpr ⟨w.reference.mediaId, List.mem_eraseDups.mpr ?_, ?_⟩
    · exact List.mem_map.mpr ⟨w, hw, rfl⟩
    · rw [← heq, Uuid.text_uuid]

/-- A complete database has every asset that a document of a known type names. -/
theorem Complete.asset (h : Complete resolveType db) {r : ContentRow} (hr : r ∈ db.contents)
    {type : AnyContentType} (htype : resolveType r.type = some type) :
    ∀ reference ∈ mediaReferencesOf type r.blocks r.meta,
      ∃ asset ∈ db.media, asset.id = reference.mediaId.uuid := by
  obtain ⟨type', htype', hmedia⟩ := h r hr
  rw [htype] at htype'
  obtain rfl := Option.some.inj htype'
  exact hmedia

/-- A run finds nothing where the database is complete and spelled as it prints. -/
theorem clean_iff : Clean resolveType db ↔
    Complete resolveType db ∧ ReferencesPrinted resolveType db := by
  rw [Clean, danglingReferences_eq_nil, unknownTypes_eq_nil]
  constructor
  · rintro ⟨hdangling, hknown⟩
    have hasset : ∀ r ∈ db.contents, ∀ type, resolveType r.type = some type →
        ∀ reference ∈ mediaReferencesOf type r.blocks r.meta,
          ∃ asset ∈ db.media, Uuid.text asset.id = reference.mediaId :=
      fun r hr type htype reference hreference =>
        hdangling ⟨r, reference⟩ (mem_wantedReferences.mpr ⟨hr, type, htype, hreference⟩)
    refine ⟨fun r hr => ?_, fun r hr type htype reference hreference => ?_⟩
    · obtain ⟨type, htype⟩ := hknown r hr
      refine ⟨type, htype, fun reference hreference => ?_⟩
      obtain ⟨asset, hmem, heq⟩ := hasset r hr type htype reference hreference
      exact ⟨asset, hmem, by rw [← heq, Uuid.text_uuid]⟩
    · obtain ⟨asset, -, heq⟩ := hasset r hr type htype reference hreference
      rw [← heq, Uuid.text_uuid]
  · rintro ⟨hcomplete, hprinted⟩
    refine ⟨fun w hw => ?_, fun r hr => ?_⟩
    · obtain ⟨hdocument, type, htype, hreference⟩ := mem_wantedReferences.mp hw
      obtain ⟨asset, hasset, heq⟩ := hcomplete.asset hdocument htype w.reference hreference
      refine ⟨asset, hasset, ?_⟩
      rw [heq, ← hprinted w.document hdocument type htype w.reference hreference]
    · obtain ⟨type, htype, -⟩ := hcomplete r hr
      exact ⟨type, htype⟩

/-- The rows of the references are the mirror. -/
theorem holds_iff : db.Holds (wantedReferences resolveType db.contents) ↔
    MirrorExact resolveType db := by
  refine forall_congr' fun row => iff_congr Iff.rfl ?_
  constructor
  · rintro ⟨w, hw, rfl⟩
    obtain ⟨hdocument, type, htype, hreference⟩ := mem_wantedReferences.mp hw
    exact ⟨w.document, hdocument, type, htype, w.reference, hreference, rfl⟩
  · rintro ⟨r, hr, type, htype, reference, hreference, rfl⟩
    exact ⟨⟨r, reference⟩, mem_wantedReferences.mpr ⟨hr, type, htype, hreference⟩, rfl⟩

end Decides

/-! ## Exactness -/

/-- The store with the time of a later run that ended the same way. -/
def ReferenceStore.stampedAt (store : ReferenceStore) (later : Nat) : ReferenceStore :=
  { store with sync := store.sync.map fun marker =>
      { marker with reconciledAt := marker.reconciledAt.map fun _ => later } }

/-- What a reconciliation is for: ready and complete are one, a ready mirror is the
references of the documents, a run that ends otherwise changed no row, and a run
after it changes nothing but the time in the marker. -/
structure Exact (resolveType : String → Option AnyContentType) (now : Nat)
    (store : ReferenceStore) : Prop where
  ready : (reconciled resolveType now store).mayStart = true ↔ Complete resolveType store.db
  mirror : (reconciled resolveType now store).mayStart = true →
    MirrorExact resolveType (reconciled resolveType now store).db
  untouched : (reconciled resolveType now store).mayStart = false →
    (reconciled resolveType now store).db = store.db
  again : ∀ later, ∃ result,
    reconcileMediaReferences resolveType later (reconciled resolveType now store) =
        .ok (result, (reconciled resolveType now store).stampedAt later) ∧
      result.added = 0 ∧ result.removed = 0

section Runs
variable {resolveType : String → Option AnyContentType} {db settled : Database} (now : Nat)
  (marker : MediaReferenceSync)

/-- A diagnosis that finds anything leaves every row as it was. -/
theorem reconcile_pending (h : ¬ Clean resolveType db) : ∃ result,
    reconcileMediaReferences resolveType now ⟨db, some marker⟩ =
        .ok (result, ⟨db, some ⟨.pending, none⟩⟩) ∧
      result.added = 0 ∧ result.removed = 0 ∧ result.state = .pending := by
  refine ⟨_, if_pos ?_, rfl, rfl, rfl⟩
  rw [List.length_pos_iff, List.length_pos_iff]
  exact not_and_or.mp h

theorem printed_of_clean (h : Clean resolveType db) :
    ∀ w ∈ wantedReferences resolveType db.contents, w.Printed := by
  intro w hw
  obtain ⟨hdocument, type, htype, hreference⟩ := mem_wantedReferences.mp hw
  exact WantedReference.printed_iff.mpr
    ((clean_iff.mp h).2 w.document hdocument type htype w.reference hreference)

theorem reconcile_settled (h : Clean resolveType db)
    (hsettle : db.settle (wantedReferences resolveType db.contents) = .ok settled)
    (hholds : settled.Holds (wantedReferences resolveType db.contents)) :
    reconcileMediaReferences resolveType now ⟨db, some marker⟩ =
      .ok (⟨db.contents.length, [], [], db.countRevisionsNamingAbsentMedia,
          (db.freshReferences (wantedReferences resolveType db.contents)).length,
          (db.staleRows (wantedReferences resolveType db.contents)).length, .ready⟩,
        ⟨settled, some ⟨.ready, some now⟩⟩) := by
  obtain ⟨hmissing, hextra⟩ := readBack_of_holds (printed_of_clean h) hholds
  simp [reconcileMediaReferences, h.1, h.2, hsettle, hmissing, hextra]

/-- **A database that is complete and spelled as it prints is mirrored.** -/
theorem reconcile_ready (hc : db.Constraints) (h : Clean resolveType db) :
    ∃ rows result, reconcileMediaReferences resolveType now ⟨db, some marker⟩ =
        .ok (result, ⟨{ db with contentMedia := rows }, some ⟨.ready, some now⟩⟩) ∧
      result.state = .ready ∧ MirrorExact resolveType { db with contentMedia := rows } := by
  obtain ⟨hcomplete, -⟩ := clean_iff.mp h
  obtain ⟨rows, hsettle, hholds⟩ :=
    settle_holds (printed_of_clean h) (wantedReferences_nodup hc.contents_pkey)
      (fun w hw => (mem_wantedReferences.mp hw).1)
      (fun w hw => by
        obtain ⟨hdocument, type, htype, hreference⟩ := mem_wantedReferences.mp hw
        exact hcomplete.asset hdocument htype w.reference hreference)
  exact ⟨rows, _, reconcile_settled now marker h hsettle hholds, rfl, holds_iff.mp hholds⟩

/-- A run over a mirror that is exact writes the marker and nothing else. -/
theorem reconcile_again (h : Clean resolveType db) (hmirror : MirrorExact resolveType db) :
    ∃ result, reconcileMediaReferences resolveType now ⟨db, some marker⟩ =
        .ok (result, ⟨db, some ⟨.ready, some now⟩⟩) ∧ result.added = 0 ∧ result.removed = 0 := by
  have hholds := holds_iff.mpr hmirror
  have hprinted : ∀ w ∈ wantedReferences resolveType db.contents, w.Printed := printed_of_clean h
  refine ⟨_, reconcile_settled now marker h (settle_of_holds hprinted hholds) hholds, ?_, ?_⟩
  · rw [freshReferences_of_holds hprinted hholds, List.length_nil]
  · rw [staleRows_of_holds hprinted hholds, List.length_nil]

/-- The store a run leaves is the one that the operation answers with. -/
theorem reconciled_of_ok {now : Nat} {store left : ReferenceStore} {result : ReconcileResult}
    (h : reconcileMediaReferences resolveType now store = .ok (result, left)) :
    reconciled resolveType now store = left := by
  rw [reconciled, h]

/-- Where nothing is diagnosed a run is exact. -/
theorem exact_of_clean (hc : db.Constraints) (h : Clean resolveType db) :
    Exact resolveType now ⟨db, some marker⟩ := by
  obtain ⟨rows, result, hrun, -, hmirror⟩ := reconcile_ready now marker hc h
  have hleft := reconciled_of_ok hrun
  have hstart : (reconciled resolveType now ⟨db, some marker⟩).mayStart = true := by
    rw [hleft]
    rfl
  refine ⟨⟨fun _ => (clean_iff.mp h).1, fun _ => hstart⟩, fun _ => ?_, fun hno => ?_,
    fun later => ?_⟩
  · rw [hleft]
    exact hmirror
  · rw [hstart] at hno
    cases hno
  · rw [hleft]
    exact reconcile_again later ⟨.ready, some now⟩ h hmirror

/-- Where something is diagnosed a run is exact if the database is incomplete. -/
theorem exact_of_pending (h : ¬ Clean resolveType db) :
    Exact resolveType now ⟨db, some marker⟩ ↔ ¬ Complete resolveType db := by
  obtain ⟨result, hrun, -⟩ := reconcile_pending now marker h
  have hleft := reconciled_of_ok hrun
  have hstart : (reconciled resolveType now ⟨db, some marker⟩).mayStart = false := by
    rw [hleft]
    rfl
  constructor
  · intro hexact hcomplete
    have := hexact.ready.mpr hcomplete
    rw [hstart] at this
    cases this
  · intro hincomplete
    refine ⟨⟨fun hyes => ?_, fun hcomplete => absurd hcomplete hincomplete⟩, fun hyes => ?_,
      fun _ => ?_, fun later => ?_⟩
    · rw [hstart] at hyes
      cases hyes
    · rw [hstart] at hyes
      cases hyes
    · rw [hleft]
    · rw [hleft]
      obtain ⟨again, hagain, hadded, hremoved, -⟩ :=
        reconcile_pending later ⟨.pending, none⟩ h
      exact ⟨again, hagain, hadded, hremoved⟩

/-- **A reconciliation is exact unless a complete database spells a reference as it
does not print it.** -/
theorem reconcile_exact (hc : db.Constraints) :
    Exact resolveType now ⟨db, some marker⟩ ↔
      (Complete resolveType db → ReferencesPrinted resolveType db) := by
  by_cases h : Clean resolveType db
  · exact iff_of_true (exact_of_clean now marker hc h) fun _ => (clean_iff.mp h).2
  · rw [exact_of_pending now marker h]
    constructor
    · exact fun hno hcomplete => absurd hcomplete hno
    · exact fun himp hcomplete => h (clean_iff.mpr ⟨hcomplete, himp hcomplete⟩)

end Runs

/-! ### A page with a picture -/

/-- What the command reconciles with: the types of the build. -/
def builtinType : String → Option AnyContentType := registryGet builtinSite.types

/-- The picture of the page. -/
def photo : MediaRow := ⟨7, "media/7.avif", "image/avif", some 100, some 100, [], none⟩

/-- The page, as it spells the picture. -/
def illustratedPage (mediaId : UuidText) : ContentRow where
  toColumns := { (emptyPage "about" none).toColumns with
    blocks := [.image ⟨50, 0⟩ mediaId none] }
  id := 1
  type := "page"
  locale := "en"
  translationGroupId := 101
  authorId := none
  version := 1
  createdAt := 1
  updatedAt := 1

/-- The page and the picture, with no row of the mirror yet. -/
def illustrated (mediaId : UuidText) : Database :=
  ⟨[illustratedPage mediaId], [⟨101, "page"⟩], [], [], [photo], []⟩

/-- The page names the picture and nothing else, in whatever case. -/
theorem illustrated_complete (spelling : Nat) : Complete builtinType (illustrated ⟨7, spelling⟩) := by
  intro r hr
  obtain rfl := List.mem_singleton.mp hr
  refine ⟨pageType fun _ => false, rfl, fun reference hreference => ?_⟩
  obtain rfl := List.mem_singleton.mp hreference
  exact ⟨photo, List.mem_cons_self, rfl⟩

theorem reconcile_exact_printed :
    Exact builtinType 5 ⟨illustrated (Uuid.text 7), some ⟨.pending, none⟩⟩ := by
  refine (reconcile_exact _ _ (by decide)).mpr fun _ r hr type htype reference hreference => ?_
  obtain rfl := List.mem_singleton.mp hr
  cases htype
  obtain rfl := List.mem_singleton.mp hreference
  rfl

/-- **The picture is there and the page names it in capitals.**  The run calls the
reference dangling, and an installation that was ready does not start again. -/
theorem reconcile_refuses_capitals :
    (illustrated ⟨7, 1⟩).Constraints ∧ Complete builtinType (illustrated ⟨7, 1⟩) ∧
    (reconciled builtinType 5 ⟨illustrated ⟨7, 1⟩, some ⟨.ready, some 4⟩⟩).mayStart = false ∧
    ¬ Exact builtinType 5 ⟨illustrated ⟨7, 1⟩, some ⟨.ready, some 4⟩⟩ := by
  have hstart :
      (reconciled builtinType 5 ⟨illustrated ⟨7, 1⟩, some ⟨.ready, some 4⟩⟩).mayStart = false := rfl
  refine ⟨by decide, illustrated_complete 1, hstart, fun hexact => ?_⟩
  have := hexact.ready.mpr (illustrated_complete 1)
  rw [hstart] at this
  cases this

end PressLabz
