import PressLabz.CacheCoverage
import PressLabz.MediaReferences

/-! # The mirror over runs

Once reconciled, `content_media` is kept in line by the writes themselves: each
one writes the difference between what a document names and the rows it has.
The deletion of an asset joins the four operations here, in a store that locks
rows of media too (`StoreKey`).

The database checks the foreign keys of `content_media` while a statement runs and
keeps others from undoing what it saw.  A commit checks them here, so more
interleavings are possible, and whatever the database commits is committed in one
of them.  `deleteMediaRow` also lists the objects of the asset as orphans, in a
table nothing else here reads.
-/
namespace PressLabz
open Forest RowLocks

/-! ## The store -/

/-- The rows that are locked: those of the contents, and those of media. -/
inductive StoreKey where
  | content (key : RowKey)
  | «media» (id : Uuid)
  deriving DecidableEq

inductive StoreCall where
  | content (call : Call)
  | deleteMedia (id : Uuid)

inductive StoreAnswer where
  | content (rows : List ContentRow)
  | «media» (row : Option MediaRow)

def Database.withoutMedia (db : Database) (id : Uuid) : Database :=
  { db with «media» := db.media.filter fun row => row.id ≠ id }

/-- `delete from media where id = … returning *`. -/
def deleteMediaRow (id : Uuid) : Tx Database StoreKey ContentError (Option MediaRow) := do
  match ← Tx.forUpdate (.media id) (·.mediaRow id) with
  | none => return none
  | some row =>
    Tx.modify (·.withoutMedia id)
    return some row

def storeProgram : StoreCall → Tx Database StoreKey ContentError StoreAnswer
  | .content call => do
    let rows ← (program call).within StoreKey.content
    return .content rows
  | .deleteMedia id => do
    let row ← deleteMediaRow id
    return .media row

def storeEngine : Engine Database StoreKey where
  present db
    | .content key => db.present key
    | .media id => (db.mediaRow id).isSome
  valid db := decide db.Constraints

abbrev StoreMachine (I : Type) :=
  Machine Database StoreKey ContentError StoreCall StoreAnswer I

/-! ## What the five operations promise each other -/

/-- What no commit undoes.  Nothing is uploaded, so no asset appears. -/
structure StoreAlways (db db' : Database) : Prop where
  content : Always db db'
  absent : ∀ id, db.mediaRow id = none → db'.mediaRow id = none

def storeFrame : StoreKey → Database → Database → Prop
  | .content key, db, db' => frame key db db'
  | .media id, db, db' => db'.mediaRow id = db.mediaRow id

/-- What a committed call found, answered and left. -/
def StorePost : StoreCall → StoreAnswer → Database → Database → Prop
  | .content call, .content rows, found, left => Post call rows found left
  | .deleteMedia id, .media row, found, left =>
    row = found.mediaRow id ∧ left = found.withoutMedia id
  | _, _, _, _ => False

def storeDiscipline : Discipline Database StoreKey StoreCall StoreAnswer where
  inv := ContentsInv
  always := StoreAlways
  frame := storeFrame
  side _ _ := True
  before _ _ := True
  post := StorePost
  always_refl db := ⟨.refl db, fun _ h => h⟩
  always_trans _ _ h h' := ⟨h.content.trans h'.content, fun id hid => h'.absent id (h.absent id hid)⟩
  frame_refl k db := by
    cases k with
    | content key => exact frame_refl key db
    | «media» id => exact rfl
  frame_trans {k} _ _ _ h h' := by
    cases k with
    | content key => exact frame_trans h h'
    | «media» id => exact Eq.trans h' h

section Deletion
variable {db : Database} {id : Uuid}

theorem mediaRow_withoutMedia (j : Uuid) :
    (db.withoutMedia id).mediaRow j = if j = id then none else db.mediaRow j := by
  have := Rows.find_filter MediaRow.id db.media j fun i => decide (i ≠ id)
  by_cases hj : j = id
  · simpa [Database.mediaRow, Database.withoutMedia, hj] using this
  · simpa [Database.mediaRow, Database.withoutMedia, hj] using this

theorem withoutMedia_absent (h : db.mediaRow id = none) : db.withoutMedia id = db := by
  have hkeep : (db.media.filter fun row => decide (row.id ≠ id)) = db.media :=
    List.filter_eq_self.mpr fun row hrow => decide_eq_true (Rows.find_eq_none.mp h row hrow)
  rw [Database.withoutMedia, hkeep]

/-- The deletion of an asset keeps what the locks of content protect. -/
theorem frame_withoutMedia (key : RowKey) : frame key db (db.withoutMedia id) := by
  cases key with
  | doc j => exact fun _ => ⟨rfl, rfl, rfl, fun _ _ h => h⟩
  | group g => exact fun _ => ⟨rfl, fun _ => Iff.rfl⟩

theorem always_withoutMedia : StoreAlways db (db.withoutMedia id) where
  content := ⟨fun _ r h => .inl ⟨r, h, .refl r⟩, fun _ h => h⟩
  absent j hj := by
    rw [mediaRow_withoutMedia, hj]
    split
    · rfl
    · rfl

end Deletion

/-! ## The operations keep their promises -/

section Verified
variable {held : Set StoreKey} {db db' : Database}

/-- A call of the contents relies on no more than it did. -/
theorem rely_content {call : Call} (h : Rely storeDiscipline (.content call) held db db') :
    Rely (contentsDiscipline AnyOrder) call (Set.preimage .content held) db db' where
  inv := h.inv
  side := List.pairwise_of_forall fun _ _ => .inr trivial
  always := h.always.content
  frame key hkey := h.frame (.content key) hkey

/-- A call of the contents owes no more at its commit than it did. -/
theorem commits_content {call : Call} {rows : List ContentRow} {own : Database → Database}
    (h : Commits (contentsDiscipline AnyOrder) engine call rows (Set.preimage .content held) own db) :
    Commits storeDiscipline storeEngine (.content call) (.content rows) held own db := by
  intro db' hr hvalid
  obtain ⟨hinv, halways, hframe, hpost⟩ := h db' (rely_content hr) hvalid
  have hmedia : ∀ id, (own db').mediaRow id = db'.mediaRow id := fun id =>
    congrArg (fun rows => Rows.find MediaRow.id rows id) (Post.media hpost)
  refine ⟨hinv, ⟨halways, fun id hid => (hmedia id).trans hid⟩, fun k hk => ?_, hpost⟩
  cases k with
  | content key => exact hframe key hk
  | «media» id => exact hmedia id

theorem pre_deleteMedia {assetId : Uuid} :
    wp storeDiscipline storeEngine (.deleteMedia assetId)
      (Commits storeDiscipline storeEngine (.deleteMedia assetId))
      (storeProgram (.deleteMedia assetId)) ∅ id db := by
  rw [storeProgram, deleteMediaRow, Tx.bind_assoc]
  refine wp_forUpdate (fun _ _ => .inr trivial) (fun db1 hr1 hp => ?_) (fun db1 hr1 hp => ?_)
  · obtain ⟨row, hrow⟩ := Option.isSome_iff_exists.mp hp
    rw [id_eq] at hrow
    simp only [id_eq, hrow, Tx.bind_assoc]
    refine wp_modify ?_
    intro db2 hr2 hvalid
    -- The row was locked when it was read, and is the same still.
    have hsame : db2.mediaRow assetId = db1.mediaRow assetId :=
      hr2.frame (.media assetId) (Set.mem_insert _ _)
    refine ⟨⟨engine_valid hvalid, hr2.inv.tree⟩, always_withoutMedia, fun k hk => ?_,
      hrow.symm.trans hsame.symm, rfl⟩
    cases k with
    | content key => exact frame_withoutMedia key
    | «media» j =>
      have hne : j ≠ assetId := fun heq => hk (heq ▸ Set.mem_insert _ _)
      exact (mediaRow_withoutMedia j).trans (if_neg hne)
  · have hnone : db1.mediaRow assetId = none := Option.isNone_iff_eq_none.mp
      (by simpa [storeEngine] using hp)
    simp only [id_eq, hnone]
    intro db2 hr2 hvalid
    have hnone2 : db2.mediaRow assetId = none := hr2.always.absent assetId hnone
    exact ⟨hr2.inv, storeDiscipline.always_refl db2, fun k _ => storeDiscipline.frame_refl k db2,
      hnone2.symm, (withoutMedia_absent hnone2).symm⟩

/-- **The five operations keep their promises.** -/
theorem verified_store : Verified storeDiscipline storeEngine storeProgram := by
  intro call db hinv _
  cases call with
  | content call =>
    have hcall : wp (contentsDiscipline AnyOrder) engine call
        (Commits (contentsDiscipline AnyOrder) engine call) (program call)
        (Set.preimage StoreKey.content ∅) id db :=
      verified AnyOrder call db hinv (List.pairwise_of_forall fun _ _ => .inr trivial)
    apply wp_bind.mpr
    apply wp_within (h := hcall)
    · exact fun _ _ _ _ h => commits_content h
    · exact fun _ _ h => StoreKey.content.inj h
    · exact fun _ _ => rfl
    · exact fun _ _ => trivial
    · exact fun _ _ _ => rely_content
  | deleteMedia assetId => exact pre_deleteMedia

end Verified

section
variable {I : Type} [DecidableEq I] {db : Database} {m : StoreMachine I}

omit [DecidableEq I] in
theorem sides_store (m : StoreMachine I) : Sides storeDiscipline m := fun _ _ _ => trivial

omit [DecidableEq I] in
theorem start_store (hinv : ContentsInv db) :
    Sound storeDiscipline storeEngine (Machine.start db : StoreMachine I) :=
  .quiet (m := .start db) hinv (fun _ => rfl) fun _ => rfl

theorem store_sound (hinv : ContentsInv db)
    (hrun : Run storeEngine storeProgram (fun _ => True) (.start db) m) :
    Sound storeDiscipline storeEngine m :=
  verified_store.holds (fun m _ => sides_store m) (start_store hinv) hrun

theorem store_log (hinv : ContentsInv db)
    (hrun : Run storeEngine storeProgram (fun _ => True) (.start db) m) :
    ∀ e ∈ m.log, e.Meets storeDiscipline :=
  verified_store.log (fun m _ => sides_store m) (start_store hinv) hrun
    fun _ he => absurd he List.not_mem_nil

end

/-! ## The mirror -/

section Mirror
variable (types : List AnyContentType)

/-- The rows of every document are its references. -/
def Mirrored (db : Database) : Prop :=
  ∀ id r, db.content id = some r → ∃ type, registryGet types r.type = some type ∧
    ∀ row, row ∈ db.mediaOf id ↔
      ∃ reference ∈ mediaReferencesOf type r.blocks r.meta, row = reference.row id

/-- A call that a route makes, or the scheduler. -/
def Served (installation : Installation) (call : Call) : Prop :=
  (∃ actor, RouteCall installation actor call) ∨
    ∃ now stamps, call = .publishDueContent now stamps

end Mirror

section Kept
variable {types : List AnyContentType} {found left : Database}

/-- The rows of every document stay its references after a write that changes neither. -/
theorem Mirrored.same (h : Mirrored types found)
    (hcontent : ∀ j r', left.content j = some r' → ∃ r, found.content j = some r ∧
      r'.type = r.type ∧ r'.blocks = r.blocks ∧ r'.meta = r.meta)
    (hmedia : ∀ j r', left.content j = some r' → left.mediaOf j = found.mediaOf j) :
    Mirrored types left := by
  intro j r' hr'
  obtain ⟨r, hr, htype, hblocks, hmeta⟩ := hcontent j r' hr'
  rw [htype, hblocks, hmeta, hmedia j r' hr']
  exact h j r hr

/-- A row of a reference to a document is a row of that document. -/
theorem mem_mediaOf_syncMedia {db : Database} {gone added : List ContentMediaRow} {j : Uuid}
    (hadded : ∀ row ∈ added, row.contentId = j) {row : ContentMediaRow} :
    row ∈ (db.syncMedia gone added).mediaOf j ↔
      row ∈ added ∨ row ∈ db.mediaOf j ∧ row ∉ gone := by
  simp only [Database.mediaOf, Database.syncMedia, List.mem_filter, List.mem_append,
    List.mem_reverse, decide_eq_true_iff]
  constructor
  · rintro ⟨hrow | ⟨hrow, hgone⟩, hid⟩
    · exact .inl hrow
    · exact .inr ⟨⟨hrow, hid⟩, hgone⟩
  · rintro (hrow | ⟨⟨hrow, hid⟩, hgone⟩)
    · exact ⟨.inl hrow, hadded row hrow⟩
    · exact ⟨.inr ⟨hrow, hgone⟩, hid⟩

/-- **The difference is the right one**: with the rows gone that no reference names and
the ones added that were missing, the rows are those of the references, however
these are spelled. -/
theorem mem_mediaOf_synced (db : Database) (references : List ContentMediaReference) (j : Uuid)
    (row : ContentMediaRow) :
    row ∈ (db.syncMedia (goneRows (db.mediaOf j) references)
        ((addedReferences (db.mediaOf j) references).map (·.row j))).mediaOf j ↔
      ∃ reference ∈ references, row = reference.row j := by
  have hid : ∀ m ∈ db.mediaOf j, m.contentId = j := fun m hm =>
    of_decide_eq_true (List.mem_filter.mp hm).2
  have heq : ∀ m ∈ db.mediaOf j, ∀ reference : ContentMediaReference,
      reference.mediaId = Uuid.text m.mediaId → reference.source = m.source →
      m = reference.row j := by
    intro m hm reference htext hsource
    rw [ContentMediaReference.row, htext, hsource, Uuid.text_uuid, ← hid m hm]
  rw [mem_mediaOf_syncMedia fun row hrow => by
    obtain ⟨reference, -, rfl⟩ := List.mem_map.mp hrow
    rfl]
  constructor
  · rintro (hadded | ⟨hrow, hkept⟩)
    · obtain ⟨reference, hreference, rfl⟩ := List.mem_map.mp hadded
      exact ⟨reference, (List.mem_filter.mp hreference).1, rfl⟩
    · have hnamed : ∃ r ∈ references, r.mediaId = Uuid.text row.mediaId ∧ r.source = row.source := by
        by_contra hnot
        exact hkept (List.mem_filter.mpr ⟨hrow, decide_eq_true hnot⟩)
      obtain ⟨reference, hreference, htext, hsource⟩ := hnamed
      exact ⟨reference, hreference, heq row hrow reference htext hsource⟩
  · rintro ⟨reference, hreference, rfl⟩
    by_cases hheld : ∃ m ∈ db.mediaOf j, reference.mediaId = Uuid.text m.mediaId ∧
        reference.source = m.source
    · obtain ⟨m, hm, htext, hsource⟩ := hheld
      rw [← heq m hm reference htext hsource]
      exact .inr ⟨hm, fun hgone => of_decide_eq_true (List.mem_filter.mp hgone).2
        ⟨reference, hreference, htext, hsource⟩⟩
    · exact .inl (List.mem_map_of_mem (List.mem_filter.mpr ⟨hreference, decide_eq_true hheld⟩))

theorem mirrored_created {input : CreateContentInput} {fresh : Fresh} (hc : found.Constraints)
    (hnew : found.content fresh.id = none)
    (htype : registryGet types input.type.name = some input.type) (h : Mirrored types found) :
    Mirrored types (found.created input fresh) := by
  intro j r hr
  by_cases hj : j = fresh.id
  · subst hj
    rw [content_created, if_pos rfl] at hr
    obtain rfl := Option.some.inj hr
    refine ⟨input.type, htype, fun row => ?_⟩
    have hold : ((found.opened input fresh).insertContent
        (input.row fresh (input.groupId fresh))).mediaOf fresh.id = [] := by
      rw [mediaOf_opened]
      exact mediaOf_absent hc hnew
    have hsync := mem_mediaOf_synced
      ((found.opened input fresh).insertContent (input.row fresh (input.groupId fresh)))
      (mediaReferencesOf input.type input.state.blocks input.state.meta) fresh.id row
    rw [hold, goneRows_nil, addedReferences_nil] at hsync
    exact hsync
  · rw [content_created_of_ne hj] at hr
    rw [mediaOf_created_of_ne hj]
    exact h j r hr

theorem mirrored_updated {type : AnyContentType} {current : ContentRow} {next : ContentState}
    {stamps : Stamps} (hcur : found.content current.id = some current)
    (htype : registryGet types current.type = some type) (h : Mirrored types found) :
    Mirrored types (found.updated type current next stamps) := by
  intro j r hr
  by_cases hj : j = current.id
  · subst hj
    rw [content_updated hcur] at hr
    obtain rfl := Option.some.inj hr
    exact ⟨type, htype, mem_mediaOf_synced
      (found.superseded current stamps (next.write current stamps)) _ current.id⟩
  · rw [content_updated_of_ne hj] at hr
    rw [mediaOf_updated_of_ne hj]
    exact h j r hr

theorem mirrored_published (stamps : Stamps) {claimed : List ContentRow}
    (hnodup : (claimed.map (·.id)).Nodup)
    (hclaimed : ∀ r ∈ claimed, found.content r.id = some r) (h : Mirrored types found) :
    Mirrored types (claimed.foldl (·.published stamps) found) := by
  refine publishEach_kept stamps (fun db current hcur hdb => ?_) hnodup hclaimed h
  refine hdb.same (fun j r' hr' => ?_) fun _ _ _ => rfl
  by_cases hj : j = current.id
  · subst hj
    have hr' := (content_superseded hcur).symm.trans hr'
    obtain rfl := Option.some.inj hr'
    exact ⟨current, hcur, rfl, rfl, rfl⟩
  · exact ⟨r', (content_superseded_of_ne hj).symm.trans hr', rfl, rfl, rfl⟩

theorem mirrored_removed {current : ContentRow} (h : Mirrored types found) :
    Mirrored types (found.removed current) := by
  have hmedia : (found.removed current).contentMedia =
      (found.withoutDocument current.id).contentMedia := by
    rw [Database.removed]
    split
    · rfl
    · rfl
  refine h.same (fun j r' hr' => ?_) fun j r' hr' => ?_
  · rw [content_removed, content_withoutDocument] at hr'
    split at hr'
    · cases hr'
    · obtain ⟨r, hr, rfl⟩ := Option.map_eq_some_iff.mp hr'
      refine ⟨r, hr, ?_⟩
      split
      · exact ⟨rfl, rfl, rfl⟩
      · exact ⟨rfl, rfl, rfl⟩
  · have hne : j ≠ current.id := by
      rintro rfl
      rw [content_removed, content_withoutDocument, if_pos rfl] at hr'
      cases hr'
    rw [Database.mediaOf, hmedia]
    exact @Database.mediaOf_deleteContent_of_ne (found.childrenDetached current.id) _ _ hne

/-- **No write takes a document and its rows apart.** -/
theorem Post.mirrored {installation : Installation} {call : Call} {answer : List ContentRow}
    (hnames : (installation.types.map AnyContentType.name).Nodup) (hc : found.Constraints)
    (hserved : Served installation call) (hpost : Post call answer found left)
    (h : Mirrored installation.types found) : Mirrored installation.types left := by
  cases call with
  | createContent input fresh =>
    obtain ⟨-, hnew, -, rfl⟩ := hpost
    obtain ⟨actor, hroute⟩ | ⟨now, stamps, hcall⟩ := hserved
    · cases hroute with
      | create _ _ htype _ => exact mirrored_created hc hnew (registryGet_of_mem hnames htype) h
    · cases hcall
  | updateContent type docId patch options stamps =>
    obtain ⟨-, rfl⟩ | ⟨current, next, hcur, hnext, -, rfl⟩ := hpost
    · exact h
    · obtain rfl : current.id = docId := Database.id_of_content hcur
      obtain ⟨actor, hroute⟩ | ⟨now, stamps, hcall⟩ := hserved
      · cases hroute with
        | update _ _ _ _ _ htype hasks =>
          have hmay := nextState_authorized hnext hasks
          rw [mayWrite, Bool.and_eq_true] at hmay
          have hname : current.type = type.name := of_decide_eq_true hmay.1
          exact mirrored_updated hcur (hname ▸ registryGet_of_mem hnames htype) h
      · cases hcall
  | deleteContent docId authorize =>
    obtain ⟨-, rfl⟩ | ⟨current, -, -, -, rfl⟩ := hpost
    · exact h
    · exact mirrored_removed h
  | publishDueContent now stamps =>
    obtain ⟨claimed, hnodup, hclaimed, -, rfl⟩ := hpost
    exact mirrored_published stamps hnodup (fun r hr => (hclaimed r hr).1) h

/-- The rows of every document stay its references when an asset is deleted. -/
theorem mirrored_withoutMedia {id : Uuid} (h : Mirrored types found) :
    Mirrored types (found.withoutMedia id) := h

end Kept

/-! ## What is named -/

/-- A document names the asset. -/
def Named (types : List AnyContentType) (db : Database) (assetId : Uuid) : Prop :=
  ∃ r ∈ db.contents, ∃ type, registryGet types r.type = some type ∧
    ∃ reference ∈ mediaReferencesOf type r.blocks r.meta, reference.mediaId.uuid = assetId

/-- What a creation or an update would write names the asset. -/
def CallNames (db : Database) (assetId : Uuid) : Call → Prop
  | .createContent input _ =>
    ∃ reference ∈ mediaReferencesOf input.type input.state.blocks input.state.meta,
      reference.mediaId.uuid = assetId
  | .updateContent type docId patch options _ =>
    ∃ current next, db.content docId = some current ∧
      nextState type current patch options = .ok next ∧
      ∃ reference ∈ mediaReferencesOf type next.blocks next.meta,
        reference.mediaId.uuid = assetId
  | _ => False

section Named
variable {types : List AnyContentType} {found left : Database} {assetId : Uuid}

/-- Where the mirror is exact, a row says which assets are named. -/
theorem Named.row (hc : found.Constraints) (hmirror : Mirrored types found)
    (h : Named types found assetId) : ∃ row ∈ found.contentMedia, row.mediaId = assetId := by
  obtain ⟨r, hr, type, htype, reference, hreference, rfl⟩ := h
  obtain ⟨type', htype', hrows⟩ := hmirror r.id r (Database.content_of_mem hc hr)
  rw [htype] at htype'
  obtain rfl := Option.some.inj htype'
  have hrow := (hrows (reference.row r.id)).mpr ⟨reference, hreference, rfl⟩
  exact ⟨_, (List.mem_filter.mp hrow).1, rfl⟩

/-- The database refuses to delete an asset that a document names. -/
theorem Named.inUse (hc : found.Constraints) (hmirror : Mirrored types found)
    (h : Named types found assetId) : found.deleteMedia assetId = .error .inUse := by
  obtain ⟨row, hrow, hid⟩ := h.row hc hmirror
  exact if_pos (List.any_eq_true.mpr ⟨row, hrow, decide_eq_true hid⟩)

/-- A deletion that leaves the constraints met is of an asset no document names. -/
theorem Named.not_deleted (hc : found.Constraints) (hmirror : Mirrored types found)
    (h : Named types found assetId) : ¬ (found.withoutMedia assetId).Constraints := by
  intro hleft
  obtain ⟨row, hrow, hid⟩ := h.row hc hmirror
  obtain ⟨asset, hasset, heq⟩ := hleft.content_media_media_fk row hrow
  exact of_decide_eq_true (List.mem_filter.mp hasset).2 (heq.trans hid)

/-- Whoever commits a name finds the asset. -/
theorem CallNames.present {call : Call} {answer : List ContentRow}
    (hpost : Post call answer found left) (hleft : left.Constraints)
    (h : CallNames found assetId call) :
    (answer = [] ∧ left = found) ∨ found.mediaRow assetId ≠ none := by
  have hasset : (∃ row ∈ left.contentMedia, row.mediaId = assetId) →
      found.mediaRow assetId ≠ none := by
    rintro ⟨row, hrow, rfl⟩ hnone
    obtain ⟨asset, hasset, heq⟩ := hleft.content_media_media_fk row hrow
    rw [Post.media hpost] at hasset
    exact Rows.find_eq_none.mp hnone asset hasset heq
  cases call with
  | createContent input fresh =>
    obtain ⟨-, -, -, rfl⟩ := hpost
    obtain ⟨reference, hreference, hid⟩ := h
    refine .inr (hasset ⟨reference.row fresh.id, ?_, hid⟩)
    exact List.mem_append_left _ (List.mem_reverse.mpr (List.mem_map_of_mem hreference))
  | updateContent type docId patch options stamps =>
    obtain hnothing | ⟨current, next, hcur, hnext, -, rfl⟩ := hpost
    · exact .inl hnothing
    · obtain ⟨current', next', hcur', hnext', reference, hreference, hid⟩ := h
      obtain rfl := Option.some.inj (hcur.symm.trans hcur')
      obtain rfl := Except.ok.inj (hnext.symm.trans hnext')
      refine .inr (hasset ⟨reference.row current.id, ?_, hid⟩)
      have hrow := (mem_mediaOf_synced
        (found.superseded current stamps (next.write current stamps)) _ current.id _).mpr
        ⟨reference, hreference, rfl⟩
      exact (List.mem_filter.mp hrow).1
  | deleteContent docId authorize => exact absurd h id
  | publishDueContent now stamps => exact absurd h id

/-- An exact mirror has the references of every document for its rows. -/
theorem mirrored_of_exact (hkey : (found.contents.map ContentRow.id).Nodup)
    (hcomplete : Complete (registryGet types) found)
    (h : MirrorExact (registryGet types) found) : Mirrored types found := by
  intro id r hr
  obtain ⟨type, htype, -⟩ := hcomplete r (Database.mem_of_content hr)
  refine ⟨type, htype, fun row => ?_⟩
  constructor
  · intro hrow
    obtain ⟨hrow, hid⟩ := List.mem_filter.mp hrow
    obtain ⟨r', hr', type', htype', reference, hreference, rfl⟩ := (h row).mp hrow
    have hid : r'.id = id := of_decide_eq_true hid
    have hsame : found.content r'.id = some r' := Rows.find_of_mem hkey hr'
    rw [hid, hr] at hsame
    obtain rfl := Option.some.inj hsame
    obtain rfl := Option.some.inj (htype.symm.trans htype')
    exact ⟨reference, hreference, by rw [hid]⟩
  · rintro ⟨reference, hreference, rfl⟩
    refine List.mem_filter.mpr ⟨(h _).mpr ?_, decide_eq_true rfl⟩
    exact ⟨r, Database.mem_of_content hr, type, htype, reference, hreference,
      by rw [Database.id_of_content hr]⟩

/-- **What a reconciliation that ended ready leaves** is where runs start from. -/
theorem mirrored_of_ready {now : Nat} {marker : MediaReferenceSync} (hc : found.Constraints)
    (h : (reconciled (registryGet types) now ⟨found, some marker⟩).mayStart = true) :
    Mirrored types (reconciled (registryGet types) now ⟨found, some marker⟩).db := by
  by_cases hclean : Clean (registryGet types) found
  · obtain ⟨rows, result, hrun, -, hmirror⟩ := reconcile_ready now marker hc hclean
    rw [reconciled_of_ok hrun]
    have hcomplete : Complete (registryGet types) { found with contentMedia := rows } :=
      (clean_iff.mp hclean).1
    exact mirrored_of_exact hc.contents_pkey hcomplete hmirror
  · obtain ⟨result, hrun, -⟩ := reconcile_pending now marker hclean
    rw [reconciled_of_ok hrun] at h
    cases h

end Named

/-! ## Runs -/

/-- What runs do to the mirror. -/
structure MirrorKept {I : Type} [DecidableEq I] (types : List AnyContentType)
    (m : StoreMachine I) : Prop where
  /-- The rows of every document are its references, as uuids. -/
  mirrored : ∀ db ∈ m.states, Mirrored types db
  present : ∀ db ∈ m.states, ∀ row ∈ db.contentMedia, ∃ asset ∈ db.media, asset.id = row.mediaId
  /-- The deletion of an asset that a document names is refused. -/
  inUse : ∀ i r assetId, m.running i = some r → r.call = .deleteMedia assetId →
    Named types m.db assetId → ∀ a m', a.actor = i → m.step storeEngine storeProgram a = some m' →
      m'.db = m.db ∧ m'.log = m.log
  /-- A write that names an absent asset changes nothing.  All that can be committed of
  it is that an update found no document. -/
  absent : ∀ i r call assetId, m.running i = some r → r.call = .content call →
    CallNames m.db assetId call → m.db.mediaRow assetId = none →
    ∀ a m', a.actor = i → m.step storeEngine storeProgram a = some m' →
      m'.db = m.db ∧ ∀ e ∈ m'.log, e ∈ m.log ∨ e.answer = .content []

section
variable {I : Type} [DecidableEq I] {db : Database} {m : StoreMachine I}
  {installation : Installation}

theorem store_states (hinv : ContentsInv db)
    (hrun : Run storeEngine storeProgram (fun _ => True) (.start db) m) :
    ∀ s ∈ m.states, ContentsInv s := by
  intro s hs
  rcases List.mem_cons.mp hs with rfl | hs
  · exact (store_sound hinv hrun).inv
  · obtain ⟨e, he, rfl⟩ := List.mem_map.mp hs
    exact (store_log hinv hrun e he).found

/-- One commit keeps the mirror. -/
theorem StorePost.mirrored {call : StoreCall} {answer : StoreAnswer} {found left : Database}
    (hnames : (installation.types.map AnyContentType.name).Nodup) (hc : found.Constraints)
    (hserved : ∀ c, call = .content c → Served installation c)
    (hpost : StorePost call answer found left) (h : Mirrored installation.types found) :
    Mirrored installation.types left := by
  cases call with
  | content c =>
    cases answer with
    | content rows => exact Post.mirrored hnames hc (hserved c rfl) hpost h
    | «media» row => exact hpost.elim
  | deleteMedia id =>
    cases answer with
    | content rows => exact hpost.elim
    | «media» row =>
      obtain ⟨-, rfl⟩ := hpost
      exact mirrored_withoutMedia h

/-- **The mirror of media references.**  In every run from an exact mirror, in every
committed state, the rows of each document are the references of the document and
each names an asset that is there; no asset is deleted while a document names it,
and nothing is written that names an asset that is not there. -/
theorem media_mirror (hnames : (installation.types.map AnyContentType.name).Nodup)
    (hinv : ContentsInv db) (hready : Mirrored installation.types db)
    (hrun : Run storeEngine storeProgram (fun _ => True) (.start db) m)
    (hserved : ∀ e ∈ m.log, ∀ call, e.call = .content call → Served installation call) :
    MirrorKept installation.types m := by
  have hmirror : ∀ s ∈ m.states, Mirrored installation.types s :=
    hrun.linked.invariant hready fun e he =>
      have hmeets := store_log hinv hrun e he
      StorePost.mirrored hnames hmeets.found.constraints (hserved e he) hmeets.post
  have hsound := store_sound hinv hrun
  refine ⟨hmirror, fun s hs => (store_states hinv hrun s hs).constraints.content_media_media_fk,
    fun i r assetId hr hcall hnamed a m' ha hs => ?_,
    fun i r call assetId hr hcall hnames habsent a m' ha hs => ?_⟩
  · rcases Machine.step_db hs with hsame | ⟨j, call, answer, own, rfl, hj, hvalid, -, -⟩
    · exact hsame
    · -- A commit would leave the row of the document without an asset.
      exfalso
      obtain rfl : j = i := ha
      obtain rfl := Option.some.inj (hr.symm.trans hj)
      obtain rfl : call = .deleteMedia assetId := hcall
      obtain ⟨hleft, -, -, hpost⟩ :=
        hsound.rest j _ hj m.db (.refl hsound.inv trivial) hvalid
      cases answer with
      | content rows => exact hpost.elim
      | «media» row =>
        have hown : own m.db = m.db.withoutMedia assetId := hpost.2
        have hleft : ContentsInv (m.db.withoutMedia assetId) := hown ▸ hleft
        exact hnamed.not_deleted hsound.inv.constraints (hmirror m.db List.mem_cons_self)
          hleft.constraints
  · rcases Machine.step_db hs with ⟨hdb, hlog⟩ | ⟨j, c, answer, own, rfl, hj, hvalid, hdb, hlog⟩
    · exact ⟨hdb, fun e he => .inl (hlog ▸ he)⟩
    · obtain rfl : j = i := ha
      obtain rfl := Option.some.inj (hr.symm.trans hj)
      obtain rfl : c = .content call := hcall
      obtain ⟨hleft, -, -, hpost⟩ :=
        hsound.rest j _ hj m.db (.refl hsound.inv trivial) hvalid
      cases answer with
      | «media» row => exact hpost.elim
      | content rows =>
        obtain ⟨rfl, hown⟩ | hpresent := CallNames.present hpost hleft.constraints hnames
        · refine ⟨hdb.trans hown, fun e he => ?_⟩
          rw [hlog] at he
          rcases List.mem_cons.mp he with rfl | he
          · exact .inr rfl
          · exact .inl he
        · exact absurd habsent hpresent

end

/-! ### A picture and its page -/

/-- What the contributor asks for: the page, with the picture named in capitals, and
its deletion. -/
def pictureRequests : List ContentRequest :=
  [.post "page" (some ⟨"en", none,
      { emptyPage "about" none with blocks := [.image ⟨50, 0⟩ ⟨7, 1⟩ none] }⟩),
    .delete "page" (some 1)]

def pictureCalls : List Call := pictureRequests.map contributorCall

/-- The page, a deletion of the picture that is refused, the deletion of the page, and
the deletion of the picture. -/
def pictureLife : List (Action StoreCall Nat) :=
  match pictureCalls with
  | [post, delete] =>
    .begin_ 0 (.content post) :: List.replicate 4 (.advance 0) ++ .commit 0 ::
      .begin_ 1 (.deleteMedia 7) :: .advance 1 :: .advance 1 :: .rollback 1 ::
      .begin_ 0 (.content delete) :: List.replicate 7 (.advance 0) ++ .commit 0 ::
      [.begin_ 1 (.deleteMedia 7), .advance 1, .advance 1, .commit 1]
  | _ => []

theorem pictureCalls_served : ∀ call ∈ pictureCalls, Served builtinSite call := by
  intro call hcall
  obtain ⟨request, hrequest, rfl⟩ := List.mem_map.mp hcall
  have hok : ∀ request ∈ pictureRequests, (contributed request).isOk = true := by decide
  obtain ⟨request', moment, db, hhandle⟩ := contributorCall_requested (hok request hrequest)
  exact .inl ⟨contributor, ContentRequest.handle_call hhandle⟩

theorem mirrored_empty (types : List AnyContentType) («media» : List MediaRow) :
    Mirrored types (Database.empty «media») := by
  intro id r hr
  cases hr

theorem media_mirror_picture : ∃ m : StoreMachine Nat,
    (Machine.start (Database.empty [photo])).steps storeEngine storeProgram pictureLife = some m ∧
    (m.db.media = [] ∧ m.log.length = 3) ∧ MirrorKept builtinSite.types m := by
  have heval : ((Machine.start (Database.empty [photo]) : StoreMachine Nat).steps storeEngine
      storeProgram pictureLife).any (fun m =>
        decide (m.db.media = [] ∧ m.log.length = 3)) = true := by decide +kernel
  have hcalls : ((Machine.start (Database.empty [photo]) : StoreMachine Nat).steps storeEngine
      storeProgram pictureLife).map (fun m => m.log.map (·.call)) =
      some (.deleteMedia 7 :: pictureCalls.reverse.map .content) := rfl
  obtain ⟨m, hm, hrun, hcheck⟩ := Run.of_eval heval
  rw [hm] at hcalls
  refine ⟨m, hm, of_decide_eq_true hcheck,
    media_mirror (by decide) (empty_inv [photo]) (mirrored_empty _ _) hrun fun e he call hcall => ?_⟩
  have hmem : StoreCall.content call ∈ StoreCall.deleteMedia 7 ::
      pictureCalls.reverse.map StoreCall.content :=
    Option.some.inj hcalls ▸ hcall ▸ List.mem_map_of_mem he
  obtain ⟨call', hcall', heq⟩ := List.mem_map.mp ((List.mem_cons.mp hmem).resolve_left nofun)
  exact StoreCall.content.inj heq ▸ pictureCalls_served call' (List.mem_reverse.mp hcall')

end PressLabz
