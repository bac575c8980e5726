import PressLabz.ContentListing
import PressLabz.Restore

/-! # What the reading routes disclose

The routes of `apps/api/src/content/routes.ts` that answer with documents and write
nothing: the listing and one document, as `ContentListing` has them, a document's
translations, its history, one revision of it, and a link to its preview.

Each judges the document it is asked about, and again every other document that its
answer carries.  `reads_agree` says what that comes to: two databases that an actor sees
the same of (`SameView`) answer every request of the actor alike, whatever else they
hold.  And a revision that is shown is shown as the restore would leave it
(`revision_shown`).
-/
namespace PressLabz

/-! ## Translations -/

/-- All members of a group, in the order of their languages. -/
def Database.listTranslations (db : Database) (translationGroupId : Uuid) : List ContentRow :=
  (db.membersOf translationGroupId).insertionSort fun a b => a.locale ≤ b.locale

structure TranslationsResponse where
  translations : List SerializedContent
  /-- Whether a translation may be started here. -/
  create : Bool

/-! ## Revisions -/

/-- The list's projection of one revision. -/
structure RevisionSummary where
  id : Uuid
  version : Nat
  slug : String
  title : String
  excerpt : Option String
  status : ContentStatus
  publishedAt : Option Nat
  archivedAt : Nat

def summarizeRevision (revision : ContentRevisionRow) : RevisionSummary where
  id := revision.id
  version := revision.version
  slug := revision.slug
  title := revision.title
  excerpt := revision.excerpt
  status := revision.status
  publishedAt := revision.publishedAt
  archivedAt := revision.createdAt

/-- One revision: the state the type made of it, or the summary alone. -/
inductive RevisionDetail where
  | incompatible (summary : RevisionSummary)
  | compatible (id : Uuid) (version archivedAt : Nat) (state : ContentState)

/-- `stateOfRevision`, as the type's schema is handed it. -/
def ContentRevisionRow.stated (revision : ContentRevisionRow) : MergedState where
  slug := revision.slug
  title := revision.title
  excerpt := .ofNullable revision.excerpt
  status := revision.status
  blocks := revision.blocks
  «meta» := revision.meta
  publishedAt := .ofNullable revision.publishedAt
  parentId := .ofNullable (revision.parentId.map Uuid.text)

def revisionDetail (type : AnyContentType) (revision : ContentRevisionRow) : RevisionDetail :=
  match type.stateSchema revision.stated with
  | none => .incompatible (summarizeRevision revision)
  | some state =>
    let summary := summarizeRevision revision
    .compatible summary.id summary.version summary.archivedAt state

/-! ## Previews -/

/-- The environment of the preview route: `url` is the address of a token that names a
document until an instant, in the language of the document. -/
structure PreviewSettings where
  available : Bool
  ttlSeconds : Nat
  url : String → Uuid → Nat → String

structure PreviewResponse where
  url : String
  expiresAt : Nat

/-! ## The routes -/

/-- A signed-in request that reads; none stands for a path or a query that a schema refused. -/
inductive ContentRead where
  | list (type : String) (query : Option ListQuery)
  | get (type : String) (id : Option Uuid)
  | translations (type : String) (id : Option Uuid)
  | revisions (type : String) (id : Option Uuid)
  | revision (type : String) (ids : Option (Uuid × Uuid))
  | preview (type : String) (id : Option Uuid)

inductive ReadAnswer where
  | listed (response : ListResponse)
  | document (content : SerializedContent)
  | translations (response : TranslationsResponse)
  | revisions (summaries : List RevisionSummary)
  | revision (detail : RevisionDetail)
  | preview (response : PreviewResponse)

section Routes
variable (installation : Installation) (settings : PreviewSettings) (actor : Actor) (now : Nat)
  (db : Database)

/-- The document of an id, if it is of the type. -/
def Database.documentOf (type : AnyContentType) (id : Uuid) : Option ContentRow :=
  (db.content id).filter fun row => row.type = type.name

/-- What every route does first that names a document: it is looked up, and judged. -/
def Database.judged {α : Type} (db : Database) (type : AnyContentType) (id : Uuid)
    (may : ContentRow → Bool) (read : ContentRow → Except Refusal α) : Except Refusal α :=
  match db.documentOf type id with
  | none => .error ⟨404, "not_found", none⟩
  | some row => if !may row then .error ⟨403, "forbidden", none⟩ else read row

def mayRead (type : AnyContentType) (row : ContentRow) : Bool :=
  canReadDocument type actor row.authorId row.status

/-- The members that may be read, and what the whole group allows. -/
def readTranslations (type : AnyContentType) (id : Uuid) : Except Refusal TranslationsResponse :=
  db.judged type id (mayRead actor type) fun row =>
    let group := db.listTranslations row.translationGroupId
    let readable := group.filter (mayRead actor type)
    .ok
      { translations := readable.map (serializeContent type actor)
        create := canJoinTranslationGroup type actor
          (group.map fun member => (member.authorId, member.status)) }

/-- History is open to whoever may edit the document as it stands. -/
def readRevisions (type : AnyContentType) (id : Uuid) : Except Refusal (List RevisionSummary) :=
  db.judged type id (mayEditCurrent actor type) fun row =>
    .ok ((db.listRevisions row.id REVISION_LIMIT).map summarizeRevision)

def readRevision (type : AnyContentType) (id revisionId : Uuid) :
    Except Refusal RevisionDetail :=
  db.judged type id (mayEditCurrent actor type) fun row =>
    match (db.findRevision revisionId).filter fun r => r.contentId = row.id with
    | none => .error ⟨404, "not_found", some "revision-not-found"⟩
    | some revision => .ok (revisionDetail type revision)

def readPreview (type : AnyContentType) (id : Uuid) : Except Refusal PreviewResponse :=
  if !settings.available then
    .error ⟨503, "preview_unavailable", some "no-preview-configuration"⟩
  else
    db.judged type id (mayRead actor type) fun row =>
      let expiresAt := now + settings.ttlSeconds * 1000
      .ok ⟨settings.url row.locale row.id expiresAt, expiresAt⟩

/-- A route that names one document. -/
def withDocument {α : Type} (name : String) (id : Option Uuid)
    (read : AnyContentType → Uuid → Except Refusal α) : Except Refusal α := do
  let type ← resolveType installation name
  match id with
  | none => .error ⟨400, "invalid_request", none⟩
  | some id => read type id

def ContentRead.answer : ContentRead → Except Refusal ReadAnswer
  | .list type query => (handleList installation actor db type query).map .listed
  | .get type id => (handleGet installation actor db type id).map .document
  | .translations type id =>
    (withDocument installation type id (readTranslations actor db)).map .translations
  | .revisions type id =>
    (withDocument installation type id (readRevisions actor db)).map .revisions
  | .revision type ids => (do
      let type ← resolveType installation type
      match ids with
      | none => .error ⟨400, "invalid_request", none⟩
      | some (id, revisionId) => readRevision actor db type id revisionId).map .revision
  | .preview type id =>
    (withDocument installation type id (readPreview settings actor now db)).map .preview

end Routes

/-! ## What an actor sees -/

section View
variable {installation : Installation} {settings : PreviewSettings} {type : AnyContentType}
  {actor : Actor} {now : Nat} {db db' : Database} {row : ContentRow} {id : Uuid}

/-- A document of the type that some answer to the actor may be about: one they may read
or edit, or wrote. -/
def isSeen (type : AnyContentType) (actor : Actor) (row : ContentRow) : Bool :=
  row.type = type.name && (canReadDocument type actor row.authorId row.status ||
    canPerform type .update actor row.authorId || decide (row.authorId = actor.id))

/-- Two databases the actor sees the same of: the same documents, the same history of
those they may edit, and of the others no more than which ids are taken by the type and
whether a group the actor can read in may be joined. -/
structure SameView (type : AnyContentType) (actor : Actor) (db db' : Database) : Prop where
  rows : db.contents.filter (isSeen type actor) = db'.contents.filter (isSeen type actor)
  taken : ∀ id, (db.documentOf type id).isSome = (db'.documentOf type id).isSome
  history : ∀ row ∈ db.contents, row.type = type.name → mayEditCurrent actor type row = true →
    db.revisionsOf row.id = db'.revisionsOf row.id
  joins : ∀ row ∈ db.contents, row.type = type.name →
    canReadDocument type actor row.authorId row.status = true →
    canJoinTranslationGroup type actor ((db.listTranslations row.translationGroupId).map
        fun member => (member.authorId, member.status)) =
      canJoinTranslationGroup type actor ((db'.listTranslations row.translationGroupId).map
        fun member => (member.authorId, member.status))

theorem isSeen_of_read (htype : row.type = type.name)
    (h : canReadDocument type actor row.authorId row.status = true) :
    isSeen type actor row = true := by
  simp [isSeen, htype, h]

/-- Whoever may edit a document as it stands sees it. -/
theorem isSeen_of_edit (htype : row.type = type.name)
    (h : mayEditCurrent actor type row = true) : isSeen type actor row = true := by
  have hupdate : canPerform type .update actor row.authorId = true := by
    rw [mayEditCurrent, canWrite, List.all_eq_true] at h
    refine h .update ?_
    unfold operationsForWrite
    dsimp only
    split
    · exact List.mem_cons_self
    · exact List.mem_cons_self
  simp [isSeen, htype, hupdate]

/-- A query that asks only for what the actor sees finds the same in both databases. -/
theorem SameView.filter (h : SameView type actor db db') {p : ContentRow → Bool}
    (hp : ∀ row ∈ db.contents, p row = true → isSeen type actor row = true)
    (hp' : ∀ row ∈ db'.contents, p row = true → isSeen type actor row = true) :
    db.contents.filter p = db'.contents.filter p := by
  have hseen : ∀ rows : List ContentRow,
      (∀ row ∈ rows, p row = true → isSeen type actor row = true) →
      rows.filter p = (rows.filter (isSeen type actor)).filter p := by
    intro rows hrows
    rw [List.filter_filter]
    refine List.filter_congr fun row hrow => ?_
    cases hpr : p row with
    | false => rfl
    | true => rw [hrows row hrow hpr]; rfl
  rw [hseen _ hp, hseen _ hp', h.rows]

theorem documentOf_some (h : db.documentOf type id = some row) :
    db.content id = some row ∧ row ∈ db.contents ∧ row.type = type.name ∧ row.id = id := by
  obtain ⟨hrow, htype⟩ := Option.filter_eq_some_iff.mp h
  exact ⟨hrow, Database.mem_of_content hrow, of_decide_eq_true htype, Database.id_of_content hrow⟩

theorem documentOf_of_mem (hc : db.Constraints) (hrow : row ∈ db.contents)
    (htype : row.type = type.name) : db.documentOf type row.id = some row :=
  Option.filter_eq_some_iff.mpr ⟨Database.content_of_mem hc hrow, decide_eq_true htype⟩

/-- A document that is seen is the same document. -/
theorem SameView.document (h : SameView type actor db db') (hc' : db'.Constraints)
    (hrow : db.documentOf type id = some row) (hseen : isSeen type actor row = true) :
    db'.documentOf type id = some row := by
  obtain ⟨-, hmem, htype, rfl⟩ := documentOf_some hrow
  have hfilter : row ∈ db'.contents.filter (isSeen type actor) :=
    h.rows ▸ List.mem_filter.mpr ⟨hmem, hseen⟩
  exact documentOf_of_mem hc' (List.mem_filter.mp hfilter).1 htype

theorem SameView.symm_document (h : SameView type actor db db') (hc : db.Constraints)
    (hrow : db'.documentOf type id = some row) (hseen : isSeen type actor row = true) :
    db.documentOf type id = some row := by
  obtain ⟨-, hmem, htype, rfl⟩ := documentOf_some hrow
  have hfilter : row ∈ db.contents.filter (isSeen type actor) :=
    h.rows ▸ List.mem_filter.mpr ⟨hmem, hseen⟩
  exact documentOf_of_mem hc (List.mem_filter.mp hfilter).1 htype

/-- **A route that judges its document** by something that shows it, and then looks at
nothing else that differs, answers the same. -/
theorem SameView.judged {α : Type} (h : SameView type actor db db') (hc : db.Constraints)
    (hc' : db'.Constraints) {may : ContentRow → Bool}
    (hmay : ∀ row, row.type = type.name → may row = true → isSeen type actor row = true)
    {read read' : ContentRow → Except Refusal α}
    (hread : ∀ row ∈ db.contents, row ∈ db'.contents → row.type = type.name → may row = true →
      read row = read' row) :
    db.judged type id may read = db'.judged type id may read' := by
  have htaken := h.taken id
  unfold Database.judged
  cases hrow : db.documentOf type id with
  | none =>
    cases hrow' : db'.documentOf type id with
    | none => rfl
    | some row' =>
      rw [hrow, hrow'] at htaken
      cases htaken
  | some row =>
    cases hrow' : db'.documentOf type id with
    | none =>
      rw [hrow, hrow'] at htaken
      cases htaken
    | some row' =>
      obtain ⟨-, hmem, htype, -⟩ := documentOf_some hrow
      obtain ⟨-, hmem', htype', -⟩ := documentOf_some hrow'
      cases hcan : may row with
      | true =>
        have hsame := h.document hc' hrow (hmay row htype hcan)
        obtain rfl : row = row' := Option.some.inj (hsame.symm.trans hrow')
        simp only [hcan, Bool.not_true, Bool.false_eq_true, if_false]
        exact hread row hmem hmem' htype hcan
      | false =>
        -- what the actor may not see here, the actor may not see there
        have hcan' : may row' = false := by
          by_contra hyes
          have hsame := h.symm_document hc hrow' (hmay row' htype' (by simpa using hyes))
          obtain rfl : row = row' := Option.some.inj (hrow.symm.trans hsame)
          exact hyes hcan
        simp only [hcan, hcan', Bool.not_false, if_true]

/-! ## The routes agree -/

theorem SameView.get (h : SameView type actor db db') (hc : db.Constraints)
    (hc' : db'.Constraints) : readDocument type actor id db = readDocument type actor id db' := by
  show db.judged type id (mayRead actor type) (fun row => .ok (serializeContent type actor row)) =
    db'.judged type id (mayRead actor type) fun row => .ok (serializeContent type actor row)
  exact h.judged hc hc' (fun _ => isSeen_of_read) fun _ _ _ _ _ => rfl

/-- The members of a group that may be read are seen. -/
theorem SameView.translations (h : SameView type actor db db') (hc : db.Constraints)
    (hc' : db'.Constraints) :
    readTranslations actor db type id = readTranslations actor db' type id := by
  refine h.judged hc hc' (fun _ => isSeen_of_read) fun row hmem hmem' htype hcan => ?_
  have hreadable : ∀ db : Database, (db.listTranslations row.translationGroupId).filter
      (mayRead actor type) = (db.contents.filter fun r =>
        mayRead actor type r && decide (r.translationGroupId = row.translationGroupId)).insertionSort
          fun a b => a.locale ≤ b.locale := by
    intro db
    have : IsTrans ContentRow fun a b => a.locale ≤ b.locale := ⟨fun _ _ _ => String.le_trans⟩
    have : Std.Total fun a b : ContentRow => a.locale ≤ b.locale := ⟨fun _ _ => String.le_total _ _⟩
    rw [Database.listTranslations, Keyset.filter_insertionSort, Database.membersOf,
      List.filter_filter]
  have hseen : ∀ db : Database, db.Constraints → row ∈ db.contents → ∀ r ∈ db.contents,
      (mayRead actor type r && decide (r.translationGroupId = row.translationGroupId)) = true →
      isSeen type actor r = true := by
    intro db hc hmem r hr hp
    rw [Bool.and_eq_true, decide_eq_true_eq] at hp
    exact isSeen_of_read ((Database.translation_type hc hr hmem hp.2).trans htype) hp.1
  dsimp only
  rw [hreadable db, hreadable db', h.filter (hseen db hc hmem) (hseen db' hc' hmem'),
    h.joins row hmem htype hcan]

theorem SameView.revisions (h : SameView type actor db db') (hc : db.Constraints)
    (hc' : db'.Constraints) : readRevisions actor db type id = readRevisions actor db' type id := by
  refine h.judged hc hc' (fun _ => isSeen_of_edit) fun row hmem _ htype hedit => ?_
  rw [Database.listRevisions, Database.listRevisions, h.history row hmem htype hedit]

/-- A revision is found among those of its document, or is none of them. -/
theorem findRevision_filter (hc : db.Constraints) (id rid : Uuid) :
    (db.findRevision rid).filter (fun r => r.contentId = id) =
      Rows.find ContentRevisionRow.id (db.revisionsOf id) rid := by
  cases hfind : db.findRevision rid with
  | none =>
    have hnone := Rows.find_eq_none.mp hfind
    exact (Rows.find_eq_none.mpr fun r hr => hnone r (List.mem_filter.mp hr).1).symm
  | some r =>
    have hmem := Rows.mem_of_find hfind
    have hid : r.id = rid := Rows.key_of_find hfind
    by_cases hown : r.contentId = id
    · have hnodup : ((db.revisionsOf id).map ContentRevisionRow.id).Nodup :=
        hc.content_revisions_pkey.sublist (List.filter_sublist.map _)
      have hfound := Rows.find_of_mem hnodup (List.mem_filter.mpr ⟨hmem, decide_eq_true hown⟩)
      rw [hid] at hfound
      rw [hfound]
      simp [hown]
    · have hnone : Rows.find ContentRevisionRow.id (db.revisionsOf id) rid = none := by
        refine Rows.find_eq_none.mpr fun v hv heq => hown ?_
        have hv' := List.mem_filter.mp hv
        have hsame := Rows.find_of_mem hc.content_revisions_pkey hv'.1
        rw [heq] at hsame
        obtain rfl : r = v := Option.some.inj (hfind.symm.trans hsame)
        exact of_decide_eq_true hv'.2
      rw [hnone]
      simp [hown]

theorem SameView.revision (h : SameView type actor db db') (hc : db.Constraints)
    (hc' : db'.Constraints) (rid : Uuid) :
    readRevision actor db type id rid = readRevision actor db' type id rid := by
  refine h.judged hc hc' (fun _ => isSeen_of_edit) fun row hmem _ htype hedit => ?_
  rw [findRevision_filter hc, findRevision_filter hc', h.history row hmem htype hedit]

theorem SameView.preview (h : SameView type actor db db') (hc : db.Constraints)
    (hc' : db'.Constraints) :
    readPreview settings actor now db type id = readPreview settings actor now db' type id := by
  unfold readPreview
  split
  · rfl
  · exact h.judged hc hc' (fun _ => isSeen_of_read) fun _ _ _ _ _ => rfl

/-- Whatever the listing holds is seen. -/
theorem isSeen_of_listed (hread : canPerform type .read actor none = true)
    (huser : actor.id.isSome = true) {locale : String} {status : Option (List ContentStatus)}
    (h : listFilters (listingQuery type actor locale status) row = true) :
    isSeen type actor row = true := by
  rcases (listFilters_iff hread huser).mp h with hreadable | hdisowned
  · simp only [Readable, Bool.and_eq_true, decide_eq_true_eq] at hreadable
    exact isSeen_of_read hreadable.1.1.1 hreadable.2
  · simp only [Disowned, Bool.and_eq_true, decide_eq_true_eq] at hdisowned
    simp [isSeen, hdisowned.1.1.1.1.1, hdisowned.1.1.2]

/-- A document of the type that the filter of a query lets through is seen. -/
theorem isSeen_of_visible (hread : canPerform type .read actor none = true)
    (htype : row.type = type.name)
    (h : (if seesEverything type actor then none else some actor.id).all (isVisibleTo · row) =
      true) : isSeen type actor row = true := by
  cases hall : seesEverything type actor with
  | true =>
    exact isSeen_of_read htype ((canReadDocument_iff hread).mpr (.inr (canPerform_any hall)))
  | false =>
    simp only [hall, Bool.false_eq_true, if_false, Option.all_some, isVisibleTo, Bool.or_eq_true,
      decide_eq_true_eq, Bool.and_eq_true] at h
    rcases h with hpublic | ⟨-, hauthor⟩
    · exact isSeen_of_read htype ((canReadDocument_iff hread).mpr (.inl hpublic))
    · simp [isSeen, htype, hauthor]

/-- The siblings that a listing reads, of documents of the type, are the same in both databases. -/
theorem SameView.siblings (h : SameView type actor db db') (hc : db.Constraints)
    (hc' : db'.Constraints) (hread : canPerform type .read actor none = true)
    {page : List ContentRow} (hpage : ∀ r ∈ page, r ∈ db.contents ∧ r.type = type.name)
    (hpage' : ∀ r ∈ page, r ∈ db'.contents) (locale : String) :
    db.listSiblingsAcrossLocales (page.map (·.translationGroupId)) locale
        (if seesEverything type actor then none else some actor.id) =
      db'.listSiblingsAcrossLocales (page.map (·.translationGroupId)) locale
        (if seesEverything type actor then none else some actor.id) := by
  have hseen : ∀ db : Database, db.Constraints → (∀ r ∈ page, r ∈ db.contents) →
      ∀ r ∈ db.contents, (decide (r.translationGroupId ∈ page.map (·.translationGroupId)) &&
        decide (r.locale ≠ locale) && (if seesEverything type actor then none
          else some actor.id).all (isVisibleTo · r)) = true → isSeen type actor r = true := by
    intro db hc hmem r hr hp
    rw [Bool.and_eq_true, Bool.and_eq_true, decide_eq_true_eq] at hp
    obtain ⟨⟨hgroup, -⟩, hvisible⟩ := hp
    obtain ⟨p, hp, hsame⟩ := List.mem_map.mp hgroup
    exact isSeen_of_visible hread
      ((Database.translation_type hc hr (hmem p hp) hsame.symm).trans (hpage p hp).2) hvisible
  unfold Database.listSiblingsAcrossLocales
  rw [h.filter (hseen db hc fun r hr => (hpage r hr).1) (hseen db' hc' hpage')]

/-- **The listing is the same** in both databases, with its counts and the siblings it carries. -/
theorem SameView.list (h : SameView type actor db db') (hc : db.Constraints)
    (hc' : db'.Constraints) (hread : canPerform type .read actor none = true)
    (huser : actor.id.isSome = true) (query : ListQuery) (after : Option Cursor) :
    listPage type actor query after db = listPage type actor query after db' := by
  have hfilter : db.contents.filter
        (listFilters (listingQuery type actor query.locale query.status)) =
      db'.contents.filter (listFilters (listingQuery type actor query.locale query.status)) :=
    h.filter (fun _ _ => isSeen_of_listed hread huser) fun _ _ => isSeen_of_listed hread huser
  have hmem : ∀ db : Database, ∀ limit, ∀ r ∈ db.listContents { listingQuery type actor
      query.locale query.status with limit := limit, after := after },
      r ∈ db.contents ∧ r.type = type.name := by
    intro db limit r hr
    have hr := List.mem_filter.mp (Keyset.mem_remaining.mp (List.mem_of_mem_take hr)).1
    simp only [listFilters, Bool.and_eq_true, decide_eq_true_eq] at hr
    exact ⟨hr.1, hr.2.1.1.1⟩
  have hlist : ∀ limit, db.listContents { listingQuery type actor query.locale query.status with
        limit := limit, after := after } =
      db'.listContents { listingQuery type actor query.locale query.status with
        limit := limit, after := after } := by
    intro limit
    show (Keyset.remaining _ _ (db.contents.filter
      (listFilters (listingQuery type actor query.locale query.status)))).take _ = _
    rw [hfilter]
    rfl
  have hcount : db.countContents (listingQuery type actor query.locale query.status) =
      db'.countContents (listingQuery type actor query.locale query.status) := by
    unfold Database.countContents
    rw [hfilter]
  unfold listPage
  simp only [hlist, hcount]
  rw [show (listingQuery type actor query.locale query.status).visibleTo =
    if seesEverything type actor then none else some actor.id from rfl,
    h.siblings hc hc' hread ?_ ?_ query.locale]
  · intro r hr
    have hmoved : r ∈ db.listContents { listingQuery type actor query.locale query.status with
        limit := some (query.limit + 1), after := after } := by
      rw [hlist]
      exact List.mem_of_mem_take hr
    exact hmem db _ r hmoved
  · exact fun r hr => (hmem db' _ r (List.mem_of_mem_take hr)).1

end View

/-! ## No request tells two such databases apart -/

section Requests
variable {installation : Installation} {settings : PreviewSettings} {actor : Actor} {now : Nat}
  {db db' : Database}

theorem resolveType_mem {name : String} {type : AnyContentType}
    (h : resolveType installation name = .ok type) : type ∈ installation.types := by
  unfold resolveType at h
  split at h
  · cases h
  · rename_i found hfind
    obtain rfl := Except.ok.inj h
    exact List.mem_of_find?_eq_some hfind

theorem withDocument_congr {α : Type} {name : String} {id : Option Uuid}
    {read read' : AnyContentType → Uuid → Except Refusal α}
    (h : ∀ type ∈ installation.types, ∀ id, read type id = read' type id) :
    withDocument installation name id read = withDocument installation name id read' := by
  unfold withDocument
  cases hfind : resolveType installation name with
  | error e => rfl
  | ok type =>
    cases id with
    | none => rfl
    | some id => exact h type (resolveType_mem hfind) id

/-- **An actor learns nothing of what the actor may not see**: two databases of which the
actor sees the same answer every reading request alike, refusals included. -/
theorem reads_agree (hc : db.Constraints) (hc' : db'.Constraints)
    (huser : actor.id.isSome = true)
    (hview : ∀ type ∈ installation.types, SameView type actor db db') (request : ContentRead) :
    request.answer installation settings actor now db =
      request.answer installation settings actor now db' := by
  cases request with
  | list name query =>
    refine congrArg (Except.map ReadAnswer.listed) ?_
    unfold handleList
    cases hfind : resolveType installation name with
    | error e => rfl
    | ok type =>
      have h := hview type (resolveType_mem hfind)
      show (if _ then _ else _) = if _ then _ else _
      by_cases hread : canPerform type .read actor none = true
      · simp only [hread, not_true_eq_false, if_false]
        split
        · rfl
        · split
          · rfl
          · rw [h.list hc hc' hread huser]
          · rw [h.list hc hc' hread huser]
      · rw [if_pos hread, if_pos hread]
  | get name id =>
    refine congrArg (Except.map ReadAnswer.document) ?_
    show withDocument installation name id (fun type id => readDocument type actor id db) =
      withDocument installation name id fun type id => readDocument type actor id db'
    exact withDocument_congr fun type htype id => (hview type htype).get hc hc'
  | translations name id =>
    exact congrArg (Except.map ReadAnswer.translations)
      (withDocument_congr fun type htype id => (hview type htype).translations hc hc')
  | revisions name id =>
    exact congrArg (Except.map ReadAnswer.revisions)
      (withDocument_congr fun type htype id => (hview type htype).revisions hc hc')
  | revision name ids =>
    refine congrArg (Except.map ReadAnswer.revision) ?_
    cases hfind : resolveType installation name with
    | error e => rfl
    | ok type =>
      cases ids with
      | none => rfl
      | some ids => exact (hview type (resolveType_mem hfind)).revision hc hc' ids.2
  | preview name id =>
    exact congrArg (Except.map ReadAnswer.preview)
      (withDocument_congr fun type htype id => (hview type htype).preview hc hc')

end Requests

/-! ### A draft of somebody else's -/

/-- A page that is a draft of the eighth user. -/
def draftDatabase (title : String) : Database where
  contents := [{
    slug := "plans", title := title, excerpt := none, status := .draft, blocks := [],
    «meta» := [], publishedAt := none, parentId := none,
    id := 1, type := "page", locale := "en", translationGroupId := 2, authorId := some 8,
    version := 1, createdAt := 0, updatedAt := 0 }]
  groups := [⟨2, "page"⟩]
  revisions := []
  contentMedia := []
  «media» := []
  retired := []

theorem sameView_draft (title title' : String) :
    SameView (pageType fun _ => false) contributor (draftDatabase title) (draftDatabase title') := by
  have hdocument : ∀ title id, ((draftDatabase title).documentOf (pageType fun _ => false)
      id).isSome = decide (1 = id) := by
    intro title id
    by_cases hid : 1 = id
    · subst hid
      rfl
    · simp [Database.documentOf, Database.content, Rows.find, draftDatabase, hid]
  refine ⟨rfl, fun id => by rw [hdocument, hdocument], fun row hrow _ hedit => ?_,
    fun row hrow _ hread => ?_⟩
  · obtain rfl := List.mem_singleton.mp hrow
    exact absurd hedit Bool.false_ne_true
  · obtain rfl := List.mem_singleton.mp hrow
    exact absurd hread Bool.false_ne_true

theorem reads_agree_draft :
    (ContentRead.list "page" (some ⟨"en", none, 20, none, by decide, by decide⟩)).answer
        ⟨[pageType fun _ => false], fun _ => true⟩ ⟨true, 900, fun _ _ _ => ""⟩ contributor 0
        (draftDatabase "Growth") =
      (ContentRead.list "page" (some ⟨"en", none, 20, none, by decide, by decide⟩)).answer
        ⟨[pageType fun _ => false], fun _ => true⟩ ⟨true, 900, fun _ _ _ => ""⟩ contributor 0
        (draftDatabase "Layoffs") := by
  have hc : ∀ title, (draftDatabase title).Constraints := by
    intro title
    constructor <;> simp [draftDatabase]
  refine reads_agree (hc _) (hc _) rfl (fun type htype => ?_) _
  obtain rfl := List.mem_singleton.mp htype
  exact sameView_draft _ _

/-! ## What a revision shows -/

section Shown
open RowLocks
variable {I : Type} [DecidableEq I] {«media» : List MediaRow} {m : ContentMachine I} {p : Platform}
  {servesLocale : String → Bool} {settings : PreviewSettings} {actor : Actor} {now : Nat}
  {db : Database} {name : String} {id rid : Uuid} {detail : RevisionDetail}

/-- What is judged to be shown is what is judged to be restored, over whatever row. -/
theorem stateOfRevision_over (v : ContentRevisionRow) (row : ContentRow) :
    (stateOfRevision v).over row.toState = v.stated := by
  simp only [Patch.over, stateOfRevision, ContentRevisionRow.stated, Option.getD_some,
    Nullish.over_ofNullable]

/-- An answered revision is one of the document, judged by the document's own type. -/
theorem ContentRead.answer_revision
    (h : (ContentRead.revision name (some (id, rid))).answer (p.installation servesLocale) settings
      actor now db = .ok (.revision detail)) :
    ∃ options ∈ builtinOptions, ∃ row v, db.content id = some row ∧ row.type = options.name ∧
      db.findRevision rid = some v ∧ v.contentId = id ∧
      detail = revisionDetail (defineContentType p.isSafeHref options) v := by
  simp only [ContentRead.answer] at h
  cases hresolve : resolveType (p.installation servesLocale) name with
  | error e => rw [hresolve] at h; cases h
  | ok type =>
    obtain ⟨options, hoptions, -, rfl⟩ := resolveType_options hresolve
    rw [hresolve] at h
    replace h : (readRevision actor db _ id rid).map ReadAnswer.revision = _ := h
    unfold readRevision Database.judged at h
    cases hrow : db.documentOf (defineContentType p.isSafeHref options) id with
    | none => rw [hrow] at h; cases h
    | some row =>
      rw [hrow] at h
      obtain ⟨hcontent, -, htype, rfl⟩ := documentOf_some hrow
      dsimp only at h
      split at h
      · cases h
      · split at h
        · cases h
        · rename_i v hv
          obtain ⟨hfind, hown⟩ := Option.filter_eq_some_iff.mp hv
          cases h
          exact ⟨options, hoptions, row, v, hcontent, htype, hfind, of_decide_eq_true hown, rfl⟩

/-- **What is shown is what a restore leaves.**  In a run of the API, a revision that is
answered was compatible, and every accepted restore of it, whatever it found, left the
document in the state that was shown. -/
theorem revision_shown
    (hrun : Run engine program (fun _ => True) (.start (Database.empty «media»)) m)
    (hissued : ∀ e ∈ m.log, Issued p servesLocale e.call) (hdb : db ∈ m.states)
    (h : (ContentRead.revision name (some (id, rid))).answer (p.installation servesLocale) settings
      actor now db = .ok (.revision detail)) :
    ∃ v, db.findRevision rid = some v ∧
      detail = .compatible rid v.version v.createdAt v.state ∧
      ∀ e row, Restores m p servesLocale e id v row →
        e.left.content id = some row ∧ row.state = v.state := by
  obtain ⟨options, hoptions, row, v, hrow, htype, hfind, hown, rfl⟩ := ContentRead.answer_revision h
  obtain ⟨own, hownOptions, hownName, hfits⟩ := run_historyFits hrun hissued db hdb v
    (Rows.mem_of_find hfind) row (hown.symm ▸ hrow)
  obtain rfl : own = options := builtinOptions_inj hownOptions hoptions (hownName.symm.trans htype)
  have hstate : own.stateSchema p.isSafeHref v.stated = some v.state :=
    stateOfRevision_over v row ▸ hfits.restored row
  refine ⟨v, hfind, ?_, fun e after hrestored => ?_⟩
  · obtain rfl : v.id = rid := Rows.key_of_find hfind
    show (match own.stateSchema p.isSafeHref v.stated with
      | none => RevisionDetail.incompatible (summarizeRevision v)
      | some state => .compatible v.id v.version v.createdAt state) = _
    rw [hstate]
  · obtain ⟨hleft, hcolumns, -⟩ := restores_spec hrun hissued hrestored
    exact ⟨hleft, congrArg Columns.state hcolumns⟩

/-! ### The excerpt that was cleared -/

/-- The first revision of the post whose excerpt was cleared, as the publisher is shown it. -/
def shownFirst (db : Database) : Except Refusal ReadAnswer :=
  (ContentRead.revision "post" (some (1, 500))).answer
    (plainPlatform.installation fun _ => true) ⟨false, 0, fun _ _ _ => ""⟩ publisher 3 db

def isShown : Except Refusal ReadAnswer → Bool
  | .ok (.revision _) => true
  | _ => false

theorem revision_shown_post : ∃ m : ContentMachine Nat,
    (Machine.start (Database.empty [])).steps engine program
      (inTurn (clearPost ++ [restorePost])) = some m ∧
    ∃ v, m.db.findRevision 500 = some v ∧
      shownFirst m.db = .ok (.revision (.compatible 500 v.version v.createdAt v.state)) ∧
      ∀ e row, Restores m plainPlatform (fun _ => true) e 1 v row →
        e.left.content 1 = some row ∧ row.state = v.state := by
  have heval : ((Machine.start (Database.empty []) : ContentMachine Nat).steps engine program
      (inTurn (clearPost ++ [restorePost]))).any (fun m => isShown (shownFirst m.db)) = true := by
    decide +kernel
  have hcalls : ((Machine.start (Database.empty []) : ContentMachine Nat).steps engine program
      (inTurn (clearPost ++ [restorePost]))).map (fun m => m.log.map (·.call)) =
      some (clearPost ++ [restorePost]).reverse := rfl
  obtain ⟨m, hm, hrun, hcheck⟩ := Run.of_eval heval
  rw [hm] at hcalls
  have hissued : ∀ e ∈ m.log, Issued plainPlatform (fun _ => true) e.call := by
    intro e he
    have hmem : e.call ∈ (clearPost ++ [restorePost]).reverse :=
      Option.some.inj hcalls ▸ List.mem_map_of_mem he
    simp only [clearPost, restorePost, List.cons_append, List.nil_append, List.mem_reverse,
      List.mem_cons, List.not_mem_nil, or_false] at hmem
    rcases hmem with h | h | h
    all_goals exact h ▸ requestIn_issued _ _ _
  cases hshown : shownFirst m.db with
  | error e => rw [hshown] at hcheck; cases hcheck
  | ok answer =>
    cases answer with
    | revision detail =>
      obtain ⟨v, hfind, rfl, hrestored⟩ :=
        revision_shown hrun hissued List.mem_cons_self hshown
      exact ⟨m, hm, v, hfind, hshown, hrestored⟩
    | _ => rw [hshown] at hcheck; cases hcheck

end Shown

end PressLabz
