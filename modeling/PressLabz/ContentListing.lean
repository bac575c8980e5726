import Mathlib.Data.Prod.Lex
import PressLabz.ContentRoutes
import PressLabz.Keyset

/-! # The content listing

`GET /content/:type` and `GET /content/:type/:id` of
`apps/api/src/content/routes.ts`, with the queries of
`packages/db/src/repositories/contents.ts` they are made of.  A page of the
listing is a page by key (`Keyset`), of microseconds and ids; a cursor carries
milliseconds, as the `Date` it is made of does.

Who may read a document is said twice: by `canReadDocument` of one document, and
by the filter of the query.  They agree unless somebody wrote documents that they
may not edit any more (`listing_agrees`).  Following the cursors loses no document
that stays, exactly where no page splits a millisecond and none is of the largest size
(`listing_walk`).
-/
namespace PressLabz

def DEFAULT_PAGE_SIZE : Nat := 25
def MAX_PAGE_SIZE : Nat := 100

/-! ## Places in the listing -/

/-- A decoded cursor: the instant is in milliseconds. -/
structure Cursor where
  at_ : Nat
  id : Uuid
  deriving DecidableEq

/-- `(updated_at, id)`. -/
def ContentRow.place (row : ContentRow) : Nat ×ₗ Uuid := toLex (row.updatedAt, row.id)

/-- `(at::timestamptz, id::uuid)`. -/
def Cursor.place (cursor : Cursor) : Nat ×ₗ Uuid := toLex (cursor.at_ * 1000, cursor.id)

/-- `{ at: row.updatedAt, id: row.id }`; a `Date` has no microseconds. -/
def Cursor.ofRow (row : ContentRow) : Cursor := ⟨row.updatedAt / 1000, row.id⟩

/-- What a cursor makes of a place. -/
def truncated (place : Nat ×ₗ Uuid) : Nat ×ₗ Uuid :=
  toLex ((ofLex place).1 / 1000 * 1000, (ofLex place).2)

theorem truncated_le (place : Nat ×ₗ Uuid) : truncated place ≤ place := by
  rw [Prod.Lex.le_iff]
  have := Nat.div_mul_le_self (ofLex place).1 1000
  unfold truncated
  rcases Nat.lt_or_eq_of_le this with hlt | heq
  · exact .inl hlt
  · exact .inr ⟨heq, le_refl _⟩

/-! ## Queries -/

/-- `visibleTo` is absent for an actor who sees everything, and null for nobody. -/
structure ListContentsQuery where
  type : String
  locale : String
  statuses : Option (List ContentStatus)
  visibleTo : Option (Option Uuid)
  limit : Option Nat := none
  after : Option Cursor := none

/-- A document is visible to an author if it is published or theirs. -/
def isVisibleTo (authorId : Option Uuid) (row : ContentRow) : Bool :=
  row.status ∈ publicContentStatuses || (authorId.isSome && row.authorId = authorId)

/-- The filter of the statuses; an empty one filters nothing. -/
def statusMatches (statuses : Option (List ContentStatus)) (status : ContentStatus) : Bool :=
  statuses.all fun statuses => statuses.isEmpty || status ∈ statuses

def listFilters (query : ListContentsQuery) (row : ContentRow) : Bool :=
  row.type = query.type && row.locale = query.locale && statusMatches query.statuses row.status &&
    query.visibleTo.all (isVisibleTo · row)

def pageSize (limit : Option Nat) : Nat := min MAX_PAGE_SIZE (max 1 (limit.getD DEFAULT_PAGE_SIZE))

namespace Database
variable (db : Database)

def listContents (query : ListContentsQuery) : List ContentRow :=
  (Keyset.remaining ContentRow.place (query.after.map Cursor.place)
    (db.contents.filter (listFilters query))).take (pageSize query.limit)

/-- The total, and how many of them are drafts. -/
def countContents (query : ListContentsQuery) : Nat × Nat :=
  let rows := db.contents.filter (listFilters query)
  (rows.length, (rows.filter (·.status = .draft)).length)

def listSiblingsAcrossLocales (groupIds : List Uuid) (excludeLocale : String)
    (visibleTo : Option (Option Uuid)) : List ContentRow :=
  if groupIds = [] then []
  else (db.contents.filter fun row => row.translationGroupId ∈ groupIds &&
    row.locale ≠ excludeLocale && visibleTo.all (isVisibleTo · row)).insertionSort
      fun a b => b.updatedAt ≤ a.updatedAt

end Database

/-! ## The routes -/

/-- A document as a response carries it. -/
structure SerializedContent extends ContentRow where
  permissions : DocumentPermissions

def serializeContent (type : AnyContentType) (actor : Actor) (row : ContentRow) :
    SerializedContent :=
  { row with permissions := permissionsForDocument type actor row.authorId row.status }

/-- What `listQuery` made of a query.  The cursor is what `decodeCursor` made of its text,
and none where the text is no cursor. -/
structure ListQuery where
  locale : String
  status : Option (List ContentStatus)
  limit : Nat
  cursor : Option (Option Cursor)
  limit_pos : 1 ≤ limit
  limit_max : limit ≤ MAX_PAGE_SIZE

structure ListGroup where
  translationGroupId : Uuid
  primary : SerializedContent
  /-- The fields of the object, by locale. -/
  siblings : List (String × SerializedContent)

structure ListResponse where
  groups : List ListGroup
  total : Nat
  drafts : Nat
  nextCursor : Option Cursor

section Routes
variable (type : AnyContentType) (actor : Actor)

/-- The loop over the siblings; a group that is not in the map is `{}`. -/
def collectSiblings (byGroup : Uuid → List (String × SerializedContent)) :
    List ContentRow → Uuid → List (String × SerializedContent)
  | [] => byGroup
  | row :: rest =>
    if !canReadDocument type actor row.authorId row.status then collectSiblings byGroup rest
    else
      collectSiblings (Function.update byGroup row.translationGroupId
        (assign (byGroup row.translationGroupId) row.locale (serializeContent type actor row))) rest

def seesEverything : Bool := canPerform type .update actor none

/-- The query both the listing and the counts are made of. -/
def listingQuery (locale : String) (status : Option (List ContentStatus)) : ListContentsQuery where
  type := type.name
  locale := locale
  statuses := status
  visibleTo := if seesEverything type actor then none else some actor.id

/-- The response to a query, from the page after the cursor. -/
def listPage (query : ListQuery) (after : Option Cursor) (db : Database) : ListResponse :=
  let filters := listingQuery type actor query.locale query.status
  let rows := db.listContents { filters with limit := some (query.limit + 1), after := after }
  let page := rows.take query.limit
  let nextCursor := if rows.length > page.length then page.getLast?.map Cursor.ofRow else none
  let siblings := db.listSiblingsAcrossLocales (page.map (·.translationGroupId)) query.locale
    filters.visibleTo
  let byGroup := collectSiblings type actor (fun _ => []) siblings
  let counts := db.countContents filters
  { groups := page.map fun row =>
      ⟨row.translationGroupId, serializeContent type actor row, byGroup row.translationGroupId⟩
    total := counts.1
    drafts := counts.2
    nextCursor := nextCursor }

/-- The answer to the id of a document of a type. -/
def readDocument (id : Uuid) (db : Database) : Except Refusal SerializedContent :=
  match (db.content id).filter fun row => row.type = type.name with
  | none => .error ⟨404, "not_found", none⟩
  | some row =>
    if !canReadDocument type actor row.authorId row.status then .error ⟨403, "forbidden", none⟩
    else .ok (serializeContent type actor row)

end Routes

/-- `GET /content/:type`. -/
def handleList (installation : Installation) (actor : Actor) (db : Database) (name : String)
    (query : Option ListQuery) : Except Refusal ListResponse := do
  let type ← resolveType installation name
  if ¬ canPerform type .read actor none then .error ⟨403, "forbidden", none⟩
  else
    match query with
    | none => .error ⟨400, "invalid_request", none⟩
    | some query =>
      match query.cursor with
      | some none => .error ⟨400, "invalid_request", some "bad-cursor"⟩
      | some (some cursor) => .ok (listPage type actor query (some cursor) db)
      | none => .ok (listPage type actor query none db)

/-- `GET /content/:type/:id`. -/
def handleGet (installation : Installation) (actor : Actor) (db : Database) (name : String)
    (id : Option Uuid) : Except Refusal SerializedContent := do
  let type ← resolveType installation name
  match id with
  | none => .error ⟨400, "invalid_request", none⟩
  | some id => readDocument type actor id db

/-! ## Who may read what -/

section Reading
variable {type : AnyContentType} {actor : Actor} {db : Database} {row : ContentRow}

/-- Whoever may not perform an operation on anybody's document may perform it on
what they own, if at all. -/
theorem canPerform_owned {operation : ContentOperation} {authorId : Option Uuid}
    (h : canPerform type operation actor none = false) :
    canPerform type operation actor authorId = true ↔
      authorId = actor.id ∧ canPerform type operation actor actor.id = true := by
  unfold canPerform allows at h ⊢
  by_cases hany : (type.access operation).any ∈ actor.capabilities
  · simp [hany] at h
  · cases hown : (type.access operation).own with
    | none => simp [hany]
    | some own =>
      by_cases hcap : own ∈ actor.capabilities
      · cases hid : actor.id with
        | none => simp [hany, hcap]
        | some user => simp [hany, hcap, eq_comm]
      · simp [hany, hcap]

/-- Whoever may perform an operation on anybody's document may perform it on this
one. -/
theorem canPerform_any {operation : ContentOperation} {authorId : Option Uuid}
    (h : canPerform type operation actor none = true) :
    canPerform type operation actor authorId = true := by
  unfold canPerform allows at h ⊢
  by_cases hany : (type.access operation).any ∈ actor.capabilities
  · rw [if_pos hany]
  · rw [if_neg hany] at h
    split at h
    · cases h
    · split at h
      · cases hid : actor.id with
        | none => simp [hid] at h
        | some user => simp [hid] at h
      · cases h

theorem canReadDocument_iff (hread : canPerform type .read actor none = true)
    {authorId : Option Uuid} {status : ContentStatus} :
    canReadDocument type actor authorId status = true ↔
      status ∈ publicContentStatuses ∨ canPerform type .update actor authorId = true := by
  unfold canReadDocument
  rw [hread]
  by_cases hpublic : status ∈ publicContentStatuses
  · simp [hpublic]
  · simp [hpublic]

/-- The filter of the query lets through whatever may be read. -/
theorem canRead_visible (hread : canPerform type .read actor none = true)
    (huser : actor.id.isSome = true)
    (h : canReadDocument type actor row.authorId row.status = true) :
    (if seesEverything type actor then none else some actor.id).all (isVisibleTo · row) = true := by
  cases hall : seesEverything type actor with
  | true => rfl
  | false =>
    unfold isVisibleTo
    rcases (canReadDocument_iff hread).mp h with hpublic | hupdate
    · simp [hpublic]
    · obtain ⟨hauthor, -⟩ := (canPerform_owned hall).mp hupdate
      simp [huser, hauthor]

/-- What an actor should see in a listing. -/
def Readable (type : AnyContentType) (actor : Actor) (locale : String)
    (status : Option (List ContentStatus)) (row : ContentRow) : Bool :=
  row.type = type.name && row.locale = locale && statusMatches status row.status &&
    canReadDocument type actor row.authorId row.status

/-- A document the actor wrote, may not edit any more, and finds in the listing. -/
def Disowned (type : AnyContentType) (actor : Actor) (locale : String)
    (status : Option (List ContentStatus)) (row : ContentRow) : Bool :=
  row.type = type.name && row.locale = locale && statusMatches status row.status &&
    row.authorId = actor.id && row.status ∉ publicContentStatuses &&
    !canPerform type .update actor actor.id

/-- **The filter of the query is the rule**, and lets through what the actor wrote. -/
theorem listFilters_iff (hread : canPerform type .read actor none = true)
    (huser : actor.id.isSome = true) {locale : String} {status : Option (List ContentStatus)} :
    listFilters (listingQuery type actor locale status) row = true ↔
      Readable type actor locale status row = true ∨
        Disowned type actor locale status row = true := by
  unfold listFilters Readable Disowned listingQuery
  by_cases hkind : (row.type = type.name ∧ row.locale = locale) ∧
      statusMatches status row.status = true
  · obtain ⟨⟨htype, hlocale⟩, hstatus⟩ := hkind
    simp only [htype, hlocale, hstatus, decide_true, Bool.true_and]
    constructor
    · intro hvisible
      cases hall : seesEverything type actor with
      | true => exact .inl ((canReadDocument_iff hread).mpr (.inr (canPerform_any hall)))
      | false =>
        simp only [hall, Bool.false_eq_true, if_false, Option.all_some, isVisibleTo,
          Bool.or_eq_true, decide_eq_true_eq, Bool.and_eq_true] at hvisible
        by_cases hpublic : row.status ∈ publicContentStatuses
        · exact .inl ((canReadDocument_iff hread).mpr (.inl hpublic))
        · obtain ⟨-, hauthor⟩ := hvisible.resolve_left hpublic
          cases hown : canPerform type .update actor actor.id with
          | true =>
            exact .inl ((canReadDocument_iff hread).mpr (.inr (hauthor ▸ hown)))
          | false => exact .inr (by simp [hauthor, hpublic])
    · rintro (hcan | hdisowned)
      · exact canRead_visible hread huser hcan
      · simp only [Bool.and_eq_true, decide_eq_true_eq, Bool.not_eq_true'] at hdisowned
        obtain ⟨⟨hauthor, -⟩, hno⟩ := hdisowned
        cases hall : seesEverything type actor with
        | true => rfl
        | false => simp [isVisibleTo, huser, hauthor]
  · have hno : (decide (row.type = type.name) && decide (row.locale = locale) &&
        statusMatches status row.status) = false := by
      rw [Bool.eq_false_iff]
      intro h
      exact hkind (by simpa using h)
    simp [hno]

end Reading

/-! ## The siblings -/

section Siblings
variable {type : AnyContentType} {actor : Actor} {db : Database}

/-- No field is set twice: what is in the object is what was there and what was
collected. -/
theorem mem_collectSiblings {rows : List ContentRow}
    {byGroup : Uuid → List (String × SerializedContent)} {g : Uuid}
    {e : String × SerializedContent}
    (hdistinct : rows.Pairwise fun a b =>
      ¬ (a.translationGroupId = b.translationGroupId ∧ a.locale = b.locale))
    (hnew : ∀ row ∈ rows, ∀ f ∈ byGroup row.translationGroupId, f.1 ≠ row.locale) :
    e ∈ collectSiblings type actor byGroup rows g ↔ e ∈ byGroup g ∨ ∃ row ∈ rows,
      row.translationGroupId = g ∧ canReadDocument type actor row.authorId row.status = true ∧
        e = (row.locale, serializeContent type actor row) := by
  induction rows generalizing byGroup with
  | nil => simp [collectSiblings]
  | cons row rest ih =>
    obtain ⟨hrow, hrest⟩ := List.pairwise_cons.mp hdistinct
    unfold collectSiblings
    cases hcan : canReadDocument type actor row.authorId row.status with
    | false =>
      rw [if_pos (by rfl), ih hrest fun x hx => hnew x (List.mem_cons_of_mem _ hx)]
      simp [hcan]
    | true =>
      -- the field is new, so that the object grows by it
      have hassign : assign (byGroup row.translationGroupId) row.locale
          (serializeContent type actor row) = byGroup row.translationGroupId ++
            [(row.locale, serializeContent type actor row)] := by
        unfold assign
        rw [if_neg]
        simpa using fun x hx => hnew row List.mem_cons_self (row.locale, x) hx rfl
      rw [if_neg (by simp), hassign, ih hrest]
      · by_cases hg : g = row.translationGroupId
        · subst hg
          rw [Function.update_self]
          simp [hcan, or_assoc]
        · rw [Function.update_of_ne hg]
          simp [hcan, Ne.symm hg]
      -- and no later row has the same field
      · intro x hx f hf
        by_cases hg : x.translationGroupId = row.translationGroupId
        · rw [hg, Function.update_self] at hf
          rcases List.mem_append.mp hf with hf | hf
          · exact hnew x (List.mem_cons_of_mem _ hx) f (hg ▸ hf)
          · obtain rfl := List.mem_singleton.mp hf
            exact fun heq => hrow x hx ⟨hg.symm, heq⟩
        · rw [Function.update_of_ne hg] at hf
          exact hnew x (List.mem_cons_of_mem _ hx) f hf

/-- **The siblings of a group** are its other locales that may be read. -/
theorem mem_siblings (hc : db.Constraints) (hread : canPerform type .read actor none = true)
    (huser : actor.id.isSome = true) {groupIds : List Uuid} {locale : String} {g : Uuid}
    (hg : g ∈ groupIds) {e : String × SerializedContent} :
    e ∈ collectSiblings type actor (fun _ => []) (db.listSiblingsAcrossLocales groupIds locale
        (if seesEverything type actor then none else some actor.id)) g ↔
      ∃ row ∈ db.contents, row.translationGroupId = g ∧ row.locale ≠ locale ∧
        canReadDocument type actor row.authorId row.status = true ∧
        e = (row.locale, serializeContent type actor row) := by
  have hperm := List.perm_insertionSort (fun a b : ContentRow => b.updatedAt ≤ a.updatedAt)
    (db.contents.filter fun row => row.translationGroupId ∈ groupIds && row.locale ≠ locale &&
      (if seesEverything type actor then none else some actor.id).all (isVisibleTo · row))
  have hne : groupIds ≠ [] := List.ne_nil_of_mem hg
  unfold Database.listSiblingsAcrossLocales
  rw [if_neg hne, mem_collectSiblings]
  · constructor
    · rintro (h | ⟨row, hrow, hgroup, hcan, rfl⟩)
      · cases h
      · obtain ⟨hmem, hfilter⟩ := List.mem_filter.mp (hperm.mem_iff.mp hrow)
        simp only [Bool.and_eq_true, decide_eq_true_eq] at hfilter
        exact ⟨row, hmem, hgroup, hfilter.1.2, hcan, rfl⟩
    · rintro ⟨row, hrow, rfl, hlocale, hcan, rfl⟩
      refine .inr ⟨row, hperm.mem_iff.mpr (List.mem_filter.mpr ⟨hrow, ?_⟩), rfl, hcan, rfl⟩
      simp [hg, hlocale, canRead_visible hread huser hcan]
  · have hsymm : ∀ {a b : ContentRow},
        ¬ (a.translationGroupId = b.translationGroupId ∧ a.locale = b.locale) →
        ¬ (b.translationGroupId = a.translationGroupId ∧ b.locale = a.locale) :=
      fun h hba => h ⟨hba.1.symm, hba.2.symm⟩
    exact (hperm.pairwise_iff hsymm).mpr (hc.contents_group_locale_uq.sublist List.filter_sublist)
  · intro row _ f hf
    cases hf

end Siblings

/-! ## What is listed -/

section Agreement
variable {type : AnyContentType} {actor : Actor} {db : Database} {locale : String}
  {status : Option (List ContentStatus)}

/-- The rows the pages of a listing are cut from. -/
def listing (type : AnyContentType) (actor : Actor) (locale : String)
    (status : Option (List ContentStatus)) (db : Database) : List ContentRow :=
  db.contents.filter (listFilters (listingQuery type actor locale status))

/-- What is listed after a cursor, in order. -/
def remainder (type : AnyContentType) (actor : Actor) (query : ListQuery) (after : Option Cursor)
    (db : Database) : List ContentRow :=
  Keyset.remaining ContentRow.place (after.map Cursor.place)
    (listing type actor query.locale query.status db)

/-- A page of the listing is a page by key. -/
theorem listPage_page {query : ListQuery} {after : Option Cursor} :
    (listPage type actor query after db).groups.map (·.primary) =
      (Keyset.page ContentRow.place truncated (pageSize (some (query.limit + 1))) query.limit
        (after.map Cursor.place) (listing type actor query.locale query.status db)).rows.map
          (serializeContent type actor) ∧
    (listPage type actor query after db).nextCursor.map Cursor.place =
      (Keyset.page ContentRow.place truncated (pageSize (some (query.limit + 1))) query.limit
        (after.map Cursor.place) (listing type actor query.locale query.status db)).next := by
  constructor
  · exact List.map_map
  · show Option.map Cursor.place (if _ then _ else _) = if _ then _ else _
    rw [apply_ite (Option.map Cursor.place), Option.map_map]
    rfl

/-- The repository reads one row more than the page has, unless the page is of the
largest size. -/
theorem fetch_lt {limit : Nat} : limit < pageSize (some (limit + 1)) ↔ limit < MAX_PAGE_SIZE := by
  unfold pageSize
  show limit < min MAX_PAGE_SIZE (max 1 (limit + 1)) ↔ _
  omega

theorem limit_le_fetch {limit : Nat} (hmax : limit ≤ MAX_PAGE_SIZE) :
    limit ≤ pageSize (some (limit + 1)) := by
  unfold pageSize
  show limit ≤ min MAX_PAGE_SIZE (max 1 (limit + 1))
  omega

/-- A page has a group for each of the first documents that are left. -/
theorem listPage_groups {query : ListQuery} {after : Option Cursor} :
    (listPage type actor query after db).groups.map (fun g => (g.translationGroupId, g.primary)) =
      ((remainder type actor query after db).take query.limit).map fun row =>
        (row.translationGroupId, serializeContent type actor row) := by
  have hpage : (Keyset.page ContentRow.place truncated (pageSize (some (query.limit + 1)))
      query.limit (after.map Cursor.place) (listing type actor query.locale query.status db)).rows =
        (remainder type actor query after db).take query.limit :=
    Keyset.page_rows (limit_le_fetch query.limit_max)
  rw [← hpage]
  exact List.map_map

/-- The listing discloses exactly what reading one document would. -/
structure ListingAgrees (type : AnyContentType) (actor : Actor) (locale : String)
    (status : Option (List ContentStatus)) (db : Database) : Prop where
  /-- Over all pages, the primary rows are exactly the documents of the type and the
  language that may be read. -/
  primary : ∀ row, row ∈ listing type actor locale status db ↔
    row ∈ db.contents ∧ Readable type actor locale status row = true
  /-- Every page has a group for each of the first of these documents after its cursor, the
  most recently updated ones, as many as it may have. -/
  pages : ∀ query after, query.locale = locale → query.status = status →
    (listPage type actor query after db).groups.map (fun g => (g.translationGroupId, g.primary)) =
      ((Keyset.remaining ContentRow.place (after.map Cursor.place)
        (db.contents.filter (Readable type actor locale status))).take query.limit).map fun row =>
          (row.translationGroupId, serializeContent type actor row)
  /-- The other locales of the groups of a page. -/
  siblings : ∀ query after, query.locale = locale → query.status = status →
    ∀ g ∈ (listPage type actor query after db).groups, ∀ e, e ∈ g.siblings ↔
      ∃ row ∈ db.contents, row.translationGroupId = g.translationGroupId ∧ row.locale ≠ locale ∧
        canReadDocument type actor row.authorId row.status = true ∧
        e = (row.locale, serializeContent type actor row)
  counts : ∀ query after, query.locale = locale → query.status = status →
    (listPage type actor query after db).total =
      (db.contents.filter (Readable type actor locale status)).length ∧
    (listPage type actor query after db).drafts =
      ((db.contents.filter (Readable type actor locale status)).filter (·.status = .draft)).length
  /-- Whatever is listed can be opened. -/
  opened : ∀ query after, query.locale = locale → query.status = status →
    ∀ g ∈ (listPage type actor query after db).groups,
      readDocument type actor g.primary.id db = .ok g.primary ∧
        ∀ e ∈ g.siblings, readDocument type actor e.2.id db = .ok e.2

/-- The groups of a page are of rows that are listed. -/
theorem mem_groups {query : ListQuery} {after : Option Cursor} {g : ListGroup}
    (hg : g ∈ (listPage type actor query after db).groups) :
    ∃ row ∈ listing type actor query.locale query.status db,
      g.primary = serializeContent type actor row ∧
      g.translationGroupId = row.translationGroupId := by
  obtain ⟨row, hrow, rfl⟩ := List.mem_map.mp hg
  have hmem := (Keyset.mem_remaining.mp (List.mem_of_mem_take (List.mem_of_mem_take hrow))).1
  exact ⟨row, hmem, rfl, rfl⟩

/-- The siblings on a page are, group by group, the other locales that may be read. -/
theorem mem_groups_siblings (hc : db.Constraints) (hread : canPerform type .read actor none = true)
    (huser : actor.id.isSome = true) {query : ListQuery} {after : Option Cursor} {g : ListGroup}
    (hg : g ∈ (listPage type actor query after db).groups) {e : String × SerializedContent} :
    e ∈ g.siblings ↔ ∃ row ∈ db.contents, row.translationGroupId = g.translationGroupId ∧
      row.locale ≠ query.locale ∧ canReadDocument type actor row.authorId row.status = true ∧
      e = (row.locale, serializeContent type actor row) := by
  obtain ⟨row, hrow, rfl⟩ := List.mem_map.mp hg
  exact mem_siblings hc hread huser (List.mem_map_of_mem hrow)

/-- A document of the type that may be read is answered with. -/
theorem readDocument_ok (hc : db.Constraints) {row : ContentRow} (hrow : row ∈ db.contents)
    (htype : row.type = type.name)
    (hcan : canReadDocument type actor row.authorId row.status = true) :
    readDocument type actor row.id db = .ok (serializeContent type actor row) := by
  unfold readDocument
  rw [Database.content_of_mem hc hrow, Option.filter_some, if_pos (by simp [htype])]
  simp [hcan]

/-- A document of the type that may not be read is refused. -/
theorem readDocument_forbidden {id : Uuid} {row : ContentRow} (hrow : db.content id = some row)
    (htype : row.type = type.name)
    (hcan : canReadDocument type actor row.authorId row.status = false) :
    readDocument type actor id db = .error ⟨403, "forbidden", none⟩ := by
  unfold readDocument
  rw [hrow, Option.filter_some, if_pos (by simp [htype])]
  simp [hcan]

/-- **The listing agrees with the read rule** exactly when it finds no document that
the actor wrote and may not edit. -/
theorem listing_agrees (hc : db.Constraints) (hread : canPerform type .read actor none = true)
    (huser : actor.id.isSome = true) : ListingAgrees type actor locale status db ↔
      ∀ row ∈ db.contents, Disowned type actor locale status row = false := by
  constructor
  · intro h row hrow
    by_contra hdisowned
    rw [Bool.not_eq_false] at hdisowned
    have hlisted : row ∈ listing type actor locale status db :=
      List.mem_filter.mpr ⟨hrow, (listFilters_iff hread huser).mpr (.inr hdisowned)⟩
    obtain ⟨-, hreadable⟩ := (h.primary row).mp hlisted
    unfold Readable at hreadable
    unfold Disowned at hdisowned
    simp only [Bool.and_eq_true, decide_eq_true_eq, Bool.not_eq_true'] at hreadable hdisowned
    obtain ⟨⟨⟨-, hauthor⟩, hpublic⟩, hno⟩ := hdisowned
    rcases (canReadDocument_iff hread).mp hreadable.2 with h | h
    · exact hpublic h
    · rw [hauthor, hno] at h
      cases h
  · intro hnone
    -- The filter of the query is the rule.
    have hlisting : listing type actor locale status db =
        db.contents.filter (Readable type actor locale status) := by
      refine List.filter_congr fun row hrow => ?_
      rw [Bool.eq_iff_iff, listFilters_iff hread huser]
      exact or_iff_left (by simp [hnone row hrow])
    refine ⟨fun row => ?_, ?_, ?_, ?_, ?_⟩
    · rw [hlisting, List.mem_filter]
    · rintro query after rfl rfl
      rw [listPage_groups, remainder, hlisting]
    · rintro query after rfl rfl g hg e
      exact mem_groups_siblings hc hread huser hg
    · rintro query after rfl rfl
      constructor
      · exact congrArg List.length hlisting
      · exact congrArg (fun rows => (rows.filter (·.status = .draft)).length) hlisting
    · rintro query after rfl rfl g hg
      obtain ⟨row, hrow, hprimary, hgroup⟩ := mem_groups hg
      rw [hlisting] at hrow
      obtain ⟨hmem, hreadable⟩ := List.mem_filter.mp hrow
      unfold Readable at hreadable
      simp only [Bool.and_eq_true, decide_eq_true_eq] at hreadable
      obtain ⟨⟨⟨htype, -⟩, -⟩, hcan⟩ := hreadable
      constructor
      · rw [hprimary]
        exact readDocument_ok hc hmem htype hcan
      · intro e he
        obtain ⟨sibling, hs, hsgroup, -, hscan, rfl⟩ :=
          (mem_groups_siblings hc hread huser hg).mp he
        have hstype := Database.translation_type hc hs hmem (hsgroup.trans hgroup)
        exact readDocument_ok hc hs (hstype.trans htype) hscan

end Agreement

/-! ### A subscriber's draft -/

/-- The listing of the pages in English. -/
def englishPages (limit : Nat) (hpos : 1 ≤ limit) (hmax : limit ≤ MAX_PAGE_SIZE) : ListQuery :=
  ⟨"en", none, limit, none, hpos, hmax⟩

/-- A draft by user 7. -/
def draftOfSeven : List (RowLocks.Action Call Nat) :=
  wholeCall 0 (createPage (emptyPage "about" none) 1 (some 7)) 4

theorem listing_agrees_author : ∃ m : ContentMachine Nat,
    (RowLocks.Machine.start (Database.empty [])).steps engine program draftOfSeven = some m ∧
    ListingAgrees (pageType fun _ => false) ⟨[.contentRead, .contentUpdateOwn], some 7⟩ "en" none
      m.db := by
  have heval : ((RowLocks.Machine.start (Database.empty []) : ContentMachine Nat).steps engine
      program draftOfSeven).any (fun m => m.db.contents.all fun row => !Disowned
        (pageType fun _ => false) ⟨[.contentRead, .contentUpdateOwn], some 7⟩ "en" none row) =
      true := by decide +kernel
  obtain ⟨m, hm, hrun, hcheck⟩ := RowLocks.Run.of_eval heval
  have hc := (run_states (empty_inv []) hrun m.db List.mem_cons_self).constraints
  refine ⟨m, hm, (listing_agrees hc (by decide) (by decide)).mpr fun row hrow => ?_⟩
  simpa using List.all_eq_true.mp hcheck row hrow

/-- **The listing shows a subscriber the draft they once wrote**, and opening it is
forbidden. -/
theorem listing_discloses_disowned : ∃ m : ContentMachine Nat,
    (RowLocks.Machine.start (Database.empty [])).steps engine program draftOfSeven = some m ∧
    ¬ ListingAgrees (pageType fun _ => false) ⟨[.contentRead], some 7⟩ "en" none m.db ∧
    (∃ response, handleList builtinSite ⟨[.contentRead], some 7⟩ m.db "page"
        (some (englishPages 25 (by decide) (by decide))) = .ok response ∧
      response.groups.map (·.primary.id) = [1] ∧ response.total = 1) ∧
    handleGet builtinSite ⟨[.contentRead], some 7⟩ m.db "page" (some 1) =
      .error ⟨403, "forbidden", none⟩ := by
  have heval : ((RowLocks.Machine.start (Database.empty []) : ContentMachine Nat).steps engine
      program draftOfSeven).any (fun m =>
        decide ((listPage (pageType fun _ => false) ⟨[.contentRead], some 7⟩
          (englishPages 25 (by decide) (by decide)) none m.db).groups.map (·.primary.id) = [1]) &&
        decide ((listPage (pageType fun _ => false) ⟨[.contentRead], some 7⟩
          (englishPages 25 (by decide) (by decide)) none m.db).total = 1) &&
        (m.db.content 1).any fun row => row.type = "page" &&
          !canReadDocument (pageType fun _ => false) ⟨[.contentRead], some 7⟩ row.authorId
            row.status) = true := by decide +kernel
  obtain ⟨m, hm, -, hcheck⟩ := RowLocks.Run.of_eval heval
  simp only [Bool.and_eq_true, decide_eq_true_eq] at hcheck
  obtain ⟨⟨hids, htotal⟩, hany⟩ := hcheck
  obtain ⟨row, hrow, hforbidden⟩ := (Option.any_eq_true _ _).mp hany
  simp only [Bool.and_eq_true, decide_eq_true_eq, Bool.not_eq_true'] at hforbidden
  have hget : readDocument (pageType fun _ => false) ⟨[.contentRead], some 7⟩ 1 m.db =
      .error ⟨403, "forbidden", none⟩ := readDocument_forbidden hrow hforbidden.1 hforbidden.2
  refine ⟨m, hm, fun hagrees => ?_, ⟨_, rfl, hids, htotal⟩, hget⟩
  obtain ⟨g, hg, hid⟩ := List.mem_map.mp (hids ▸ List.mem_singleton_self 1 : 1 ∈ _)
  have hopened := (hagrees.opened _ none rfl rfl g hg).1
  rw [hid, hget] at hopened
  cases hopened

/-! ## Walking through the listing -/

section Walks
variable {type : AnyContentType} {actor : Actor} {query : ListQuery} {db : Database}

/-- Following the cursors to the last page.  Every request finds the database as
it is by then; `P` holds of every request. -/
inductive ListWalk (type : AnyContentType) (actor : Actor) (query : ListQuery)
    (P : Option Cursor → Database → Prop) :
    Option Cursor → List Database → List ListResponse → Prop
  | done {after : Option Cursor} {db : Database} : P after db →
      (listPage type actor query after db).nextCursor = none →
      ListWalk type actor query P after [db] [listPage type actor query after db]
  | more {after : Option Cursor} {db : Database} {next : Cursor} {moments : List Database}
      {pages : List ListResponse} : P after db →
      (listPage type actor query after db).nextCursor = some next →
      ListWalk type actor query P (some next) moments pages →
      ListWalk type actor query P after (db :: moments)
        (listPage type actor query after db :: pages)

/-- The place of a document that is listed all along, as it is. -/
def Stays (type : AnyContentType) (actor : Actor) (query : ListQuery) (moments : List Database)
    (place : Nat ×ₗ Uuid) : Prop :=
  ∃ row, (∀ db ∈ moments, row ∈ listing type actor query.locale query.status db) ∧
    row.place = place

/-- The request is for fewer than `MAX_PAGE_SIZE` documents, and whatever is left
after the page and stays is below the place of its last document in whole
milliseconds; or nothing is left. -/
def CutsCleanly (type : AnyContentType) (actor : Actor) (query : ListQuery)
    (moments : List Database) (after : Option Cursor) (db : Database) : Prop :=
  (remainder type actor query after db).length ≤ query.limit ∨ query.limit < MAX_PAGE_SIZE ∧
    ∀ l ∈ ((remainder type actor query after db).take query.limit).getLast?,
      ∀ r ∈ (remainder type actor query after db).drop query.limit,
        Stays type actor query moments r.place → r.place < (Cursor.ofRow l).place

/-- The primary documents of the pages. -/
def primaries (pages : List ListResponse) : List SerializedContent :=
  pages.flatMap fun page => page.groups.map (·.primary)

/-- What a walk is for. -/
structure WalkExact (type : AnyContentType) (actor : Actor) (query : ListQuery)
    (moments : List Database) (pages : List ListResponse) : Prop where
  /-- The documents come in order. -/
  order : (primaries pages).Pairwise fun a b => b.toContentRow.place < a.toContentRow.place
  /-- A document that is listed all along, unchanged, is returned once. -/
  once : ∀ row, (∀ db ∈ moments, row ∈ listing type actor query.locale query.status db) →
    (primaries pages).filter (·.id = row.id) = [serializeContent type actor row]
  /-- The walk ends when nothing is left after the page. -/
  last : ListWalk type actor query (fun after db =>
    (listPage type actor query after db).nextCursor = none ↔
      (remainder type actor query after db).length ≤ query.limit) none moments pages

theorem cutsCleanly_iff {moments : List Database} {after : Option Cursor} :
    CutsCleanly type actor query moments after db ↔
      Keyset.CutsFor ContentRow.place truncated (pageSize (some (query.limit + 1))) query.limit
        (after.map Cursor.place) (listing type actor query.locale query.status db)
        (Stays type actor query moments) := by
  rw [CutsCleanly, Keyset.CutsFor, fetch_lt]
  rfl

theorem listPage_nextCursor_none {after : Option Cursor} :
    (listPage type actor query after db).nextCursor = none ↔
      (Keyset.page ContentRow.place truncated (pageSize (some (query.limit + 1))) query.limit
        (after.map Cursor.place) (listing type actor query.locale query.status db)).next =
          none := by
  rw [← listPage_page.2, Option.map_eq_none_iff]

/-- A page of the largest size never says that there is more. -/
theorem nextCursor_of_max {after : Option Cursor} (hmax : query.limit = MAX_PAGE_SIZE) :
    (listPage type actor query after db).nextCursor = none := by
  rw [listPage_nextCursor_none]
  by_contra hnext
  obtain ⟨next, hnext⟩ := Option.ne_none_iff_exists'.mp hnext
  have hfetch := fetch_lt.mp (Keyset.fetch_of_next hnext)
  omega

section Keysets
variable {P : Option Cursor → Database → Prop} {after : Option Cursor} {moments : List Database}
  {pages : List ListResponse}

/-- A walk through the listing is a walk by key. -/
theorem ListWalk.keyset {Q : Option (Nat ×ₗ Uuid) → List ContentRow → Prop}
    (h : ListWalk type actor query P after moments pages)
    (hP : ∀ after db, P after db →
      Q (after.map Cursor.place) (listing type actor query.locale query.status db)) :
    ∃ keyset, Keyset.Walk ContentRow.place truncated (pageSize (some (query.limit + 1)))
        query.limit Q (after.map Cursor.place)
        (moments.map (listing type actor query.locale query.status)) keyset ∧
      primaries pages = (keyset.flatMap (·.rows)).map (serializeContent type actor) := by
  induction h with
  | @done after db hp hnone =>
    refine ⟨_, .done (hP after db hp) ?_, ?_⟩
    · rw [← listPage_page.2, hnone]
      rfl
    · simpa [primaries] using listPage_page.1
  | @more after db next moments pages hp hnext _ ih =>
    obtain ⟨keyset, hwalk, hsame⟩ := ih
    refine ⟨_, .more (hP after db hp) ?_ hwalk, ?_⟩
    · rw [← listPage_page.2, hnext]
      rfl
    · rw [List.flatMap_cons, List.map_append, ← hsame, ← listPage_page.1]
      rfl

/-- What holds of the requests of the walk by key holds of those of the walk. -/
theorem ListWalk.of_keyset {P Q : Option Cursor → Database → Prop}
    {K : Option (Nat ×ₗ Uuid) → List ContentRow → Prop}
    {keyset : List (Keyset.Page ContentRow (Nat ×ₗ Uuid))}
    (h : ListWalk type actor query P after moments pages)
    (hwalk : Keyset.Walk ContentRow.place truncated (pageSize (some (query.limit + 1)))
      query.limit K (after.map Cursor.place)
      (moments.map (listing type actor query.locale query.status)) keyset)
    (hQ : ∀ after db, K (after.map Cursor.place)
      (listing type actor query.locale query.status db) → Q after db) :
    ListWalk type actor query Q after moments pages := by
  induction h generalizing keyset with
  | @done after db _ hnone =>
    cases hwalk with
    | done hk _ => exact .done (hQ after db hk) hnone
    | more _ _ hrest => cases hrest
  | @more after db next moments pages _ hnext hrest ih =>
    obtain ⟨first, later, rfl⟩ : ∃ first later, moments = first :: later := by
      cases hrest with
      | done => exact ⟨_, _, rfl⟩
      | more => exact ⟨_, _, rfl⟩
    cases hwalk with
    | more hk hnext' hwalk =>
      rw [← listPage_page.2, hnext] at hnext'
      obtain rfl := Option.some.inj hnext'
      exact .more (hQ after db hk) hnext (ih hwalk)

end Keysets

theorem listing_nodup (hc : db.Constraints) {locale : String}
    {status : Option (List ContentStatus)} :
    ((listing type actor locale status db).map ContentRow.place).Nodup := by
  have hids : ((listing type actor locale status db).map ContentRow.id).Nodup :=
    hc.contents_pkey.sublist (List.filter_sublist.map _)
  have hplace : ContentRow.id = (fun place : Nat ×ₗ Uuid => (ofLex place).2) ∘ ContentRow.place :=
    rfl
  rw [hplace, ← List.map_map] at hids
  exact List.Nodup.of_map _ hids

section Exact
variable {moments : List Database} {pages : List ListResponse}
  {keyset : List (Keyset.Page ContentRow (Nat ×ₗ Uuid))}

/-- A row of a walk that has the id of a document that stays is that document. -/
theorem eq_of_stays (hdbs : ∀ db ∈ moments, db.Constraints)
    {P : Option (Nat ×ₗ Uuid) → List ContentRow → Prop} {cursor : Option (Nat ×ₗ Uuid)}
    (hwalk : Keyset.Walk ContentRow.place truncated (pageSize (some (query.limit + 1)))
      query.limit P cursor (moments.map (listing type actor query.locale query.status)) keyset)
    {r row : ContentRow} (hr : r ∈ keyset.flatMap (·.rows)) (hid : r.id = row.id)
    (hrow : ∀ db ∈ moments, row ∈ listing type actor query.locale query.status db) : r = row := by
  obtain ⟨rows, hrows, hr⟩ := hwalk.mem hr
  obtain ⟨db, hdb, rfl⟩ := List.mem_map.mp hrows
  have hfound := Database.content_of_mem (hdbs db hdb) (List.mem_filter.mp hr).1
  rw [hid, Database.content_of_mem (hdbs db hdb) (List.mem_filter.mp (hrow db hdb)).1] at hfound
  exact (Option.some.inj hfound).symm

/-- **A walk whose pages all cut cleanly** is exact. -/
theorem ListWalk.exact (hdbs : ∀ db ∈ moments, db.Constraints)
    (h : ListWalk type actor query (CutsCleanly type actor query moments) none moments pages) :
    WalkExact type actor query moments pages := by
  obtain ⟨keyset, hwalk, hsame⟩ := h.keyset (Q := fun cursor rows =>
    Keyset.CutsFor ContentRow.place truncated (pageSize (some (query.limit + 1))) query.limit
      cursor rows (Stays type actor query moments)) fun _ _ => cutsCleanly_iff.mp
  have hsorted := (hwalk.descending truncated_le (limit_le_fetch query.limit_max)
    (List.forall_mem_map.mpr fun db hdb => listing_nodup (hdbs db hdb))).2
  refine ⟨?_, fun row hrow => ?_, ?_⟩
  · rw [hsame]
    exact List.pairwise_map.mpr hsorted
  · obtain ⟨found, hmem, rfl⟩ := hwalk.complete (S := Stays type actor query moments)
      (T := fun found => found = row) query.limit_pos (limit_le_fetch query.limit_max)
      (fun _ _ hcuts => hcuts) ⟨row, hrow, rfl⟩ (fun _ heq => congrArg ContentRow.place heq)
      (List.forall_mem_map.mpr fun db hdb => ⟨row, hrow db hdb, rfl⟩) (fun c hc => by cases hc)
    -- Whatever has the id is the document itself.
    have hone : ((keyset.flatMap (·.rows)).filter (·.id = found.id)).length ≤ 1 := by
      refine RowLocks.atMostOne_of_pairwise hsorted fun a ha b hb hida hidb hlt => ?_
      rw [eq_of_stays hdbs hwalk ha (of_decide_eq_true hida) hrow,
        eq_of_stays hdbs hwalk hb (of_decide_eq_true hidb) hrow] at hlt
      exact lt_irrefl _ hlt
    rw [hsame, List.filter_map]
    exact congrArg (List.map (serializeContent type actor))
      (RowLocks.filter_eq_singleton hone hmem (decide_eq_true rfl))
  · refine h.of_keyset hwalk fun after db hcuts => ?_
    rw [listPage_nextCursor_none]
    exact (Keyset.page_cuts query.limit_pos (limit_le_fetch query.limit_max) hcuts).1

/-- **Following the cursors** returns the documents in order and none twice, each that is
listed all along once, and stops where nothing is left, whatever is saved in between, if
and only if every page cuts cleanly for the documents that stay. -/
theorem listing_walk (hdbs : ∀ db ∈ moments, db.Constraints)
    (h : ListWalk type actor query (fun _ _ => True) none moments pages) :
    WalkExact type actor query moments pages ↔
      ListWalk type actor query (CutsCleanly type actor query moments) none moments pages := by
  refine ⟨fun hexact => ?_, fun hcuts => hcuts.exact hdbs⟩
  obtain ⟨keyset, hwalk, hsame⟩ := hexact.last.keyset (Q := fun cursor rows =>
    (Keyset.page ContentRow.place truncated (pageSize (some (query.limit + 1))) query.limit
      cursor rows).next = none ↔
        (Keyset.remaining ContentRow.place cursor rows).length ≤ query.limit)
    fun _ _ => listPage_nextCursor_none.symm.trans
  have hcuts := hwalk.cuts_of_complete (S := Stays type actor query moments) truncated_le
    (limit_le_fetch query.limit_max)
    (List.forall_mem_map.mpr fun db hdb => listing_nodup (hdbs db hdb)) ?_
  · exact h.of_keyset hcuts fun _ _ => cutsCleanly_iff.mpr
  · -- What is returned of a document that stays is its row.
    rintro place ⟨row, hrow, rfl⟩ -
    have hmem := List.mem_filter.mp (hexact.once row hrow ▸ List.mem_singleton_self _ :
      serializeContent type actor row ∈ _)
    rw [hsame] at hmem
    obtain ⟨r, hr, hserialized⟩ := List.mem_map.mp hmem.1
    have hid : r.id = row.id := congrArg (·.id) hserialized
    exact List.mem_map.mpr ⟨r, hr, congrArg _ (eq_of_stays hdbs hwalk hr hid hrow)⟩

end Exact

end Walks

/-! ### Two pages, one at a time -/

/-- Two pages, created at these instants. -/
def twoPagesAt (first second : Nat) : List (RowLocks.Action Call Nat) :=
  wholeCall 0 (createPage (emptyPage "about" none) first none) 4 ++
    wholeCall 1 (createPage (emptyPage "team" none) second none) 4

/-- An actor who may edit every document. -/
def editor : Actor := ⟨[.contentRead, .contentUpdateAny], some 7⟩

def oneByOne : ListQuery := englishPages 1 (by decide) (by decide)

/-- The ids of a page, and the cursor it names. -/
def onePage (after : Option Cursor) (db : Database) : List Uuid × Option Cursor :=
  let response := listPage (pageType fun _ => false) editor oneByOne after db
  (response.groups.map (·.primary.id), response.nextCursor)

/-- Whatever is left after a page of one is below its place in whole milliseconds. -/
def LeftBelow (after : Option Cursor) (db : Database) : Prop :=
  let left := remainder (pageType fun _ => false) editor oneByOne after db
  ∀ l ∈ (left.take 1).getLast?, ∀ r ∈ left.drop 1, r.place < (Cursor.ofRow l).place

instance (after : Option Cursor) (db : Database) : Decidable (LeftBelow after db) := by
  unfold LeftBelow
  infer_instance

theorem LeftBelow.cuts {after : Option Cursor} {db : Database} (h : LeftBelow after db)
    (moments : List Database) :
    CutsCleanly (pageType fun _ => false) editor oneByOne moments after db :=
  .inr ⟨by decide, fun l hl r hr _ => h l hl r hr⟩

theorem primaries_pair (first second : ListResponse) :
    (primaries [first, second]).map (·.id) =
      first.groups.map (·.primary.id) ++ second.groups.map (·.primary.id) := by
  unfold primaries
  rw [List.flatMap_cons, List.flatMap_cons, List.flatMap_nil, List.append_nil, List.map_append,
    List.map_map, List.map_map]
  rfl

theorem listing_walk_two_pages : ∃ m : ContentMachine Nat,
    (RowLocks.Machine.start (Database.empty [])).steps engine program (twoPagesAt 1200 2500) =
      some m ∧
    ∃ pages, WalkExact (pageType fun _ => false) editor oneByOne [m.db, m.db] pages ∧
      (primaries pages).map (·.id) = [2500, 1200] := by
  have heval : ((RowLocks.Machine.start (Database.empty []) : ContentMachine Nat).steps engine
      program (twoPagesAt 1200 2500)).any (fun m =>
        decide (onePage none m.db = ([2500], some ⟨2, 2500⟩)) &&
        decide (onePage (some ⟨2, 2500⟩) m.db = ([1200], none)) &&
        decide (LeftBelow none m.db) && decide (LeftBelow (some ⟨2, 2500⟩) m.db)) = true := by
    decide +kernel
  obtain ⟨m, hm, hrun, hcheck⟩ := RowLocks.Run.of_eval heval
  simp only [Bool.and_eq_true, decide_eq_true_eq] at hcheck
  obtain ⟨⟨⟨hfirst, hsecond⟩, hbelow⟩, hbelow'⟩ := hcheck
  obtain ⟨hids, hnext⟩ := Prod.mk.inj hfirst
  obtain ⟨hids', hnone⟩ := Prod.mk.inj hsecond
  have hc := (run_states (empty_inv []) hrun m.db List.mem_cons_self).constraints
  refine ⟨m, hm, _, (listing_walk ?_ (.more trivial hnext (.done trivial hnone))).mpr
    (.more (hbelow.cuts _) hnext (.done (hbelow'.cuts _) hnone)), ?_⟩
  · intro db hdb
    rcases List.mem_cons.mp hdb with rfl | hdb
    · exact hc
    · exact List.mem_singleton.mp hdb ▸ hc
  · rw [primaries_pair, hids, hids']
    rfl

/-- **Two pages of one millisecond**, read one at a time: the second is lost. -/
theorem listing_walk_loses : ∃ m : ContentMachine Nat,
    (RowLocks.Machine.start (Database.empty [])).steps engine program (twoPagesAt 1200 1500) =
      some m ∧
    ∃ pages, ListWalk (pageType fun _ => false) editor oneByOne (fun _ _ => True) none
        [m.db, m.db] pages ∧
      ¬ WalkExact (pageType fun _ => false) editor oneByOne [m.db, m.db] pages := by
  have heval : ((RowLocks.Machine.start (Database.empty []) : ContentMachine Nat).steps engine
      program (twoPagesAt 1200 1500)).any (fun m =>
        decide (onePage none m.db = ([1500], some ⟨1, 1500⟩)) &&
        decide (onePage (some ⟨1, 1500⟩) m.db = ([], none)) &&
        (listing (pageType fun _ => false) editor "en" none m.db).any (·.id = 1200)) = true := by
    decide +kernel
  obtain ⟨m, hm, -, hcheck⟩ := RowLocks.Run.of_eval heval
  simp only [Bool.and_eq_true, decide_eq_true_eq] at hcheck
  obtain ⟨⟨hfirst, hsecond⟩, hany⟩ := hcheck
  obtain ⟨row, hrow, hid⟩ := List.any_eq_true.mp hany
  obtain ⟨hids, hnext⟩ := Prod.mk.inj hfirst
  obtain ⟨hids', hnone⟩ := Prod.mk.inj hsecond
  refine ⟨m, hm, _, .more trivial hnext (.done trivial hnone), fun hexact => ?_⟩
  have honce := hexact.once row fun db hdb => by
    rcases List.mem_cons.mp hdb with rfl | hdb
    · exact hrow
    · exact List.mem_singleton.mp hdb ▸ hrow
  -- Only the other one is returned.
  have hmem := List.mem_filter.mp (honce ▸ List.mem_singleton_self _)
  have hreturned := List.mem_map_of_mem (f := fun document : SerializedContent => document.id)
    hmem.1
  rw [primaries_pair, hids, hids', List.append_nil, List.mem_singleton] at hreturned
  have hsame : row.id = 1500 := hreturned
  rw [of_decide_eq_true hid] at hsame
  cases hsame

end PressLabz
