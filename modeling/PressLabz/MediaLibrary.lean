import PressLabz.CacheInvalidation
import PressLabz.ContentListing
import PressLabz.MediaStorage

/-! # The media library

`GET /media` of `apps/api/src/media/routes.ts`, over `listMedia` of
`packages/db/src/repositories/media.ts`: the assets, newest first, a page at a time.  A
page is a page by key (`Keyset`), of the microsecond an asset was created at and its id;
the cursor carries milliseconds.

Between two requests assets are uploaded, described and deleted (`LibraryChange`).  No
asset is lost or repeated exactly where no page, for the assets that stay, splits a
millisecond, and none of the largest size has anything after it (`library_exact`).
-/
namespace PressLabz

/-! ## Who may do what -/

inductive MediaOperation where
  | read | upload | update | delete
  deriving DecidableEq

def MEDIA_ACCESS : MediaOperation → OperationAccess
  | .read => { any := .mediaRead }
  | .upload => { any := .mediaUpload }
  | .update => { any := .mediaUpdateAny, own := some .mediaUpdateOwn }
  | .delete => { any := .mediaDeleteAny }

/-- The resource is what an asset says of its uploader; there may be none. -/
def canPerformOnMedia (operation : MediaOperation) (actor : Actor) (resource : Option MediaRow) :
    Bool :=
  allows (MEDIA_ACCESS operation) actor (resource.bind (·.uploadedById))

def canEditMedia (actor : Actor) (resource : MediaRow) : Bool :=
  canPerformOnMedia .update actor (some resource)

/-! ## The repository -/

/-- `(created_at, id)`. -/
def MediaRecord.place (row : MediaRecord) : Nat ×ₗ Uuid := toLex (row.createdAt, row.id)

/-- `{ at: last.createdAt, id: last.id }`. -/
def Cursor.ofMedia (row : MediaRecord) : Cursor := ⟨row.createdAt / 1000, row.id⟩

namespace MediaStore
variable (s : MediaStore)

def listMedia (limit : Option Nat) (after : Option Cursor) : List MediaRecord :=
  (Keyset.remaining MediaRecord.place (after.map Cursor.place) s.rows).take (pageSize limit)

/-- As of a database, of the rows with all they have. -/
def patchMediaAlt (id : Uuid) (patch : List (String × Option String))
    (authorize : MediaRecord → Bool) : Except MediaError (Option MediaRecord × MediaStore) :=
  match s.rows.find? fun row => row.id = id with
  | none => .ok (none, s)
  | some current =>
    if !authorize current then .error .forbidden
    else .ok (some { current with alt := mergeAlt current.alt patch },
      { s with rows := s.rows.map fun row =>
          if row.id = id then { row with alt := mergeAlt row.alt patch } else row })

end MediaStore

/-! ## The route -/

structure SerializedRendition where
  name : String
  url : String
  contentType : String
  byteSize : Nat
  deriving DecidableEq

/-- An asset as a response carries it. -/
structure SerializedMedia where
  /-- `permissions.update`. -/
  mayUpdate : Bool
  id : Uuid
  url : String
  mimeType : String
  byteSize : Nat
  width : Option Nat
  height : Option Nat
  alt : List (String × String)
  /-- Milliseconds, as of a `Date`. -/
  createdAt : Nat
  renditions : List SerializedRendition
  deriving DecidableEq

def mediaUrl (base storageKey : String) : String := base ++ "/" ++ storageKey

/-- `base` is where readers fetch assets from, as the configuration has it. -/
def serializeMedia (base : String) (actor : Actor) (row : MediaRecord) : SerializedMedia where
  mayUpdate := canEditMedia actor row.toMediaRow
  id := row.id
  url := mediaUrl base row.storageKey
  mimeType := row.mimeType
  byteSize := row.byteSize
  width := row.width
  height := row.height
  alt := row.alt
  createdAt := row.createdAt / 1000
  renditions := (row.meta.renditions.getD []).map fun (name, rendition) =>
    ⟨name, mediaUrl base rendition.key, rendition.contentType, rendition.byteSize⟩

/-- What `pageQuery` made of a query.  A cursor is what `decodeCursor` made of it, and
none where it is no cursor. -/
structure PageQuery where
  limit : Nat
  cursor : Option (Option Cursor)
  limit_pos : 1 ≤ limit
  limit_max : limit ≤ MAX_PAGE_SIZE

structure MediaListing where
  «media» : List SerializedMedia
  nextCursor : Option Cursor
  /-- `permissions.upload`. -/
  mayUpload : Bool
  deriving DecidableEq

/-- A refusal, and the operation and the capability that one of a guard names. -/
structure MediaRefusal extends Refusal where
  operation : Option MediaOperation := none
  required : Option Capability := none

/-- The page after the cursor. -/
def mediaPage (base : String) (actor : Actor) (limit : Nat) (after : Option Cursor)
    (s : MediaStore) : MediaListing :=
  let rows := s.listMedia (some (limit + 1)) after
  let page := rows.take limit
  { «media» := page.map (serializeMedia base actor)
    nextCursor := if rows.length > page.length then page.getLast?.map Cursor.ofMedia else none
    mayUpload := canPerformOnMedia .upload actor none }

/-- The guard of a route: nobody is asked to sign in, and whoever may not, what it takes. -/
def requireMediaOperation (operation : MediaOperation) (user : Option Actor) :
    Except MediaRefusal Actor :=
  match user with
  | none => .error { code := 401, error := "unauthorized" }
  | some actor =>
    if !canPerformOnMedia operation actor none then
      .error { code := 403, error := "forbidden", operation := some operation
               required := some (MEDIA_ACCESS operation).any }
    else .ok actor

/-- `GET /media`. -/
def handleMedia (base : String) (user : Option Actor) (query : Option PageQuery)
    (s : MediaStore) : Except MediaRefusal MediaListing := do
  let actor ← requireMediaOperation .read user
  match query with
  | none => .error { code := 400, error := "invalid_request" }
  | some query =>
    match query.cursor with
    | some none => .error { code := 400, error := "invalid_request", reason := some "bad-cursor" }
    | some (some cursor) => .ok (mediaPage base actor query.limit (some cursor) s)
    | none => .ok (mediaPage base actor query.limit none s)

/-! ## Walking through the library -/

/-- What may happen to the library between two requests: an upload, of an id that nothing
has, a description, or the deletion of one of the assets that are `deleted`. -/
inductive LibraryChange (deleted : List Uuid) (s : MediaStore) : MediaStore → Prop
  | upload {row : MediaRecord} : row.id ∉ s.rows.map (·.id) →
      LibraryChange deleted s (s.createMedia row)
  | describe {s' : MediaStore} {id : Uuid} {patch : List (String × Option String)}
      {authorize : MediaRecord → Bool} {row : Option MediaRecord} :
      s.patchMediaAlt id patch authorize = .ok (row, s') → LibraryChange deleted s s'
  | delete {now : Nat} {id : Uuid} : id ∈ deleted →
      LibraryChange deleted s (s.deleteMediaRow now id).2

/-- The query again, with the cursor of the page before. -/
def PageQuery.following (query : PageQuery) (after : Option Cursor) : PageQuery :=
  { query with cursor := after.map some }

/-- What is left after a cursor, in order. -/
def libraryAfter (after : Option Cursor) (s : MediaStore) : List MediaRecord :=
  Keyset.remaining MediaRecord.place (after.map Cursor.place) s.rows

section Walks
variable (base : String) (actor : Actor) (query : PageQuery) (deleted : List Uuid)

/-- Following the cursors to the last page, while the library changes.  `P` holds of every
request. -/
inductive LibraryWalk (P : Option Cursor → MediaStore → Prop) :
    Option Cursor → List MediaStore → List MediaListing → Prop
  | done {after : Option Cursor} {s : MediaStore} {page : MediaListing} : P after s →
      handleMedia base (some actor) (some (query.following after)) s = .ok page →
      page.nextCursor = none → LibraryWalk P after [s] [page]
  | more {after : Option Cursor} {s s' : MediaStore} {page : MediaListing} {next : Cursor}
      {moments : List MediaStore} {pages : List MediaListing} : P after s →
      handleMedia base (some actor) (some (query.following after)) s = .ok page →
      page.nextCursor = some next → Relation.ReflTransGen (LibraryChange deleted) s s' →
      LibraryWalk P (some next) (s' :: moments) pages →
      LibraryWalk P after (s :: s' :: moments) (page :: pages)

/-- An asset that was there when the walk started, and was not deleted. -/
def Kept (first : MediaStore) (place : Nat ×ₗ Uuid) : Prop :=
  ∃ row ∈ first.rows, row.place = place ∧ row.id ∉ deleted

/-- The request is for fewer than `MAX_PAGE_SIZE` assets, and whatever is kept and left after
the page is below the place of its last asset in whole milliseconds; or nothing is left. -/
def LibraryCuts (first : MediaStore) (after : Option Cursor) (s : MediaStore) : Prop :=
  (libraryAfter after s).length ≤ query.limit ∨ query.limit < MAX_PAGE_SIZE ∧
    ∀ l ∈ ((libraryAfter after s).take query.limit).getLast?,
      ∀ r ∈ (libraryAfter after s).drop query.limit, Kept deleted first r.place →
        r.place < (Cursor.ofMedia l).place

/-- What a walk is for. -/
structure LibraryExact (first : MediaStore) (moments : List MediaStore)
    (pages : List MediaListing) : Prop where
  /-- The assets come in order, each as it was at some request. -/
  order : ∃ rows : List MediaRecord,
    pages.flatMap (·.media) = rows.map (serializeMedia base actor) ∧
      (∀ row ∈ rows, ∃ s ∈ moments, row ∈ s.rows) ∧ rows.Pairwise fun a b => b.place < a.place
  /-- An asset that was there when the walk started and was not deleted is returned once. -/
  once : ∀ row ∈ first.rows, row.id ∉ deleted →
    ∃ found : MediaRecord, (∃ s ∈ moments, found ∈ s.rows) ∧ found.place = row.place ∧
      (pages.flatMap (·.media)).filter (·.id = row.id) = [serializeMedia base actor found]
  /-- The walk ends when nothing is left after the page. -/
  last : LibraryWalk base actor query deleted (fun after s =>
    (mediaPage base actor query.limit after s).nextCursor = none ↔
      (libraryAfter after s).length ≤ query.limit) none moments pages

end Walks

instance (deleted : List Uuid) (first : MediaStore) (place : Nat ×ₗ Uuid) :
    Decidable (Kept deleted first place) :=
  inferInstanceAs (Decidable (∃ row ∈ first.rows, row.place = place ∧ row.id ∉ deleted))

instance (query : PageQuery) (deleted : List Uuid) (first : MediaStore) (after : Option Cursor)
    (s : MediaStore) : Decidable (LibraryCuts query deleted first after s) := by
  unfold LibraryCuts
  infer_instance

/-! ### The library meanwhile -/

section Changes
variable {deleted : List Uuid} {s s' : MediaStore} {row : MediaRecord}

/-- Whatever is not deleted is still there, of the same instant and id. -/
def Keeps (deleted : List Uuid) (s s' : MediaStore) : Prop :=
  ∀ row ∈ s.rows, row.id ∉ deleted → row.place ∈ s'.rows.map MediaRecord.place

theorem Keeps.refl : Keeps deleted s s := fun _ hrow _ => List.mem_map_of_mem hrow

theorem MediaRecord.id_of_place {row row' : MediaRecord} (h : row'.place = row.place) :
    row'.id = row.id :=
  congrArg (fun place => (ofLex place).2) h

theorem Keeps.trans {s'' : MediaStore} (h : Keeps deleted s s') (h' : Keeps deleted s' s'') :
    Keeps deleted s s'' := by
  intro row hrow hkept
  obtain ⟨row', hrow', hplace⟩ := List.mem_map.mp (h row hrow hkept)
  rw [← MediaRecord.id_of_place hplace] at hkept
  exact hplace ▸ h' row' hrow' hkept

/-- The rows of an edit are the rows there were, with other descriptions. -/
theorem patchMediaAlt_places {id : Uuid} {patch : List (String × Option String)}
    {authorize : MediaRecord → Bool} {answer : Option MediaRecord}
    (h : s.patchMediaAlt id patch authorize = .ok (answer, s')) :
    s'.rows.map MediaRecord.place = s.rows.map MediaRecord.place := by
  rw [MediaStore.patchMediaAlt] at h
  split at h
  · cases h
    rfl
  · split at h
    · cases h
    · cases h
      rw [List.map_map]
      refine List.map_congr_left fun row _ => ?_
      show (if row.id = id then { row with alt := mergeAlt row.alt patch } else row).place = _
      split
      · rfl
      · rfl

/-- The rows of a deletion are the rows there were, but for the one of the id. -/
theorem deleteMediaRow_rows {now : Nat} {id : Uuid} :
    (s.deleteMediaRow now id).2.rows = s.rows.eraseP fun row => row.id = id := by
  rw [MediaStore.deleteMediaRow]
  split
  · rename_i hnone
    exact (List.eraseP_of_forall_not (List.find?_eq_none.mp hnone)).symm
  · exact MediaStore.recordOrphans_rows

/-- **A change** leaves ids unique, and keeps every asset that is not deleted where it
is. -/
theorem LibraryChange.step (h : LibraryChange deleted s s') (hids : (s.rows.map (·.id)).Nodup) :
    (s'.rows.map (·.id)).Nodup ∧ Keeps deleted s s' := by
  cases h with
  | upload hfresh =>
    exact ⟨List.nodup_cons.mpr ⟨hfresh, hids⟩, fun row hrow _ =>
      List.mem_cons_of_mem _ (List.mem_map_of_mem hrow)⟩
  | describe hpatch =>
    have hplaces := patchMediaAlt_places hpatch
    have hsame : s'.rows.map (·.id) = s.rows.map (·.id) := by
      have := congrArg (List.map fun place : Nat ×ₗ Uuid => (ofLex place).2) hplaces
      rw [List.map_map, List.map_map] at this
      exact this
    rw [Keeps, hsame, hplaces]
    exact ⟨hids, Keeps.refl⟩
  | @delete now id hdeleted =>
    rw [Keeps, deleteMediaRow_rows]
    refine ⟨hids.sublist (List.eraseP_sublist.map _), fun row hrow hkept => ?_⟩
    have hne : ¬ decide (row.id = id) = true := by
      intro heq
      exact hkept (of_decide_eq_true heq ▸ hdeleted)
    have hleft : row ∈ s.rows.eraseP fun row => row.id = id :=
      (List.mem_eraseP_of_neg (p := fun row : MediaRecord => decide (row.id = id)) hne).mpr hrow
    exact List.mem_map_of_mem hleft

/-- A run of changes leaves ids unique, and keeps every asset that is not deleted where it is. -/
theorem LibraryChange.run (h : Relation.ReflTransGen (LibraryChange deleted) s s')
    (hids : (s.rows.map (·.id)).Nodup) :
    (s'.rows.map (·.id)).Nodup ∧ Keeps deleted s s' := by
  induction h with
  | refl => exact ⟨hids, Keeps.refl⟩
  | tail _ hchange ih =>
    obtain ⟨hnodup, hkept⟩ := hchange.step ih.1
    exact ⟨hnodup, ih.2.trans hkept⟩

variable {base : String} {actor : Actor} {query : PageQuery} {first : MediaStore}
  {P : Option Cursor → MediaStore → Prop} {after : Option Cursor} {moments : List MediaStore}
  {pages : List MediaListing}

/-- **All along a walk** ids are unique, and what was there and is not deleted is there. -/
theorem LibraryWalk.moments_kept
    (h : LibraryWalk base actor query deleted P after (first :: moments) pages)
    (hids : (first.rows.map (·.id)).Nodup) :
    ∀ s ∈ first :: moments, (s.rows.map (·.id)).Nodup ∧ Keeps deleted first s := by
  generalize hall : first :: moments = all at h
  induction h generalizing first moments with
  | done _ _ _ =>
    cases hall
    intro s hs
    obtain rfl := List.mem_singleton.mp hs
    exact ⟨hids, Keeps.refl⟩
  | more _ _ _ hrun _ ih =>
    cases hall
    intro s hs
    rcases List.mem_cons.mp hs with rfl | hs
    · exact ⟨hids, Keeps.refl⟩
    · obtain ⟨hnodup, hkept⟩ := LibraryChange.run hrun hids
      obtain ⟨hs_nodup, hs_kept⟩ := ih hnodup rfl s hs
      exact ⟨hs_nodup, hkept.trans hs_kept⟩

end Changes

/-! ### Pages by key -/

section Keysets
variable {base : String} {actor : Actor} {query : PageQuery} {deleted : List Uuid}
  {first s : MediaStore} {P Q : Option Cursor → MediaStore → Prop} {after : Option Cursor}
  {moments : List MediaStore} {page : MediaListing} {pages : List MediaListing}

/-- Whoever may read the library gets the page after the cursor. -/
theorem handleMedia_following :
    handleMedia base (some actor) (some (query.following after)) s = .ok page ↔
      canPerformOnMedia .read actor none = true ∧
        page = mediaPage base actor query.limit after s := by
  cases hread : canPerformOnMedia .read actor none with
  | false =>
    rw [handleMedia, requireMediaOperation, hread]
    exact iff_of_false (fun h => by cases h) (fun h => by cases h.1)
  | true =>
    have hanswer : handleMedia base (some actor) (some (query.following after)) s =
        .ok (mediaPage base actor query.limit after s) := by
      rw [handleMedia, requireMediaOperation, hread]
      cases after with
      | none => rfl
      | some cursor => rfl
    rw [hanswer, Except.ok.injEq, eq_comm]
    exact (and_iff_right rfl).symm

/-- A page of the library is a page by key. -/
theorem mediaPage_page :
    (mediaPage base actor query.limit after s).media =
      (Keyset.page MediaRecord.place truncated (pageSize (some (query.limit + 1))) query.limit
        (after.map Cursor.place) s.rows).rows.map (serializeMedia base actor) ∧
    (mediaPage base actor query.limit after s).nextCursor.map Cursor.place =
      (Keyset.page MediaRecord.place truncated (pageSize (some (query.limit + 1))) query.limit
        (after.map Cursor.place) s.rows).next := by
  constructor
  · rfl
  · show Option.map Cursor.place (if _ then _ else _) = if _ then _ else _
    rw [apply_ite (Option.map Cursor.place), Option.map_map]
    rfl

theorem nextCursor_none : (mediaPage base actor query.limit after s).nextCursor = none ↔
    (Keyset.page MediaRecord.place truncated (pageSize (some (query.limit + 1))) query.limit
      (after.map Cursor.place) s.rows).next = none := by
  rw [← mediaPage_page.2, Option.map_eq_none_iff]

/-- A page of the largest size never says that there is more. -/
theorem mediaPage_of_max (hmax : query.limit = MAX_PAGE_SIZE) :
    (mediaPage base actor query.limit after s).nextCursor = none := by
  rw [nextCursor_none]
  by_contra hnext
  obtain ⟨next, hnext⟩ := Option.ne_none_iff_exists'.mp hnext
  have hfetch := fetch_lt.mp (Keyset.fetch_of_next hnext)
  omega

theorem libraryCuts_iff : LibraryCuts query deleted first after s ↔
    Keyset.CutsFor MediaRecord.place truncated (pageSize (some (query.limit + 1))) query.limit
      (after.map Cursor.place) s.rows (Kept deleted first) := by
  rw [LibraryCuts, Keyset.CutsFor, fetch_lt]
  rfl

/-- A walk through the library is a walk by key. -/
theorem LibraryWalk.keyset {K : Option (Nat ×ₗ Uuid) → List MediaRecord → Prop}
    (h : LibraryWalk base actor query deleted P after moments pages)
    (hP : ∀ after s, P after s → K (after.map Cursor.place) s.rows) :
    ∃ keyset, Keyset.Walk MediaRecord.place truncated (pageSize (some (query.limit + 1)))
        query.limit K (after.map Cursor.place) (moments.map (·.rows)) keyset ∧
      pages.flatMap (·.media) = (keyset.flatMap (·.rows)).map (serializeMedia base actor) := by
  induction h with
  | @done after s page hp hpage hnone =>
    obtain ⟨-, rfl⟩ := handleMedia_following.mp hpage
    refine ⟨_, .done (hP after s hp) (nextCursor_none.mp hnone), ?_⟩
    simpa using mediaPage_page.1
  | @more after s s' page next moments pages hp hpage hnext _ _ ih =>
    obtain ⟨-, rfl⟩ := handleMedia_following.mp hpage
    obtain ⟨keyset, hwalk, hsame⟩ := ih
    refine ⟨_, .more (hP after s hp) ?_ hwalk, ?_⟩
    · rw [← mediaPage_page.2, hnext]
      rfl
    · rw [List.flatMap_cons, List.flatMap_cons, List.map_append, ← hsame, ← mediaPage_page.1]

/-- What holds of the requests of the walk by key holds of those of the walk. -/
theorem LibraryWalk.of_keyset {K : Option (Nat ×ₗ Uuid) → List MediaRecord → Prop}
    {keyset : List (Keyset.Page MediaRecord (Nat ×ₗ Uuid))}
    (h : LibraryWalk base actor query deleted P after moments pages)
    (hwalk : Keyset.Walk MediaRecord.place truncated (pageSize (some (query.limit + 1)))
      query.limit K (after.map Cursor.place) (moments.map (·.rows)) keyset)
    (hQ : ∀ after s, K (after.map Cursor.place) s.rows → Q after s) :
    LibraryWalk base actor query deleted Q after moments pages := by
  induction h generalizing keyset with
  | @done after s page _ hpage hnone =>
    cases hwalk with
    | done hk _ => exact .done (hQ after s hk) hpage hnone
    | more _ _ hrest => cases hrest
  | @more after s s' page next moments pages _ hpage hnext hrun _ ih =>
    cases hwalk with
    | more hk hnext' hrest =>
      obtain ⟨-, rfl⟩ := handleMedia_following.mp hpage
      rw [← mediaPage_page.2, hnext] at hnext'
      obtain rfl := Option.some.inj hnext'
      exact .more (hQ after s hk) hpage hnext hrun (ih hrest)

end Keysets

/-! ### The walk -/

section Exact
variable {base : String} {actor : Actor} {query : PageQuery} {deleted : List Uuid}
  {first s : MediaStore} {moments : List MediaStore} {pages : List MediaListing}
  {row found : MediaRecord}

theorem places_nodup (hids : (s.rows.map (·.id)).Nodup) : (s.rows.map MediaRecord.place).Nodup := by
  have hid : (fun row : MediaRecord => row.id) =
      (fun place : Nat ×ₗ Uuid => (ofLex place).2) ∘ MediaRecord.place := rfl
  rw [hid, ← List.map_map] at hids
  exact List.Nodup.of_map _ hids

/-- Whatever has the id of an asset that is kept is at its place. -/
theorem place_of_id (hids : (s.rows.map (·.id)).Nodup) (hkept : Keeps deleted first s)
    (hrow : row ∈ first.rows) (hdeleted : row.id ∉ deleted) (hfound : found ∈ s.rows)
    (hid : found.id = row.id) : found.place = row.place := by
  obtain ⟨row', hrow', hplace⟩ := List.mem_map.mp (hkept row hrow hdeleted)
  have hsame : found = row' := List.inj_on_of_nodup_map hids hfound hrow'
    (hid.trans (MediaRecord.id_of_place hplace).symm)
  rw [hsame, hplace]

theorem mem_moment (h : ∃ rows ∈ moments.map (·.rows), found ∈ rows) :
    ∃ s ∈ moments, found ∈ s.rows := by
  obtain ⟨rows, hrows, hfound⟩ := h
  obtain ⟨s, hs, rfl⟩ := List.mem_map.mp hrows
  exact ⟨s, hs, hfound⟩

/-- **A walk whose pages all cut cleanly** is exact. -/
theorem LibraryWalk.exact
    (h : LibraryWalk base actor query deleted (LibraryCuts query deleted first) none
      (first :: moments) pages)
    (hids : (first.rows.map (·.id)).Nodup) :
    LibraryExact base actor query deleted first (first :: moments) pages := by
  have hmoments := h.moments_kept hids
  obtain ⟨keyset, hwalk, hsame⟩ := h.keyset (K := fun cursor rows =>
    Keyset.CutsFor MediaRecord.place truncated (pageSize (some (query.limit + 1))) query.limit
      cursor rows (Kept deleted first)) fun _ _ => libraryCuts_iff.mp
  have hsorted := (hwalk.descending truncated_le (limit_le_fetch query.limit_max)
    (List.forall_mem_map.mpr fun s hs => places_nodup (hmoments s hs).1)).2
  refine ⟨⟨_, hsame, fun row hrow => mem_moment (hwalk.mem hrow), hsorted⟩,
    fun row hrow hdeleted => ?_, ?_⟩
  · obtain ⟨found, hfound, hplace⟩ := hwalk.complete (S := Kept deleted first)
      (T := fun found : MediaRecord => found.place = row.place) query.limit_pos
      (limit_le_fetch query.limit_max) (fun _ _ hcuts => hcuts) ⟨row, hrow, rfl, hdeleted⟩
      (fun _ heq => heq) (List.forall_mem_map.mpr fun s hs =>
        List.mem_map.mp ((hmoments s hs).2 row hrow hdeleted)) (fun c hc => by cases hc)
    refine ⟨found, mem_moment (hwalk.mem hfound), hplace, ?_⟩
    -- Nothing else has the id, for it would be at the same place.
    have hone : ((keyset.flatMap (·.rows)).filter (·.id = row.id)).length ≤ 1 := by
      refine RowLocks.atMostOne_of_pairwise hsorted fun a ha b hb hida hidb hlt => ?_
      have hplace : ∀ r ∈ keyset.flatMap (·.rows), r.id = row.id → r.place = row.place := by
        intro r hr hid
        obtain ⟨s, hs, hr⟩ := mem_moment (hwalk.mem hr)
        exact place_of_id (hmoments s hs).1 (hmoments s hs).2 hrow hdeleted hr hid
      rw [hplace a ha (of_decide_eq_true hida), hplace b hb (of_decide_eq_true hidb)] at hlt
      exact lt_irrefl _ hlt
    rw [hsame, List.filter_map]
    exact congrArg (List.map (serializeMedia base actor)) (RowLocks.filter_eq_singleton hone hfound
      (decide_eq_true (MediaRecord.id_of_place hplace)))
  · refine h.of_keyset hwalk fun after s hcuts => ?_
    rw [nextCursor_none]
    exact (Keyset.page_cuts query.limit_pos (limit_le_fetch query.limit_max) hcuts).1

/-- **Following the cursors** through the library returns every asset that was there and
is not deleted exactly once, in order, and stops where nothing is left, if and only if
every page cuts cleanly for the assets that are kept. -/
theorem library_exact
    (h : LibraryWalk base actor query deleted (fun _ _ => True) none (first :: moments) pages)
    (hids : (first.rows.map (·.id)).Nodup) :
    LibraryExact base actor query deleted first (first :: moments) pages ↔
      LibraryWalk base actor query deleted (LibraryCuts query deleted first) none
        (first :: moments) pages := by
  refine ⟨fun hexact => ?_, fun hcuts => hcuts.exact hids⟩
  have hmoments := h.moments_kept hids
  obtain ⟨keyset, hwalk, hsame⟩ := hexact.last.keyset (K := fun cursor rows =>
    (Keyset.page MediaRecord.place truncated (pageSize (some (query.limit + 1))) query.limit
      cursor rows).next = none ↔
        (Keyset.remaining MediaRecord.place cursor rows).length ≤ query.limit)
    fun _ _ => nextCursor_none.symm.trans
  have hcuts := hwalk.cuts_of_complete (S := Kept deleted first) truncated_le
    (limit_le_fetch query.limit_max)
    (List.forall_mem_map.mpr fun s hs => places_nodup (hmoments s hs).1) ?_
  · exact h.of_keyset hcuts fun _ _ => libraryCuts_iff.mpr
  · -- What is returned of an asset that is kept is its row at some moment.
    rintro place ⟨row, hrow, rfl, hdeleted⟩ -
    obtain ⟨found, -, -, hfound⟩ := hexact.once row hrow hdeleted
    have hmem := List.mem_filter.mp (hfound ▸ List.mem_singleton_self _ :
      serializeMedia base actor found ∈ _)
    rw [hsame] at hmem
    obtain ⟨r, hr, hserialized⟩ := List.mem_map.mp hmem.1
    have hid : r.id = row.id := by
      rw [← of_decide_eq_true hmem.2, ← hserialized]
      rfl
    obtain ⟨s, hs, hrs⟩ := mem_moment (hwalk.mem hr)
    exact List.mem_map.mpr ⟨r, hr,
      place_of_id (hmoments s hs).1 (hmoments s hs).2 hrow hdeleted hrs hid⟩

/-- **A walk ends**, if only so many assets are ever uploaded: each page but the last takes
the cursor below another one. -/
theorem library_walk_ends (hread : canPerformOnMedia .read actor none = true)
    (places : Finset (Nat ×ₗ Uuid)) (after : Option Cursor) (library : Nat → MediaStore)
    (hchanges : ∀ n, Relation.ReflTransGen (LibraryChange deleted) (library n) (library (n + 1)))
    (hplaces : ∀ n, ∀ row ∈ (library n).rows, row.place ∈ places) :
    ∃ n pages, LibraryWalk base actor query deleted (fun _ _ => True) after
      ((List.range (n + 1)).map library) pages := by
  induction hbelow : (places.filter fun place => ∀ c ∈ after.map Cursor.place, place < c).card
    using Nat.strong_induction_on generalizing after library with
  | _ below ih =>
    have hpage : handleMedia base (some actor) (some (query.following after)) (library 0) =
        .ok (mediaPage base actor query.limit after (library 0)) :=
      handleMedia_following.mpr ⟨hread, rfl⟩
    cases hnext : (mediaPage base actor query.limit after (library 0)).nextCursor with
    | none => exact ⟨0, _, .done trivial hpage hnext⟩
    | some next =>
      -- The last asset of the page is below the old cursor, and not below the new one.
      obtain ⟨-, l, hl, hmark⟩ := Keyset.page_next
        (mediaPage_page.2.symm.trans (congrArg (Option.map Cursor.place) hnext))
      rw [Keyset.page_rows (limit_le_fetch query.limit_max)] at hl
      have hmem := Keyset.mem_remaining.mp (List.mem_of_mem_take (List.mem_of_getLast? hl))
      have hle : next.place ≤ l.place := hmark ▸ truncated_le l.place
      have hfewer := Keyset.card_below_lt (hplaces 0 l hmem.1) hmem.2 hle
      rw [hbelow] at hfewer
      obtain ⟨n, pages, hwalk⟩ := ih _ hfewer (some next) (fun n => library (n + 1))
        (fun n => hchanges (n + 1)) (fun n => hplaces (n + 1)) rfl
      refine ⟨n + 1, mediaPage base actor query.limit after (library 0) :: pages, ?_⟩
      rw [List.range_succ_eq_map, List.map_cons, List.map_map]
      show LibraryWalk base actor query deleted _ after
        (library 0 :: (List.range (n + 1)).map fun n => library (n + 1)) _
      rw [List.range_succ_eq_map, List.map_cons] at hwalk ⊢
      exact .more trivial hpage hnext (hchanges 0) hwalk

end Exact

/-! ### Two assets, one at a time -/

/-- An asset that was uploaded at an instant. -/
def photoAt (id : Uuid) (instant : Nat) : MediaRecord where
  id := id
  storageKey := "photo-" ++ toString id
  mimeType := "image/webp"
  width := some 800
  height := some 600
  alt := []
  uploadedById := none
  byteSize := 4096
  «meta» := ⟨none, none⟩
  createdAt := instant

def photosAt (first second : Nat) : MediaStore :=
  ((⟨[], [], []⟩ : MediaStore).createMedia (photoAt 1 first)).createMedia (photoAt 2 second)

def librarian : Actor := ⟨[.mediaRead, .mediaUpdateAny], some 7⟩

/-- A page of the library for one photo. -/
def onePhoto : PageQuery := ⟨oneByOne.limit, none, oneByOne.limit_pos, oneByOne.limit_max⟩

/-- The photos a moment later: a third is uploaded, and the first is described. -/
def photosLater : MediaStore :=
  let s := (photosAt 1200 2500).createMedia (photoAt 3 3100)
  { s with rows := s.rows.map fun row =>
      if row.id = 1 then { row with alt := mergeAlt row.alt [("en", some "A red bicycle")] }
      else row }

theorem photos_change :
    Relation.ReflTransGen (LibraryChange []) (photosAt 1200 2500) photosLater := by
  have hupload : LibraryChange [] (photosAt 1200 2500)
      ((photosAt 1200 2500).createMedia (photoAt 3 3100)) := .upload (by decide)
  have hpatch : ((photosAt 1200 2500).createMedia (photoAt 3 3100)).patchMediaAlt 1
      [("en", some "A red bicycle")] (fun row => canEditMedia librarian row.toMediaRow) =
        .ok (some { photoAt 1 1200 with alt := [("en", "A red bicycle")] }, photosLater) := rfl
  exact .tail (.single hupload) (.describe hpatch)

/-- The librarian may read the library, and gets the page after the cursor. -/
theorem librarian_page (after : Option Cursor) (s : MediaStore) :
    handleMedia "https://media.example" (some librarian) (some (onePhoto.following after)) s =
      .ok (mediaPage "https://media.example" librarian 1 after s) :=
  handleMedia_following.mpr ⟨by decide, rfl⟩

theorem library_exact_photos :
    LibraryExact "https://media.example" librarian onePhoto [] (photosAt 1200 2500)
      [photosAt 1200 2500, photosLater]
      [mediaPage "https://media.example" librarian 1 none (photosAt 1200 2500),
        mediaPage "https://media.example" librarian 1 (some ⟨2, 2⟩) photosLater] := by
  have hfirst : (mediaPage "https://media.example" librarian 1 none
      (photosAt 1200 2500)).nextCursor = some ⟨2, 2⟩ := by decide +kernel
  have hsecond : (mediaPage "https://media.example" librarian 1 (some ⟨2, 2⟩)
      photosLater).nextCursor = none := by decide +kernel
  refine (library_exact (.more trivial (librarian_page _ _) hfirst photos_change
    (.done trivial (librarian_page _ _) hsecond)) (by decide)).mpr ?_
  exact .more (by decide +kernel) (librarian_page _ _) hfirst photos_change
    (.done (by decide +kernel) (librarian_page _ _) hsecond)

/-- **Two assets of one millisecond**, read one at a time: the first is lost. -/
theorem library_loses : ∃ pages,
    LibraryWalk "https://media.example" librarian onePhoto [] (fun _ _ => True) none
      [photosAt 1200 1500, photosAt 1200 1500] pages ∧
    ¬ LibraryExact "https://media.example" librarian onePhoto [] (photosAt 1200 1500)
      [photosAt 1200 1500, photosAt 1200 1500] pages := by
  refine ⟨[mediaPage "https://media.example" librarian 1 none (photosAt 1200 1500),
    mediaPage "https://media.example" librarian 1 (some ⟨1, 2⟩) (photosAt 1200 1500)],
    .more trivial (librarian_page _ _) (by decide +kernel) .refl
      (.done trivial (librarian_page _ _) (by decide +kernel)), fun hexact => ?_⟩
  obtain ⟨found, -, -, honce⟩ := hexact.once (photoAt 1 1200) (by decide) (by decide)
  have hnone : ([mediaPage "https://media.example" librarian 1 none (photosAt 1200 1500),
      mediaPage "https://media.example" librarian 1 (some ⟨1, 2⟩)
        (photosAt 1200 1500)].flatMap (·.media)).filter (·.id = 1) = [] := by decide +kernel
  exact List.cons_ne_nil _ _ (honce.symm.trans hnone)

end PressLabz
