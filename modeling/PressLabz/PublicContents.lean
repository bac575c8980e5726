import Mathlib.Data.Prod.Lex
import PressLabz.PageTree

/-! # What the public site reads

The queries of `packages/db/src/repositories/public-contents.ts`, and the one of
`media.ts` that a page makes.  Every query of documents asks `publiclyVisible`.

The queries say what they return through the filter they apply.
-/
namespace PressLabz
open Forest

/-- `now` is in milliseconds. -/
def publiclyVisible (now : Nat) (row : ContentRow) : Bool :=
  row.status ∈ publicContentStatuses && row.publishedAt.all (· ≤ now)

/-- `PUBLISHED_ORDER`, greatest first. -/
def ContentRow.publishedPlace (row : ContentRow) : Nat ×ₗ Uuid :=
  toLex ((row.publishedAt.map (· * 1000)).getD row.createdAt, row.id)

def MAX_LIMIT : Nat := 100
def DEFAULT_LIMIT : Nat := 20

def clampLimit (limit : Option Nat) : Nat :=
  match limit with
  | none => DEFAULT_LIMIT
  | some limit => min MAX_LIMIT (max 1 limit)

structure PublishedListQuery where
  type : String
  locale : String
  now : Nat
  limit : Option Nat := none
  offset : Option Nat := none

/-- What an archive lists. -/
def isListed (type locale : String) (now : Nat) (row : ContentRow) : Bool :=
  row.type = type && row.locale = locale && publiclyVisible now row

namespace Database
variable (db : Database)

def listPublished (query : PublishedListQuery) : List ContentRow :=
  (((db.contents.filter (isListed query.type query.locale query.now)).insertionSort
    fun a b => b.publishedPlace ≤ a.publishedPlace).drop (query.offset.getD 0)).take
      (clampLimit query.limit)

def countPublished (type locale : String) (now : Nat) : Nat :=
  (db.contents.filter (isListed type locale now)).length

def findPublishedBySlug (type locale slug : String) (now : Nat) : Option ContentRow :=
  (db.contents.filter fun row => isListed type locale now row && row.slug = slug).head?

/-- The published siblings of a document, itself among them. -/
def listPublishedTranslations (translationGroupId : Uuid) (now : Nat) : List ContentRow :=
  (db.contents.filter fun row => row.translationGroupId = translationGroupId &&
    publiclyVisible now row).insertionSort fun a b => a.locale ≤ b.locale

/-- The ids are compared as uuids. -/
def findMediaByIds (ids : List UuidText) : List MediaRow :=
  db.media.filter fun row => ids.any (·.uuid = row.id)

end Database

/-! ## What a query finds -/

section Finding
variable {db : Database} {row : ContentRow} {type locale slug : String} {now : Nat}

theorem isListed_iff : isListed type locale now row = true ↔
    row.type = type ∧ row.locale = locale ∧ publiclyVisible now row = true := by
  simp [isListed, and_assoc]

theorem findPublishedBySlug_some (h : db.findPublishedBySlug type locale slug now = some row) :
    row ∈ db.contents ∧ row.type = type ∧ row.locale = locale ∧ row.slug = slug ∧
      publiclyVisible now row = true := by
  have hmem := List.mem_filter.mp (List.mem_of_mem_head? h)
  simp only [Bool.and_eq_true, isListed_iff, decide_eq_true_eq] at hmem
  obtain ⟨hrow, ⟨htype, hlocale, hvisible⟩, hslug⟩ := hmem
  exact ⟨hrow, htype, hlocale, hslug, hvisible⟩

/-- A slug names one document of a type and a locale. -/
theorem slug_unique (hc : db.Constraints) {a b : ContentRow} (ha : a ∈ db.contents)
    (hb : b ∈ db.contents) (htype : a.type = b.type) (hlocale : a.locale = b.locale)
    (hslug : a.slug = b.slug) : a = b :=
  Rows.eq_of_unique (fun _ _ h => ⟨h.1.symm, h.2.1.symm, h.2.2.symm⟩)
    hc.contents_type_locale_slug_uq ha hb ⟨htype, hlocale, hslug⟩

/-- A group has one document of a locale. -/
theorem translation_unique (hc : db.Constraints) {a b : ContentRow} (ha : a ∈ db.contents)
    (hb : b ∈ db.contents) (hgroup : a.translationGroupId = b.translationGroupId)
    (hlocale : a.locale = b.locale) : a = b :=
  Rows.eq_of_unique (fun _ _ h => ⟨h.1.symm, h.2.symm⟩)
    hc.contents_group_locale_uq ha hb ⟨hgroup, hlocale⟩

theorem findPublishedBySlug_of_mem (hc : db.Constraints) (hrow : row ∈ db.contents)
    (hvisible : publiclyVisible now row = true) :
    db.findPublishedBySlug row.type row.locale row.slug now = some row := by
  unfold Database.findPublishedBySlug
  have hmem : row ∈ db.contents.filter fun x =>
      isListed row.type row.locale now x && x.slug = row.slug :=
    List.mem_filter.mpr ⟨hrow, by simp [isListed, hvisible]⟩
  obtain ⟨found, hfound⟩ : ∃ found, (db.contents.filter fun x =>
      isListed row.type row.locale now x && x.slug = row.slug).head? = some found := by
    cases h : (db.contents.filter fun x =>
        isListed row.type row.locale now x && x.slug = row.slug).head? with
    | some found => exact ⟨found, rfl⟩
    | none =>
      rw [List.head?_eq_none_iff.mp h] at hmem
      cases hmem
  obtain ⟨hmem', htype, hlocale, hslug, -⟩ := findPublishedBySlug_some hfound
  rw [hfound, slug_unique hc hmem' hrow htype hlocale hslug]

theorem mem_translations {g : Uuid} : row ∈ db.listPublishedTranslations g now ↔
    row ∈ db.contents ∧ row.translationGroupId = g ∧ publiclyVisible now row = true := by
  unfold Database.listPublishedTranslations
  rw [List.mem_insertionSort, List.mem_filter]
  simp

end Finding

/-! ## The path of a document -/

section Paths
variable {db : Database} {id : Uuid} {row : ContentRow} {l : List Uuid}

/-- The slug of a document that is there. -/
def Database.slugOf (db : Database) (id : Uuid) : String :=
  ((db.content id).map (·.slug)).getD ""

theorem Database.slugOf_content (h : db.content id = some row) : db.slugOf id = row.slug := by
  rw [Database.slugOf, h]
  rfl

theorem mem_ancestryRows {type locale : String} {left : Nat} {current : Option Uuid}
    (h : row ∈ db.ancestryRows type locale left current) : db.content row.id = some row := by
  induction left generalizing current with
  | zero =>
    cases current with
    | none => cases h
    | some id => cases h
  | succ left ih =>
    cases current with
    | none => cases h
    | some id =>
      rw [Database.ancestryRows] at h
      split at h
      · cases h
      · rename_i r hr
        rcases List.mem_cons.mp h with rfl | h
        · have hcontent := (Option.filter_eq_some_iff.mp hr).1
          rwa [Database.id_of_content hcontent]
        · exact ih h

/-- **The path of a document** is the slugs of the documents above it, root first. -/
theorem resolveAncestry_path (hinv : ContentsInv db) (hrow : db.content id = some row)
    (hp : Path db.parents id l) :
    db.resolveAncestry id row.type row.locale = some ⟨(l.map db.slugOf).reverse, true⟩ := by
  obtain rfl : row.id = id := Database.id_of_content hrow
  obtain ⟨l', hp', hlen⟩ := hinv.tree row.id (Database.parents_ne_none.mpr ⟨row, hrow⟩)
  obtain rfl := hp.unique hp'
  have hkin := path_kin hinv.constraints hp hrow
  obtain ⟨hids, init, top, heq, hnone⟩ := ancestryRows_path hp hkin hlen
  have hslugs : (db.ancestryRows row.type row.locale MAX_HIERARCHY_DEPTH (some row.id)).map
      (·.slug) = l.map db.slugOf := by
    rw [← hids, List.map_map]
    refine List.map_congr_left fun r hr => ?_
    exact (Database.slugOf_content (mem_ancestryRows hr)).symm
  rw [← hslugs, ← List.map_reverse, Database.resolveAncestry, heq, List.reverse_append,
    List.reverse_singleton]
  simp [hnone]

end Paths
end PressLabz
