import PressLabz.PublicAddresses

/-! # The sitemap

`apps/web/src/pages/sitemap.xml.ts`, over `listPublishedPaths`: the documents the
site tells a crawler about, with their URLs.

The query descends from the roots and asks of every document on the way whether it
is public; the pages climb from the document and ask of that one alone.  What the
sitemap lists is therefore what the site answers with only where both agree on
every public document (`sitemap_exact`).
-/
namespace PressLabz
open Forest RowLocks

/-! ## The query -/

/-- A row of the recursive query: the columns of a document, and the path that led
to it, root first. -/
structure PublishedPathRow where
  row : ContentRow
  path : List String

def MAX_PATHS : Nat := 50000

namespace Database
variable (db : Database) (now : Nat)

/-- The rows the recursion starts from. -/
def publishedRoots : List PublishedPathRow :=
  (db.contents.filter fun row => row.parentId = none && publiclyVisible now row).map fun row =>
    ⟨row, [row.slug]⟩

/-- One turn of the recursion: the join with the rows of the turn before. -/
def publishedBelow (parents : List PublishedPathRow) : List PublishedPathRow :=
  db.contents.flatMap fun row =>
    (parents.filter fun parent => row.parentId = some parent.row.id &&
      row.type = parent.row.type && row.locale = parent.row.locale &&
        publiclyVisible now row).map fun parent => ⟨row, parent.path ++ [row.slug]⟩

/-- The rows of `turns` turns, the first of which found `rows`. -/
def publishedTree : Nat → List PublishedPathRow → List PublishedPathRow
  | 0, _ => []
  | turns + 1, rows => rows ++ publishedTree turns (db.publishedBelow now rows)

def listPublishedPaths (limit : Option Nat) : List PublishedPathRow :=
  ((db.publishedTree now MAX_HIERARCHY_DEPTH (db.publishedRoots now)).insertionSort
    fun a b => b.row.updatedAt ≤ a.row.updatedAt).take
      (min MAX_PATHS (max 1 (limit.getD MAX_PATHS)))

end Database

/-! ## The page -/

structure SitemapEntry where
  loc : String
  lastmod : Option Nat := none
  /-- Languages and addresses. -/
  alternates : Option (List (String × String)) := none

def LOCALE_TAGS : List (String × String) := [("en", "en"), ("fr", "fr")]

/-- A language without a tag stands for itself. -/
def localeTag (locale : String) : String := (LOCALE_TAGS.lookup locale).getD locale

section Page
variable (site : Site) (now : Nat) (db : Database)

/-- The documents that are listed, with their types: of a registered type, and not
kept out of results. -/
def sitemapRows : List (PublishedPathRow × AnyContentType) :=
  (db.listPublishedPaths now none).filterMap fun found =>
    ((registryGet site.types found.row.type).filter fun _ => !isNoindex found.row.meta).map
      fun type => (found, type)

/-- The path of a listed document. -/
def listedPath (listed : PublishedPathRow × AnyContentType) : String :=
  documentPath listed.1.row.locale listed.2 listed.1.path

def hrefOf (listed : PublishedPathRow × AnyContentType) : String :=
  site.absolute (listedPath listed)

/-- The home page and each archive, per language. -/
def listingEntries : List SitemapEntry :=
  site.locales.flatMap fun locale =>
    { loc := site.absolute (homePath locale) } ::
      (site.types.filter fun type => type.basePath ≠ "").map fun type =>
        { loc := site.absolute (archivePath locale type) }

/-- The entry of a document names its listed siblings. -/
def documentEntry (rows : List (PublishedPathRow × AnyContentType))
    (listed : PublishedPathRow × AnyContentType) : SitemapEntry :=
  let siblings := rows.filter fun other =>
    other.1.row.translationGroupId = listed.1.row.translationGroupId
  { loc := hrefOf site listed
    lastmod := some listed.1.row.updatedAt
    alternates :=
      if 1 < siblings.length then
        some (siblings.map fun sibling => (localeTag sibling.1.row.locale, hrefOf site sibling))
      else none }

/-- `sitemap.xml`. -/
def sitemap : List SitemapEntry :=
  listingEntries site ++
    (sitemapRows site now db).map (documentEntry site (sitemapRows site now db))

end Page

/-! ## What the recursion finds -/

/-- The row leads down to the document, through public documents only. -/
structure Descends (db : Database) (now : Nat) (found : PublishedPathRow) (l : List Uuid) :
    Prop where
  mem : found.row ∈ db.contents
  path : Path db.parents found.row.id l
  visible : ∀ x ∈ l, ∀ q, db.content x = some q → publiclyVisible now q = true
  slugs : found.path = (l.map db.slugOf).reverse

/-- The rows of one turn. -/
def Database.publishedLevel (db : Database) (now : Nat) : Nat → List PublishedPathRow
  | 0 => db.publishedRoots now
  | depth + 1 => db.publishedBelow now (db.publishedLevel now depth)

section Levels
variable {db : Database} {now : Nat} {found : PublishedPathRow}

theorem parents_content (hc : db.Constraints) {row : ContentRow} (h : row ∈ db.contents) :
    db.parents row.id = some row.parentId :=
  Database.parents_eq_some.mpr ⟨row, Database.content_of_mem hc h, rfl⟩

theorem slugOf_mem (hc : db.Constraints) {row : ContentRow} (h : row ∈ db.contents) :
    db.slugOf row.id = row.slug := Database.slugOf_content (Database.content_of_mem hc h)

theorem mem_publishedBelow {parents : List PublishedPathRow} :
    found ∈ db.publishedBelow now parents ↔ found.row ∈ db.contents ∧
      publiclyVisible now found.row = true ∧ ∃ parent ∈ parents,
        found.row.parentId = some parent.row.id ∧ found.row.type = parent.row.type ∧
        found.row.locale = parent.row.locale ∧ found.path = parent.path ++ [found.row.slug] := by
  simp only [Database.publishedBelow, List.mem_flatMap, List.mem_map, List.mem_filter,
    Bool.and_eq_true, decide_eq_true_iff]
  constructor
  · rintro ⟨row, hrow, parent, ⟨hparent, ⟨⟨hid, htype⟩, hlocale⟩, hvisible⟩, rfl⟩
    exact ⟨hrow, hvisible, parent, hparent, hid, htype, hlocale, rfl⟩
  · rintro ⟨hrow, hvisible, parent, hparent, hid, htype, hlocale, hpath⟩
    exact ⟨found.row, hrow, parent, ⟨hparent, ⟨⟨hid, htype⟩, hlocale⟩, hvisible⟩, by rw [← hpath]⟩

/-- The rows of a turn are the documents of that depth. -/
theorem mem_publishedLevel (hc : db.Constraints) {depth : Nat} :
    found ∈ db.publishedLevel now depth ↔ ∃ l, l.length = depth + 1 ∧ Descends db now found l := by
  induction depth generalizing found with
  | zero =>
    simp only [Database.publishedLevel, Database.publishedRoots, List.mem_map, List.mem_filter,
      Bool.and_eq_true, decide_eq_true_iff]
    constructor
    · rintro ⟨row, ⟨hrow, hroot, hvisible⟩, rfl⟩
      refine ⟨[row.id], rfl, hrow, .root (by rw [parents_content hc hrow, hroot]), ?_, ?_⟩
      · intro x hx q hq
        obtain rfl := List.mem_singleton.mp hx
        rw [Database.content_of_mem hc hrow] at hq
        exact Option.some.inj hq ▸ hvisible
      · simp [slugOf_mem hc hrow]
    · rintro ⟨l, hlen, hmem, hpath, hvisible, hslugs⟩
      cases hpath with
      | root hup =>
        rw [parents_content hc hmem] at hup
        refine ⟨found.row, ⟨hmem, Option.some.inj hup, ?_⟩, ?_⟩
        · exact hvisible _ List.mem_cons_self found.row (Database.content_of_mem hc hmem)
        · obtain ⟨row, path⟩ := found
          simp only [List.map_cons, List.map_nil, List.reverse_singleton] at hslugs
          rw [hslugs, slugOf_mem hc hmem]
      | step hup hp =>
        obtain ⟨rest, rfl⟩ := hp.head
        simp at hlen
  | succ depth ih =>
    rw [Database.publishedLevel, mem_publishedBelow]
    constructor
    -- a row below a row of the level before has a path that is one longer
    · rintro ⟨hmem, hvisible, parent, hparent, hid, htype, hlocale, hpath⟩
      obtain ⟨l, hlen, hdescends⟩ := ih.mp hparent
      refine ⟨found.row.id :: l, by simp [hlen], hmem, .step ?_ hdescends.path, ?_, ?_⟩
      · rw [parents_content hc hmem, hid]
      · intro x hx q hq
        rcases List.mem_cons.mp hx with rfl | hx
        · rw [Database.content_of_mem hc hmem] at hq
          exact Option.some.inj hq ▸ hvisible
        · exact hdescends.visible x hx q hq
      · rw [hpath, hdescends.slugs, List.map_cons, List.reverse_cons, slugOf_mem hc hmem]
    · rintro ⟨l, hlen, hmem, hpath, hvisible, hslugs⟩
      cases hpath with
      | root hup => simp at hlen
      | @step _ p l hup hp =>
        rw [parents_content hc hmem] at hup
        have hparent := Option.some.inj hup
        -- the foreign key gives the parent, which is of the level before
        obtain ⟨q, hq, hqid, htype, hlocale⟩ := hc.contents_parent_fk found.row hmem p hparent
        refine ⟨hmem, hvisible _ List.mem_cons_self found.row (Database.content_of_mem hc hmem),
          ⟨q, (l.map db.slugOf).reverse⟩, ih.mpr ⟨l, by simpa using hlen, hq, hqid ▸ hp,
            fun x hx => hvisible x (List.mem_cons_of_mem _ hx), rfl⟩,
          hparent.trans (congrArg some hqid.symm), htype.symm, hlocale.symm, ?_⟩
        rw [hslugs, List.map_cons, List.reverse_cons, slugOf_mem hc hmem]

theorem mem_publishedTree {turns depth : Nat} :
    found ∈ db.publishedTree now turns (db.publishedLevel now depth) ↔
      ∃ k, k < turns ∧ found ∈ db.publishedLevel now (depth + k) := by
  induction turns generalizing depth with
  | zero => simp [Database.publishedTree]
  | succ turns ih =>
    have hnext : db.publishedBelow now (db.publishedLevel now depth) =
        db.publishedLevel now (depth + 1) := rfl
    rw [Database.publishedTree, hnext, List.mem_append, ih]
    constructor
    · rintro (h | ⟨k, hk, h⟩)
      · exact ⟨0, Nat.succ_pos _, h⟩
      · exact ⟨k + 1, by omega, by rwa [Nat.add_assoc, Nat.add_comm 1 k] at h⟩
    · rintro ⟨k, hk, h⟩
      cases k with
      | zero => exact .inl h
      | succ k => exact .inr ⟨k, by omega, by rwa [Nat.add_assoc, Nat.add_comm 1 k]⟩

/-- A turn finds each document once. -/
theorem publishedBelow_nodup (hc : db.Constraints) {parents : List PublishedPathRow}
    (h : (parents.map (·.row.id)).Nodup) :
    ((db.publishedBelow now parents).map (·.row.id)).Nodup := by
  rw [Database.publishedBelow, List.map_flatMap, List.nodup_flatMap]
  refine ⟨fun row _ => ?_, ?_⟩
  · -- A row has one parent.
    rw [List.map_map]
    have hone := atMostOne_of_pairwise (p := fun parent : PublishedPathRow =>
        row.parentId = some parent.row.id && row.type = parent.row.type &&
          row.locale = parent.row.locale && publiclyVisible now row)
      (List.pairwise_map.mp h) fun a _ b _ ha hb hne => by
        simp only [Bool.and_eq_true, decide_eq_true_iff] at ha hb
        exact hne (Option.some.inj (ha.1.1.1.symm.trans hb.1.1.1))
    generalize parents.filter _ = kept at hone ⊢
    match kept, hone with
    | [], _ => exact List.nodup_nil
    | [_], _ => exact List.nodup_singleton _
    | _ :: _ :: _, hone => simp at hone
  · refine (List.pairwise_map.mp hc.contents_pkey).imp fun {a b} hne => ?_
    intro id ha hb
    obtain ⟨found, hfound, rfl⟩ := List.mem_map.mp ha
    obtain ⟨_, -, rfl⟩ := List.mem_map.mp hfound
    obtain ⟨found, hfound, heq⟩ := List.mem_map.mp hb
    obtain ⟨_, -, rfl⟩ := List.mem_map.mp hfound
    exact hne heq.symm

theorem publishedLevel_nodup (hc : db.Constraints) (depth : Nat) :
    ((db.publishedLevel now depth).map (·.row.id)).Nodup := by
  induction depth with
  | zero =>
    rw [Database.publishedLevel, Database.publishedRoots, List.map_map]
    exact hc.contents_pkey.sublist (List.filter_sublist.map _)
  | succ depth ih => exact publishedBelow_nodup hc ih

/-- A document has one depth, so the turns have no document in common. -/
theorem publishedTree_nodup (hc : db.Constraints) (turns depth : Nat) :
    ((db.publishedTree now turns (db.publishedLevel now depth)).map (·.row.id)).Nodup := by
  induction turns generalizing depth with
  | zero => exact List.nodup_nil
  | succ turns ih =>
    have hnext : db.publishedBelow now (db.publishedLevel now depth) =
        db.publishedLevel now (depth + 1) := rfl
    rw [Database.publishedTree, hnext, List.map_append]
    refine List.nodup_append.mpr ⟨publishedLevel_nodup hc depth, ih (depth + 1), ?_⟩
    rintro id hid _ hid' rfl
    obtain ⟨found, hfound, hfoundid⟩ := List.mem_map.mp hid
    obtain ⟨found', hfound', rfl⟩ := List.mem_map.mp hid'
    obtain ⟨k, -, hfound'⟩ := mem_publishedTree.mp hfound'
    obtain ⟨l, hlen, hdescends⟩ := (mem_publishedLevel hc).mp hfound
    obtain ⟨l', hlen', hdescends'⟩ := (mem_publishedLevel hc).mp hfound'
    have hsame := hdescends.path.unique (hfoundid ▸ hdescends'.path)
    rw [hsame] at hlen
    omega

end Levels

/-- The documents a sitemap has room for. -/
def Database.FewPublished (db : Database) (now : Nat) : Prop :=
  (db.contents.filter (publiclyVisible now)).length ≤ MAX_PATHS

section Listed
variable {db : Database} {now : Nat} {found : PublishedPathRow}

theorem Descends.isVisible {l : List Uuid} (h : Descends db now found l) (hc : db.Constraints) :
    publiclyVisible now found.row = true :=
  h.visible _ h.path.mem_self found.row (Database.content_of_mem hc h.mem)

/-- **What the query lists**: the documents that are public, and public all the way
up. -/
theorem mem_listPublishedPaths (hinv : ContentsInv db) (hfew : db.FewPublished now) :
    found ∈ db.listPublishedPaths now none ↔ ∃ l, Descends db now found l := by
  have hc := hinv.constraints
  have hmem : found ∈ db.publishedTree now MAX_HIERARCHY_DEPTH (db.publishedRoots now) ↔
      ∃ l, Descends db now found l := by
    have htree := @mem_publishedTree db now found MAX_HIERARCHY_DEPTH 0
    refine htree.trans ⟨?_, ?_⟩
    · rintro ⟨k, -, hk⟩
      obtain ⟨l, -, hdescends⟩ := (mem_publishedLevel hc).mp hk
      exact ⟨l, hdescends⟩
    · rintro ⟨l, hdescends⟩
      obtain ⟨l', hl', hlen⟩ := hinv.tree found.row.id (hdescends.path.present hdescends.path.mem_self)
      obtain rfl := hdescends.path.unique hl'
      obtain ⟨rest, rfl⟩ := hl'.head
      rw [List.length_cons] at hlen
      refine ⟨rest.length, by omega, (mem_publishedLevel hc).mpr ⟨_, ?_, hdescends⟩⟩
      rw [List.length_cons, Nat.zero_add]
  have hroom : (db.publishedTree now MAX_HIERARCHY_DEPTH (db.publishedRoots now)).length ≤
      MAX_PATHS := by
    have hsub : (db.publishedTree now MAX_HIERARCHY_DEPTH (db.publishedRoots now)).map (·.row.id) ⊆
        (db.contents.filter (publiclyVisible now)).map (·.id) := by
      intro id hid
      obtain ⟨found, hfound, rfl⟩ := List.mem_map.mp hid
      obtain ⟨k, -, hk⟩ := (@mem_publishedTree db now found MAX_HIERARCHY_DEPTH 0).mp hfound
      obtain ⟨l, -, hdescends⟩ := (mem_publishedLevel hc).mp hk
      exact List.mem_map_of_mem (List.mem_filter.mpr ⟨hdescends.mem, hdescends.isVisible hc⟩)
    have hlen := (List.subperm_of_subset (publishedTree_nodup hc MAX_HIERARCHY_DEPTH 0)
      hsub).length_le
    rw [List.length_map, List.length_map] at hlen
    exact hlen.trans hfew
  rw [Database.listPublishedPaths, List.take_of_length_le, List.mem_insertionSort, hmem]
  rw [List.length_insertionSort]
  exact hroom.trans (by decide)

theorem listPublishedPaths_nodup (hc : db.Constraints) :
    ((db.listPublishedPaths now none).map (·.row.id)).Nodup := by
  refine List.Nodup.sublist (List.take_sublist _ _ |>.map _) ?_
  exact ((List.perm_insertionSort _ _).map _).nodup_iff.mpr
    (publishedTree_nodup hc MAX_HIERARCHY_DEPTH 0)

end Listed

/-! ## The sitemap and the site -/

/-- The sitemap lists the URLs the site answers with a document, and lists each document
once, at the path that climbing from it gives. -/
structure SitemapExact (site : Site) (now : Nat) (db : Database) : Prop where
  urls : ∀ row ∈ db.contents, ∀ pathname,
    (∃ listed ∈ sitemapRows site now db, listed.1.row.id = row.id ∧
        hrefOf site listed = site.absolute pathname) ↔
      site.answerAt now db pathname = some row.id ∧ isNoindex row.meta = false
  once : ((sitemapRows site now db).map (·.1.row.id)).Nodup
  path : ∀ listed ∈ sitemapRows site now db,
    db.resolveAncestry listed.1.row.id listed.1.row.type listed.1.row.locale =
      some ⟨listed.1.path, true⟩

/-- Every document on the way up to the root is public. -/
def PublicAbove (now : Nat) (db : Database) (row : ContentRow) : Prop :=
  ∀ l, Path db.parents row.id l → ∀ x ∈ l, ∀ q, db.content x = some q →
    publiclyVisible now q = true

/-- Where the two agree: a public document that may be listed is public all the way up
exactly if its canonical URL is routed to it, and then has a parent only if its type
nests. -/
def SitemapAgrees (site : Site) (now : Nat) (db : Database) : Prop :=
  ∀ row ∈ db.contents, publiclyVisible now row = true → isNoindex row.meta = false →
    ∀ type, registryGet site.types row.type = some type →
      (PublicAbove now db row ↔ Routed site db type row) ∧
      (PublicAbove now db row → type.hierarchical = false → row.parentId = none)

section Agreement
variable {site : Site} {now : Nat} {db : Database} {type : AnyContentType} {row : ContentRow}
  {pathname : String} {l : List Uuid}

theorem mem_sitemapRows {listed : PublishedPathRow × AnyContentType} :
    listed ∈ sitemapRows site now db ↔ listed.1 ∈ db.listPublishedPaths now none ∧
      registryGet site.types listed.1.row.type = some listed.2 ∧
      isNoindex listed.1.row.meta = false := by
  rw [sitemapRows, List.mem_filterMap]
  constructor
  · rintro ⟨found, hfound, hlisted⟩
    obtain ⟨type, htype, rfl⟩ := Option.map_eq_some_iff.mp hlisted
    obtain ⟨htype, hindex⟩ := Option.filter_eq_some_iff.mp htype
    exact ⟨hfound, htype, by simpa using hindex⟩
  · rintro ⟨hfound, htype, hindex⟩
    refine ⟨listed.1, hfound, ?_⟩
    rw [htype, Option.filter_some, hindex]
    rfl

theorem sitemapRows_sublist :
    ((sitemapRows site now db).map (·.1)).Sublist (db.listPublishedPaths now none) := by
  rw [sitemapRows]
  induction db.listPublishedPaths now none with
  | nil => exact .slnil
  | cons found rest ih =>
    rw [List.filterMap_cons]
    split
    · exact ih.cons _
    · rename_i listed heq
      obtain ⟨type, -, rfl⟩ := Option.map_eq_some_iff.mp heq
      exact ih.cons_cons _

/-- The URL that is listed of a document is that of its path, where it may be listed and is
public all the way up. -/
theorem listed_iff (hinv : ContentsInv db) (hfew : db.FewPublished now)
    (hrow : row ∈ db.contents) (hpath : Path db.parents row.id l) :
    (∃ listed ∈ sitemapRows site now db, listed.1.row.id = row.id ∧
        hrefOf site listed = site.absolute pathname) ↔
      isNoindex row.meta = false ∧ PublicAbove now db row ∧
        ∃ type, registryGet site.types row.type = some type ∧
          documentPath row.locale type (l.map db.slugOf).reverse = pathname := by
  constructor
  · rintro ⟨⟨found, type⟩, hlisted, hid, hhref⟩
    obtain ⟨hfound, htype, hindex⟩ := mem_sitemapRows.mp hlisted
    obtain ⟨l', hdescends⟩ := (mem_listPublishedPaths hinv hfew).mp hfound
    have hsame : found.row = row :=
      List.inj_on_of_nodup_map hinv.constraints.contents_pkey hdescends.mem hrow hid
    obtain ⟨found, path⟩ := found
    obtain rfl : found = row := hsame
    obtain rfl := hdescends.path.unique hpath
    refine ⟨hindex, fun l hl => ?_, type, htype, ?_⟩
    · obtain rfl := hl.unique hpath
      exact hdescends.visible
    · rw [← hdescends.slugs]
      exact (String.append_right_inj _).mp hhref
  · rintro ⟨hindex, hpublic, type, htype, rfl⟩
    refine ⟨(⟨row, (l.map db.slugOf).reverse⟩, type), mem_sitemapRows.mpr ⟨?_, htype, hindex⟩,
      rfl, rfl⟩
    exact (mem_listPublishedPaths hinv hfew).mpr ⟨l, hrow, hpath, hpublic l hpath, rfl⟩

/-- A longer path is another URL. -/
theorem documentPath_last {locale slug : String} {init : List String}
    (h : documentPath locale type (init ++ [slug]) = documentPath locale type [slug]) :
    init = [] := by
  by_contra hne
  rw [documentPath, documentPath, String.append_right_inj,
    String.intercalate_append_of_ne_nil hne (List.cons_ne_nil _ _)] at h
  have hlen := congrArg String.length h
  simp only [String.length_append] at hlen
  have hslash : "/".length = 1 := rfl
  omega

theorem canonicalPath_nested (hinv : ContentsInv db) (hrow : row ∈ db.contents)
    (htype : row.type = type.name) (hpath : Path db.parents row.id l)
    (h : type.hierarchical = true) :
    canonicalPath db type row = some (documentPath row.locale type (l.map db.slugOf).reverse) := by
  rw [canonicalPath, siblingPath_path hinv (Database.content_of_mem hinv.constraints hrow) htype h
    hpath, Option.map_some]

theorem canonicalPath_flat (h : type.hierarchical = false) :
    canonicalPath db type row = some (documentPath row.locale type [row.slug]) := by
  rw [canonicalPath, siblingPath_flat db h, Option.map_some]

/-- The path that is listed of a document without a parent is its slug. -/
theorem path_root (hc : db.Constraints) (hrow : row ∈ db.contents)
    (hpath : Path db.parents row.id l) (hroot : row.parentId = none) :
    (l.map db.slugOf).reverse = [row.slug] := by
  cases hpath with
  | root hup => simp [slugOf_mem hc hrow]
  | step hup _ =>
    rw [parents_content hc hrow, hroot] at hup
    cases hup

/-- A document whose listed URL is that of a flat document has no parent. -/
theorem root_of_path (hc : db.Constraints) (hrow : row ∈ db.contents)
    (hpath : Path db.parents row.id l)
    (h : documentPath row.locale type (l.map db.slugOf).reverse =
      documentPath row.locale type [row.slug]) : row.parentId = none := by
  cases hpath with
  | root hup =>
    rw [parents_content hc hrow] at hup
    exact Option.some.inj hup
  | @step _ p l _ hp =>
    rw [List.map_cons, List.reverse_cons, slugOf_mem hc hrow] at h
    have hnil := documentPath_last h
    obtain ⟨rest, rfl⟩ := hp.head
    simp at hnil

/-- **The sitemap** lists what the site answers with exactly where the two agree on every
public document that may be listed. -/
theorem sitemap_exact (hinv : ContentsInv db) (hfew : db.FewPublished now)
    (hnames : (site.types.map AnyContentType.name).Nodup) :
    SitemapExact site now db ↔ SitemapAgrees site now db := by
  have hc := hinv.constraints
  constructor
  · intro hexact row hrow hvisible hindex type htype
    obtain ⟨l, hpath, -⟩ := hinv.tree row.id
      (Database.parents_ne_none.mpr ⟨row, Database.content_of_mem hc hrow⟩)
    have hname : row.type = type.name := (Rows.key_of_find htype).symm
    -- a document that is public up to its root is listed, and so answered
    have hanswer : PublicAbove now db row → Routed site db type row ∧
        canonicalPath db type row =
          some (documentPath row.locale type (l.map db.slugOf).reverse) := by
      intro hpublic
      obtain ⟨hanswer, -⟩ := (hexact.urls row hrow _).mp
        ((listed_iff hinv hfew hrow hpath).mpr ⟨hindex, hpublic, type, htype, rfl⟩)
      obtain ⟨-, type', htype', hrouted, hcanonical⟩ := (answerAt_iff hc hnames hrow).mp hanswer
      obtain rfl := Option.some.inj (htype.symm.trans htype')
      exact ⟨hrouted, hcanonical⟩
    refine ⟨⟨fun hpublic => (hanswer hpublic).1, fun hrouted => ?_⟩, fun hpublic hflat => ?_⟩
    -- a document that is routed is answered, and so listed
    · obtain ⟨pathname, -, -, hcanonical, -⟩ := id hrouted
      have hlisted := (hexact.urls row hrow pathname).mpr
        ⟨(answerAt_iff hc hnames hrow).mpr ⟨hvisible, type, htype, hrouted, hcanonical⟩, hindex⟩
      exact ((listed_iff hinv hfew hrow hpath).mp hlisted).2.1
    · have hcanonical := (hanswer hpublic).2
      rw [canonicalPath_flat hflat] at hcanonical
      exact root_of_path hc hrow hpath (Option.some.inj hcanonical).symm
  · intro hagrees
    refine ⟨fun row hrow pathname => ?_, ?_, fun listed hlisted => ?_⟩
    · obtain ⟨l, hpath, -⟩ := hinv.tree row.id
        (Database.parents_ne_none.mpr ⟨row, Database.content_of_mem hc hrow⟩)
      -- the URL that is listed is the canonical one
      have hurl : ∀ type, registryGet site.types row.type = some type →
          (type.hierarchical = false → row.parentId = none) →
          canonicalPath db type row =
            some (documentPath row.locale type (l.map db.slugOf).reverse) := by
        intro type htype hflat
        cases h : type.hierarchical with
        | true => exact canonicalPath_nested hinv hrow (Rows.key_of_find htype).symm hpath h
        | false => rw [canonicalPath_flat h, path_root hc hrow hpath (hflat h)]
      rw [listed_iff hinv hfew hrow hpath, answerAt_iff hc hnames hrow]
      constructor
      · rintro ⟨hindex, hpublic, type, htype, rfl⟩
        have hvisible := hpublic l hpath row.id hpath.mem_self row (Database.content_of_mem hc hrow)
        obtain ⟨hiff, hflat⟩ := hagrees row hrow hvisible hindex type htype
        exact ⟨⟨hvisible, type, htype, hiff.mp hpublic, hurl type htype (hflat hpublic)⟩, hindex⟩
      · rintro ⟨⟨hvisible, type, htype, hrouted, hcanonical⟩, hindex⟩
        obtain ⟨hiff, hflat⟩ := hagrees row hrow hvisible hindex type htype
        have hpublic := hiff.mpr hrouted
        refine ⟨hindex, hpublic, type, htype, ?_⟩
        exact Option.some.inj ((hurl type htype (hflat hpublic)).symm.trans hcanonical)
    · have hsub := (@sitemapRows_sublist site now db).map (·.row.id)
      rw [List.map_map] at hsub
      exact (listPublishedPaths_nodup hc).sublist hsub
    · obtain ⟨hfound, -, -⟩ := mem_sitemapRows.mp hlisted
      obtain ⟨l, hdescends⟩ := (mem_listPublishedPaths hinv hfew).mp hfound
      rw [resolveAncestry_path hinv (Database.content_of_mem hc hdescends.mem) hdescends.path,
        hdescends.slugs]

end Agreement

/-! ### A page under a page -/

/-- A page, and a public page under it. -/
def pagesWith (status : ContentStatus) : Database where
  contents :=
    [⟨(publishedPage "team" (some 1)).toColumns, 2, "page", "en", 102, none, 1, 2, 2⟩,
      ⟨{ (emptyPage "about" none).toColumns with status := status }, 1, "page", "en", 101, none, 1,
        1, 1⟩]
  groups := [⟨102, "page"⟩, ⟨101, "page"⟩]
  revisions := []
  contentMedia := []
  «media» := []
  retired := []

theorem pagesWith_inv (status : ContentStatus) : ContentsInv (pagesWith status) where
  constraints := by cases status <;> decide
  tree id hid := by
    have hroot : Path (pagesWith status).parents 1 [1] := .root rfl
    have hchild : Path (pagesWith status).parents 2 [2, 1] := .step rfl hroot
    obtain ⟨row, hrow⟩ := Database.parents_ne_none.mp hid
    obtain rfl := Database.id_of_content hrow
    rcases List.mem_pair.mp (Database.mem_of_content hrow) with rfl | rfl
    · exact ⟨_, hchild, by decide⟩
    · exact ⟨_, hroot, by decide⟩

theorem sitemap_exact_public : SitemapExact plainSite 0 (pagesWith .published) := by
  have hfew : (pagesWith .published).FewPublished 0 := Nat.le_of_ble_eq_true rfl
  refine (sitemap_exact (pagesWith_inv .published) hfew (by decide)).mpr ?_
  intro row hrow _ _ type htype
  have hpublic : PublicAbove 0 (pagesWith .published) row := by
    intro l hl x hx q hq
    rcases List.mem_pair.mp (Database.mem_of_content hq) with rfl | rfl
    · rfl
    · rfl
  rcases List.mem_pair.mp hrow with rfl | rfl
  · obtain rfl := Option.some.inj htype
    refine ⟨iff_of_true hpublic ⟨"/en/about/team", _, _, rfl, rfl, rfl⟩, fun _ hflat => ?_⟩
    cases hflat
  · obtain rfl := Option.some.inj htype
    exact ⟨iff_of_true hpublic ⟨"/en/about", _, _, rfl, rfl, rfl⟩, fun _ _ => rfl⟩

/-- **A public page under a draft** is answered at its URL and is not in the sitemap. -/
theorem page_under_draft :
    ContentsInv (pagesWith .draft) ∧
    plainSite.answerAt 0 (pagesWith .draft) "/en/about/team" = some 2 ∧
    (sitemapRows plainSite 0 (pagesWith .draft)).length = 0 ∧
    ¬ SitemapExact plainSite 0 (pagesWith .draft) := by
  have hanswer : plainSite.answerAt 0 (pagesWith .draft) "/en/about/team" = some 2 := by
    decide +kernel
  have hnone : (sitemapRows plainSite 0 (pagesWith .draft)).length = 0 := rfl
  refine ⟨pagesWith_inv .draft, hanswer, hnone, fun hexact => ?_⟩
  obtain ⟨listed, hlisted, -⟩ :=
    (hexact.urls _ List.mem_cons_self "/en/about/team").mpr ⟨hanswer, rfl⟩
  rw [List.eq_nil_of_length_eq_zero hnone] at hlisted
  cases hlisted

end PressLabz
