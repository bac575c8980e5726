import PressLabz.SiteLinks

/-! # A walk through an archive

An archive is read ten documents at a time.  Each page links to the older and to the newer
one, by a number that is written into a query and read back from it.

Who starts at the archive of a type and goes on to the older entries sees each listed
document once, in the order of the list, and can open it (`archive_walk`): all of them, or
as many as fill the pages whose numbers have five digits.
-/
namespace PressLabz

/-! ## A walk through an archive -/

/-- The pages of a reader who starts at a link and goes on to the older entries, so many at most. -/
def Site.walk (site : Site) (now : Nat) (db : Database) : Nat → String → List ArchiveView
  | 0, _ => []
  | pages + 1, href =>
    match site.follow now db 2 href with
    | some (.page (.archive _ view)) =>
      view :: match view.olderHref with
        | some older => Site.walk site now db pages older
        | none => []
    | _ => []

/-- What an archive lists, newest first. -/
def listedOf (db : Database) (now : Nat) (type : AnyContentType) (locale : String) :
    List ContentRow :=
  (db.contents.filter (isListed type.name locale now)).insertionSort
    fun a b => b.publishedPlace ≤ a.publishedPlace

/-- The last page whose number can be read. -/
def lastPage (db : Database) (now : Nat) (type : AnyContentType) (locale : String) : Nat :=
  min 99999 (pagesOf db now type locale)

section Walks
variable {site : Site} {now : Nat} {db : Database} {type : AnyContentType} {locale : String}

/-- The pages of one size, one after the other, make up the list as far as they go. -/
theorem flatMap_pages {α : Type} (size : Nat) (l : List α) (pages : Nat) :
    ((List.range' 1 pages).flatMap fun page => (l.drop ((page - 1) * size)).take size) =
      l.take (pages * size) := by
  induction pages with
  | zero => simp
  | succ pages ih =>
    rw [List.range'_1_concat, List.flatMap_append, ih, List.flatMap_singleton, Nat.add_mul,
      Nat.one_mul, List.take_add, Nat.add_sub_cancel_left]

theorem archiveOf_rows (page : Nat) : (archiveOf db now type locale page).rows =
    ((listedOf db now type locale).drop ((page - 1) * PER_PAGE)).take PER_PAGE := rfl

theorem length_listedOf :
    (listedOf db now type locale).length = db.countPublished type.name locale now := by
  rw [listedOf, List.length_insertionSort, Database.countPublished]

/-- The pages of an archive whose numbers can be read hold what it lists, as far as five
digits count. -/
theorem take_pages : (listedOf db now type locale).take (lastPage db now type locale * PER_PAGE) =
    (listedOf db now type locale).take (99999 * PER_PAGE) := by
  by_cases hle : 99999 ≤ pagesOf db now type locale
  · rw [lastPage, min_eq_left hle]
  · have hlength : (listedOf db now type locale).length ≤
        pagesOf db now type locale * PER_PAGE := by
      rw [length_listedOf, pagesOf, pageCount, PER_PAGE]
      omega
    rw [lastPage, min_eq_right (by omega), List.take_of_length_le hlength,
      List.take_of_length_le (hlength.trans (Nat.mul_le_mul_right _ (by omega)))]

/-- A walk that starts at some page sees that page and the ones after it, in turn. -/
theorem walk_from (hsite : WellAddressed site) (htype : type ∈ site.types)
    (hne : type.basePath ≠ "") (hlocale : locale ∈ site.locales) (left : Nat) {page pages : Nat}
    (hpage : 1 ≤ page) (hleft : page + left = lastPage db now type locale + 1)
    (hpages : left ≤ pages) : site.walk now db pages (archivePageUrl locale type page) =
      (List.range' page left).map (viewOf site now db locale type) := by
  induction left generalizing page pages with
  | zero =>
    have hpast : ¬ (page ≤ 99999 ∧ page ≤ pagesOf db now type locale) := by
      rw [lastPage] at hleft
      omega
    cases pages with
    | zero => rfl
    | succ pages =>
      rw [Site.walk, follow_archivePageUrl hsite htype hne hlocale hpage, archiveAnswer,
        if_neg hpast]
      rfl
  | succ left ih =>
    have hthere : page ≤ 99999 ∧ page ≤ pagesOf db now type locale := by
      rw [lastPage] at hleft
      omega
    obtain ⟨pages, rfl⟩ : ∃ n, pages = n + 1 := ⟨pages - 1, by omega⟩
    rw [Site.walk, follow_archivePageUrl hsite htype hne hlocale hpage, archiveAnswer,
      if_pos hthere, List.range'_succ, List.map_cons]
    show viewOf site now db locale type page :: _ = _
    congr 1
    show (match (if page < pagesOf db now type locale then
      some (archivePageUrl locale type (page + 1)) else none) with
      | some older => site.walk now db pages older
      | none => []) = _
    split
    · rename_i older holder
      split at holder
      · obtain rfl := Option.some.inj holder
        exact ih (by omega) (by omega) (by omega)
      · cases holder
    · rename_i holder
      split at holder
      · cases holder
      · -- the archive ends here
        obtain rfl : left = 0 := by
          rw [lastPage] at hleft
          omega
        rfl

theorem mem_listedOf {row : ContentRow} : row ∈ listedOf db now type locale ↔
    row ∈ db.contents ∧ isListed type.name locale now row = true := by
  rw [listedOf, List.mem_insertionSort, List.mem_filter]

theorem nodup_listedOf (hc : db.Constraints) :
    ((listedOf db now type locale).map (·.id)).Nodup := by
  have hperm : (listedOf db now type locale).Perm
      (db.contents.filter (isListed type.name locale now)) := List.perm_insertionSort _ _
  exact (hperm.map _).nodup_iff.mpr (hc.contents_pkey.sublist (List.filter_sublist.map _))

theorem pairwise_listedOf : (listedOf db now type locale).Pairwise
    fun a b => b.publishedPlace ≤ a.publishedPlace := by
  have : Std.Total fun a b : ContentRow => b.publishedPlace ≤ a.publishedPlace :=
    ⟨fun a b => le_total b.publishedPlace a.publishedPlace⟩
  have : IsTrans ContentRow fun a b => b.publishedPlace ≤ a.publishedPlace :=
    ⟨fun _ _ _ hab hbc => hbc.trans hab⟩
  exact List.pairwise_insertionSort _ _

/-- What a reader sees who walks through an archive. -/
structure Walked (site : Site) (now : Nat) (db : Database) (type : AnyContentType)
    (locale : String) (views : List ArchiveView) : Prop where
  /-- The pages of the archive come in turn. -/
  pages : views.map (·.page) = List.range' 1 (lastPage db now type locale)
  short : ∀ view ∈ views, view.entries.length ≤ PER_PAGE
  /-- The entries of the pages are what the archive lists, newest first. -/
  entries : ∃ listed : List ContentRow,
    (∀ row, row ∈ listed ↔ row ∈ db.contents ∧ isListed type.name locale now row = true) ∧
    listed.Pairwise (fun a b => b.publishedPlace ≤ a.publishedPlace) ∧
    views.flatMap (·.entries) = (listed.take (99999 * PER_PAGE)).map fun row =>
      entryOf site row type locale
  /-- No document is shown twice. -/
  once : ((views.flatMap (·.entries)).map (·.id)).Nodup
  /-- Each entry opens its document. -/
  opens : ∀ view ∈ views, ∀ entry ∈ view.entries, Opens site now db 2 entry.href entry.id
  /-- The link to the newer entries leads back to the page before. -/
  newer : ∀ view ∈ views, ∀ href ∈ view.newerHref,
    site.walk now db 1 href = [viewOf site now db locale type (view.page - 1)]

/-- **A walk through an archive**, from its first page on to the older ones, shows what the
archive lists and each document once. -/
theorem archive_walk (hinv : ContentsInv db) (hslugs : db.SlugsValid)
    (hsite : WellAddressed site) (htype : type ∈ site.types) (hne : type.basePath ≠ "")
    (hlocale : locale ∈ site.locales) {pages : Nat}
    (hpages : pagesOf db now type locale ≤ pages) :
    Walked site now db type locale (site.walk now db pages (archivePath locale type)) := by
  have hlast : 1 ≤ lastPage db now type locale := by
    have : 1 ≤ pagesOf db now type locale := one_le_pagesOf
    rw [lastPage]
    omega
  have hwalk : site.walk now db pages (archivePath locale type) =
      (List.range' 1 (lastPage db now type locale)).map (viewOf site now db locale type) := by
    refine walk_from hsite htype hne hlocale _ (le_refl 1) (Nat.add_comm _ _) ?_
    rw [lastPage]
    omega
  have hentries : ((List.range' 1 (lastPage db now type locale)).map
      (viewOf site now db locale type)).flatMap (·.entries) =
      ((listedOf db now type locale).take (99999 * PER_PAGE)).map fun row =>
        entryOf site row type locale := by
    rw [← take_pages, ← flatMap_pages, List.map_flatMap, List.flatMap_map]
    rfl
  rw [hwalk]
  refine ⟨?_, ?_, ⟨listedOf db now type locale, fun _ => mem_listedOf, pairwise_listedOf, hentries⟩,
    ?_, ?_, ?_⟩
  · rw [List.map_map]
    exact List.map_id _
  · intro view hview
    obtain ⟨page, -, rfl⟩ := List.mem_map.mp hview
    have hle : (((listedOf db now type locale).drop ((page - 1) * PER_PAGE)).take PER_PAGE).length ≤
        PER_PAGE := List.length_take_le _ _
    simpa only [viewOf, archiveView, List.length_map, archiveOf_rows] using hle
  · rw [hentries, List.map_map]
    exact (nodup_listedOf hinv.constraints).sublist ((List.take_sublist _ _).map _)
  · intro view hview entry hentry
    have hmem := List.mem_flatMap.mpr ⟨view, hview, hentry⟩
    rw [hentries] at hmem
    obtain ⟨row, htake, rfl⟩ := List.mem_map.mp hmem
    obtain ⟨hrow, hlisted⟩ := mem_listedOf.mp (List.mem_of_mem_take htake)
    obtain ⟨hname, rfl, hvisible⟩ := isListed_iff.mp hlisted
    exact opens_entry hinv hslugs hsite hrow hvisible hlocale htype hname hne 0
  · intro view hview href hhref
    obtain ⟨page, hpage, rfl⟩ := List.mem_map.mp hview
    rw [List.mem_range'_1] at hpage
    have hnewer : (if 1 < page then some (archivePageUrl locale type (page - 1)) else none) =
        some href := hhref
    split at hnewer
    · obtain rfl := Option.some.inj hnewer
      have hthere : page - 1 ≤ 99999 ∧ page - 1 ≤ pagesOf db now type locale := by
        rw [lastPage] at hpage
        omega
      rw [Site.walk, follow_archivePageUrl hsite htype hne hlocale (by omega), archiveAnswer,
        if_pos hthere]
      show viewOf site now db locale type (page - 1) :: _ = _
      congr 1
      split
      · rfl
      · rfl
    · cases hnewer

end Walks
theorem archive_walk_posts : Walked plainSite 0 twoPosts (postType fun _ => false) "fr"
    (plainSite.walk 0 twoPosts 1 "/fr/blog") :=
  archive_walk twoPosts_inv twoPosts_slugs wellAddressed_plainSite List.mem_cons_self (by decide)
    (by decide) (by decide)

end PressLabz
