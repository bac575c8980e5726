import PressLabz.ContentEvents
import PressLabz.PublicContents

/-! # The public site

`apps/web`: where a URL points (`lib/routes.ts`), what a page reads and which
tags that leaves on it (`data/content.ts`, and `collector.ts` of
`packages/cache`), what a page says about itself (`lib/seo.ts`), what a theme is
handed (`lib/view.ts`, `lib/media.ts`, `lib/filters.ts`), and the page that puts
them together, `pages/[locale]/[...path].astro`.

A theme reads nothing but what it is handed, so a response is kept as the value
its template gets.  The reads of one page are made at one instant `now`, in
milliseconds.  The handlers of the two filters, the interface strings and the
decision which links are safe are parameters (`Site`).
-/
namespace PressLabz

/-! ## Tags -/

/-- `tags.ts`, by what is tagged: the texts differ in their namespace. -/
inductive CacheTag where
  | content (id : Uuid)
  | contentList (type locale : String)
  | translationGroup (id : Uuid)
  | media (id : Uuid)
  deriving DecidableEq

/-- A value, and the tags that were collected on the way to it. -/
structure Collected (α : Type) where
  value : α
  tags : List CacheTag

namespace Collected
variable {α β : Type}

instance : Monad Collected where
  pure a := ⟨a, []⟩
  bind x f := ⟨(f x.value).value, x.tags ++ (f x.value).tags⟩

@[simp] theorem pure_value (a : α) : (pure a : Collected α).value = a := rfl

@[simp] theorem pure_tags (a : α) : (pure a : Collected α).tags = [] := rfl

@[simp] theorem bind_value (x : Collected α) (f : α → Collected β) :
    (x >>= f).value = (f x.value).value := rfl

@[simp] theorem bind_tags (x : Collected α) (f : α → Collected β) :
    (x >>= f).tags = x.tags ++ (f x.value).tags := rfl

theorem bind_congr {x y : Collected α} {f : α → Collected β} (htags : x.tags = y.tags)
    (hf : f x.value = f y.value) : x >>= f = y >>= f := by
  show Collected.mk _ _ = Collected.mk _ _
  rw [htags, hf]

/-- `Promise.all`. -/
def all (xs : List (Collected α)) : Collected (List α) := ⟨xs.map value, xs.flatMap tags⟩

end Collected

def collectTags (tags : List CacheTag) : Collected Unit := ⟨(), tags⟩

/-! ## The installation -/

/-- What a site is started with. -/
structure Site where
  types : List AnyContentType
  locales : List String
  defaultLocale : String
  siteName : String
  /-- `SITE_URL`, without its last slash. -/
  origin : String
  mediaBase : String
  /-- `createTranslator(locale)(key)`. -/
  translate : String → String → String
  /-- What the handlers of `content:excerpt` make of an excerpt. -/
  applyExcerpt : String → Blocks → ContentEvent → String
  /-- What the handlers of `content:blocks` make of the blocks. -/
  applyBlocks : Blocks → ContentEvent → Blocks
  isSafeHref : String → Bool

/-- A request, as Astro hands it to the page. -/
structure PageRequest where
  pathname : String
  /-- `Astro.params.path`. -/
  path : Option String
  /-- The parameter `page` of the query. -/
  page : Option String

/-! ## Routes -/

def LOCALES : List String := ["en", "fr"]
def DEFAULT_LOCALE : String := "en"

/-- The segments of a path that are not empty. -/
def segmentsOf (pathname : String) : List String :=
  ((pathname.toList.splitOn '/').filter (· ≠ [])).map String.ofList

/-- The middleware: the first segment, where it is a language of the site. -/
def Site.localeOf (site : Site) (pathname : String) : Option String :=
  (segmentsOf pathname).head?.filter fun first => first ∈ LOCALES && first ∈ site.locales

def parseSegments (pathname : String) : Option (List String) :=
  if (segmentsOf pathname).all isSlug then some (segmentsOf pathname) else none

inductive ResolvedRoute where
  | archive (type : AnyContentType)
  | document (type : AnyContentType) (slug : String) (path : List String)

def ResolvedRoute.type : ResolvedRoute → AnyContentType
  | .archive type => type
  | .document type _ _ => type

def underType (type : AnyContentType) (path : List String) : Option ResolvedRoute :=
  match path.getLast? with
  | none => if type.basePath = "" then none else some (.archive type)
  | some slug =>
    if !type.hierarchical && 1 < path.length then none else some (.document type slug path)

def resolveRoute (types : List AnyContentType) : List String → Option ResolvedRoute
  | [] => none
  | first :: rest =>
    match types.find? fun type => type.basePath ≠ "" && type.basePath = first with
    | some prefixed => underType prefixed rest
    | none =>
      match types.find? fun type => type.basePath = "" with
      | some root => underType root (first :: rest)
      | none => none

def homePath (locale : String) : String := "/" ++ locale

def archivePath (locale : String) (type : AnyContentType) : String :=
  if type.basePath = "" then homePath locale else "/" ++ locale ++ "/" ++ type.basePath

/-- The one canonical URL of a document, given its ancestry, root first. -/
def documentPath (locale : String) (type : AnyContentType) (slugs : List String) : String :=
  "/" ++ locale ++ (if type.basePath = "" then "" else "/" ++ type.basePath) ++ "/" ++
    "/".intercalate slugs

/-- What is in a join is in the separator or in a part. -/
theorem mem_intercalate {α : Type} {sep : List α} {ls : List (List α)} {c : α}
    (h : c ∈ sep.intercalate ls) :
    c ∈ sep ∨ ∃ l ∈ ls, c ∈ l := by
  induction ls with
  | nil => cases h
  | cons l rest ih =>
    cases rest with
    | nil =>
      rw [List.intercalate_singleton] at h
      exact .inr ⟨l, List.mem_cons_self, h⟩
    | cons l' rest =>
      rw [List.intercalate_cons_cons] at h
      simp only [List.mem_append] at h
      rcases h with (h | h) | h
      · exact .inr ⟨l, List.mem_cons_self, h⟩
      · exact .inl h
      · rcases ih h with h | ⟨x, hx, hc⟩
        · exact .inl h
        · exact .inr ⟨x, List.mem_cons_of_mem _ hx, hc⟩

/-- A slug has no slash in it. -/
theorem isSlug_slash {slug : String} (h : isSlug slug = true) : '/' ∉ slug.toList := by
  unfold isSlug at h
  simp only [Bool.and_eq_true, List.all_eq_true, decide_eq_true_eq] at h
  obtain ⟨-, hruns⟩ := h
  intro hmem
  have hruns' : ['-'].intercalate (slug.toList.splitOn '-') = slug.toList :=
    List.intercalate_splitOn '-'
  rw [← hruns'] at hmem
  rcases mem_intercalate hmem with hsep | ⟨run, hrun, hc⟩
  · exact absurd (List.mem_singleton.mp hsep) (by decide)
  · exact absurd ((hruns run hrun).2 '/' hc) (by decide)

/-- **One URL, one path**, as slugs have no slashes. -/
theorem documentPath_inj {locale : String} {type : AnyContentType} {a b : List String}
    (ha : a ≠ []) (hb : b ≠ []) (hslugs : ∀ slug ∈ a, isSlug slug = true)
    (hslugs' : ∀ slug ∈ b, isSlug slug = true)
    (h : documentPath locale type a = documentPath locale type b) : a = b := by
  have hlist : ∀ {l : List String}, l ≠ [] → (∀ slug ∈ l, isSlug slug = true) →
      (['/'].intercalate (l.map String.toList)).splitOn '/' = l.map String.toList := by
    intro l hl hslug
    refine List.splitOn_intercalate '/' (fun cs hcs => ?_) (by simpa using hl)
    obtain ⟨slug, hmem, rfl⟩ := List.mem_map.mp hcs
    exact isSlug_slash (hslug slug hmem)
  unfold documentPath at h
  have hjoin := congrArg String.toList h
  simp only [String.toList_append, List.append_assoc, List.append_cancel_left_eq,
    String.toList_intercalate] at hjoin
  have hsplit := congrArg (List.splitOn '/') hjoin
  have hslash : "/".toList = ['/'] := rfl
  rw [hslash, hlist ha hslugs, hlist hb hslugs'] at hsplit
  exact List.map_injective_iff.mpr (fun _ _ => String.toList_inj.mp) hsplit

/-- `/^[1-9][0-9]{0,4}$/`; no parameter is the first page. -/
def parsePageNumber : Option String → Option Nat
  | none => some 1
  | some value =>
    match value.toList with
    | [] => none
    | first :: rest =>
      if '1' ≤ first ∧ first ≤ '9' ∧ rest.all Char.isDigit ∧ rest.length ≤ 4 then
        some ((first :: rest).foldl (fun n c => n * 10 + (c.toNat - '0'.toNat)) 0)
      else none

def pageCount (total perPage : Nat) : Nat := max 1 ((total + perPage - 1) / perPage)

def archivePageUrl (locale : String) (type : AnyContentType) (page : Nat) : String :=
  if page ≤ 1 then archivePath locale type
  else archivePath locale type ++ "?page=" ++ toString page

/-! ## What a theme is handed -/

structure PageHead where
  canonical : Option String
  /-- Locales and addresses. -/
  alternates : List (String × String)
  defaultHref : Option String
  noindex : Bool

structure TranslationLink where
  locale : String
  href : String
  title : String
  available : Bool

structure NavLink where
  href : String
  label : String
  current : Bool

structure SiteContext where
  locale : String
  locales : List String
  siteName : String
  path : String
  homeHref : String
  nav : List NavLink
  t : String → String
  translations : List TranslationLink
  head : PageHead
  feedHref : Option String

structure ResolvedMedia where
  src : String
  alt : String
  width : Option Nat
  height : Option Nat

structure DocumentView where
  id : Uuid
  type : String
  title : String
  excerpt : Option String
  publishedAt : Option Nat
  blocks : Blocks
  /-- By the text the blocks name it with. -/
  «media» : List (UuidText × ResolvedMedia)
  href : String

structure ArchiveEntry where
  id : Uuid
  title : String
  excerpt : Option String
  publishedAt : Option Nat
  href : String

structure ArchiveView where
  title : String
  entries : List ArchiveEntry
  page : Nat
  pageCount : Nat
  newerHref : Option String
  olderHref : Option String

inductive Response where
  | redirect (location : String)
  | notFound (site : SiteContext)
  | archive (site : SiteContext) (archive : ArchiveView)
  | document (site : SiteContext) (document : DocumentView)

def Response.status : Response → Nat
  | .redirect _ => 301
  | .notFound _ => 404
  | .archive _ _ => 200
  | .document _ _ => 200

/-! ## The reads, and their tags -/

def PER_PAGE : Nat := 10

structure Archive where
  rows : List ContentRow
  page : Nat
  pageCount : Nat
  total : Nat

structure Sibling where
  row : ContentRow
  /-- Root first.  None when it cannot be resolved. -/
  path : Option (List String)

/-- The media the images of a document name, each text once. -/
def mediaIdsIn (blocks : Blocks) : List UuidText :=
  (blocks.filterMap fun
    | .image _ mediaId _ => some mediaId
    | _ => none).eraseDups

/-- A later row of an id takes the place of an earlier one. -/
def Site.mediaResolver (site : Site) (rows : List MediaRow) (locale : String)
    (mediaId : UuidText) : Option ResolvedMedia :=
  (rows.reverse.find? fun row => Uuid.text row.id = mediaId).map fun row =>
    { src := site.mediaBase ++ "/" ++ row.storageKey
      alt := ((row.alt.lookup locale).or (row.alt.lookup DEFAULT_LOCALE)).getD ""
      width := row.width
      height := row.height }

section Loading
variable (site : Site) (db : Database) (now : Nat)

def loadArchive (type : AnyContentType) (locale : String) (page : Nat) : Collected Archive := do
  collectTags [.contentList type.name locale]
  let rows := db.listPublished
    { type := type.name
      locale := locale
      now := now
      limit := some PER_PAGE
      offset := some ((page - 1) * PER_PAGE) }
  let total := db.countPublished type.name locale now
  collectTags (rows.map fun row => .content row.id)
  return { rows := rows, total := total, page := page, pageCount := pageCount total PER_PAGE }

def loadDocument (type : AnyContentType) (locale slug : String) :
    Collected (Option ContentRow) := do
  match db.findPublishedBySlug type.name locale slug now with
  | none => return none
  | some row =>
    collectTags [.content row.id, .translationGroup row.translationGroupId]
    return some row

/-- Null for a flat type.  Collects nothing. -/
def loadAncestry (row : ContentRow) (type : AnyContentType) : Option Ancestry :=
  if !type.hierarchical then none else db.resolveAncestry row.id type.name row.locale

def loadMedia (row : ContentRow) (locale : String) :
    Collected (List (UuidText × ResolvedMedia)) := do
  let ids := mediaIdsIn row.blocks
  if ids.length = 0 then return []
  else
    let rows := db.findMediaByIds ids
    collectTags (rows.map fun row => .media row.id)
    return ids.filterMap fun id =>
      (site.mediaResolver rows locale id).map fun resolved => (id, resolved)

/-- The path a sibling is advertised at. -/
def siblingPath (type : AnyContentType) (sibling : ContentRow) : Option (List String) :=
  if !type.hierarchical then some [sibling.slug]
  else ((db.resolveAncestry sibling.id type.name sibling.locale).filter (·.complete)).map (·.slugs)

def loadTranslations (row : ContentRow) (type : AnyContentType) : Collected (List Sibling) := do
  collectTags [.translationGroup row.translationGroupId]
  let siblings := db.listPublishedTranslations row.translationGroupId now
  Collected.all (siblings.map fun sibling => do
    collectTags [.content sibling.id]
    return ⟨sibling, siblingPath db type sibling⟩)

end Loading

/-! ## What a page says about itself -/

section Views
variable (site : Site)

/-- The absolute form of a path that a URL holds already. -/
def Site.absolute (path : String) : String := site.origin ++ path

/-- `seoOf(meta)?.noindex === true`. -/
def isNoindex («meta» : Meta) : Bool :=
  match «meta».lookup "seo" with
  | some (.object seo) =>
    match seo.lookup "noindex" with
    | some (.bool noindex) => noindex
    | _ => false
  | _ => false

/-- Every language of the document, with its address: locales and URLs. -/
def alternatesOf (type : AnyContentType) (siblings : List Sibling) : List (String × String) :=
  siblings.filterMap fun sibling => sibling.path.map fun path =>
    (sibling.row.locale, site.absolute (documentPath sibling.row.locale type path))

/-- A single language is not a translation set. -/
def documentHead (locale : String) (type : AnyContentType) (path : List String) («meta» : Meta)
    (siblings : List Sibling) : PageHead :=
  let alternates := alternatesOf site type siblings
  let canonical := site.absolute (documentPath locale type path)
  let fallback := alternates.find? fun alternate => alternate.1 = site.defaultLocale
  { canonical := some canonical
    alternates := if 1 < alternates.length then alternates else []
    defaultHref := if 1 < alternates.length then fallback.map (·.2) else none
    noindex := isNoindex «meta» }

def listingHead (path : String) : PageHead := ⟨some (site.absolute path), [], none, false⟩

def MISSING_HEAD : PageHead := ⟨none, [], none, true⟩

def translationLinks (siblings : List Sibling) (type : AnyContentType) (current : String) :
    List TranslationLink :=
  let translated := siblings.filter fun sibling =>
    sibling.path.isSome && sibling.row.locale ≠ current
  (site.locales.filter (· ≠ current)).map fun locale =>
    match translated.reverse.find? fun sibling => sibling.row.locale = locale with
    | some sibling =>
      { locale := locale
        href := documentPath locale type (sibling.path.getD [])
        title := sibling.row.title
        available := true }
    | none =>
      { locale := locale, href := homePath locale, title := site.siteName, available := false }

/-- `path.replace(/^\/[^/]+/, "/" + locale)`. -/
def replaceFirstSegment (path locale : String) : String :=
  match path.toList with
  | '/' :: rest =>
    if (rest.takeWhile (· ≠ '/')) = [] then path
    else "/" ++ locale ++ String.ofList (rest.dropWhile (· ≠ '/'))
  | _ => path

def listingTranslations (path current : String) : List TranslationLink :=
  (site.locales.filter (· ≠ current)).map fun locale =>
    { locale := locale
      href := replaceFirstSegment path locale
      title := ""
      available := true }

/-! ## Views -/

/-- What the chain returns is rendered if it is still a document. -/
def filterBlocks (blocks : Blocks) (content : ContentEvent) : Blocks :=
  let result := site.applyBlocks blocks content
  if result = blocks then blocks
  else if blocksAreValid site.isSafeHref result then result
  else blocks

def filterExcerpt (excerpt : Option String) (blocks : Blocks) (content : ContentEvent) :
    Option String :=
  let result := site.applyExcerpt (excerpt.getD "") blocks content
  if result = "" then none else some result

def navFor (locale path : String) : List NavLink :=
  (site.types.filter fun type => type.basePath ≠ "").map fun type =>
    let href := archivePath locale type
    { href := href
      label := site.translate locale ("content.type." ++ type.name ++ ".plural")
      current := path = href || (href ++ "/").toList.isPrefixOf path.toList }

def siteContext (locale path : String) (head : PageHead) (translations : List TranslationLink)
    (feedHref : Option String) : SiteContext where
  locale := locale
  locales := site.locales
  siteName := site.siteName
  path := path
  homeHref := homePath locale
  nav := navFor site locale path
  t := site.translate locale
  translations := translations
  head := head
  feedHref := feedHref

def entryOf (row : ContentRow) (type : AnyContentType) (locale : String) : ArchiveEntry where
  id := row.id
  title := row.title
  excerpt := filterExcerpt site row.excerpt row.blocks (contentEventOf row)
  publishedAt := row.publishedAt
  href := documentPath locale type [row.slug]

def archiveView (locale : String) (type : AnyContentType) (archive : Archive) : ArchiveView where
  title := site.translate locale ("content.type." ++ type.name ++ ".plural")
  entries := archive.rows.map fun row => entryOf site row type locale
  page := archive.page
  pageCount := archive.pageCount
  newerHref :=
    if 1 < archive.page then some (archivePageUrl locale type (archive.page - 1)) else none
  olderHref :=
    if archive.page < archive.pageCount then
      some (archivePageUrl locale type (archive.page + 1))
    else none

def documentView (row : ContentRow) (type : AnyContentType) (slugs : List String)
    («media» : List (UuidText × ResolvedMedia)) : DocumentView where
  id := row.id
  type := type.name
  title := row.title
  excerpt := filterExcerpt site row.excerpt row.blocks (contentEventOf row)
  publishedAt := row.publishedAt
  blocks := filterBlocks site row.blocks (contentEventOf row)
  «media» := «media»
  href := documentPath row.locale type slugs

/-- A type at the root of a locale has no feed. -/
def feedHrefOf (locale : String) (type : AnyContentType) : Option String :=
  if type.basePath = "" then none else some (archivePath locale type ++ "/feed.xml")

end Views

/-! ## The page -/

section Page
variable (site : Site) (now : Nat) (db : Database) (request : PageRequest)

/-- Where the request points: the language and the route. -/
def Site.routeOf (site : Site) (request : PageRequest) : Option (String × ResolvedRoute) := do
  let locale ← site.localeOf request.pathname
  let segments ← parseSegments (request.path.getD "")
  let route ← resolveRoute site.types segments
  return (locale, route)

/-- What answers a request that shows nothing. -/
def missing (locale : String) (feedHref : Option String) : Response :=
  .notFound (siteContext site locale request.pathname MISSING_HEAD [] feedHref)

def renderArchive (locale : String) (type : AnyContentType) : Collected Response := do
  match parsePageNumber request.page with
  | none => return missing site request locale (feedHrefOf locale type)
  | some page =>
    let archive ← loadArchive db now type locale page
    if archive.page ≤ archive.pageCount then
      return .archive
        (siteContext site locale request.pathname (listingHead site request.pathname)
          (listingTranslations site request.pathname locale) (feedHrefOf locale type))
        (archiveView site locale type archive)
    else return missing site request locale (feedHrefOf locale type)

/-- The path of a document's URL; a type that nests has to resolve it. -/
def pathOf (row : ContentRow) (type : AnyContentType) : Option (List String) :=
  if type.hierarchical then
    ((loadAncestry db row type).filter (·.complete)).map (·.slugs)
  else some [row.slug]

/-- The view of a document, and what surrounds it. -/
def documentPage (locale : String) (type : AnyContentType) (row : ContentRow)
    (path : List String) (siblings : List Sibling)
    («media» : List (UuidText × ResolvedMedia)) : Response :=
  .document
    (siteContext site locale request.pathname
      (documentHead site locale type path row.meta siblings)
      (translationLinks site siblings type locale) (feedHrefOf locale type))
    (documentView site row type path «media»)

def renderDocument (locale : String) (type : AnyContentType) (slug : String) :
    Collected Response := do
  match ← loadDocument db now type locale slug with
  | none => return missing site request locale (feedHrefOf locale type)
  | some row =>
    match pathOf db row type with
    | none => return missing site request locale (feedHrefOf locale type)
    | some path =>
      if documentPath locale type path ≠ request.pathname then
        return .redirect (documentPath locale type path)
      else
        let siblings ← loadTranslations db now row type
        let «media» ← loadMedia site db row locale
        return documentPage site request locale type row path siblings «media»

/-- `[...path].astro`. -/
def renderPage : Collected Response :=
  match site.routeOf request with
  | none =>
    return missing site request ((site.localeOf request.pathname).getD site.defaultLocale) none
  | some (locale, .archive type) => renderArchive site now db request locale type
  | some (locale, .document type slug _) => renderDocument site now db request locale type slug

end Page
end PressLabz
