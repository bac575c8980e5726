import PressLabz.RequestKeys
import PressLabz.Sitemap

/-! # The pages of the site, and the links between them

The files under `apps/web/src/pages` beside `[locale]/[...path].astro`: the home page of
a language, and the feeds.  `Site.visit` is what a URL is answered with, whichever of the
files takes it, and `Site.follow` what a reader gets who follows a link of the site,
redirects included.

The root and the previews have modules of their own and are not visited here, nor are
`/404`, the sitemap and `robots.txt`.  A preview is handed the home page and the navigation
of `siteContext` like any other page, and the address its document would have.
-/
namespace PressLabz

/-! ## The URL of a link -/

/-- A link to a path of the site, as a browser takes it apart.  The links of the site
hold no fragment and nothing that is percent-encoded. -/
def SiteUrl.ofHref (href : String) : Option SiteUrl :=
  let pathname := href.toList.takeWhile (· ≠ '?')
  let query := (href.toList.dropWhile (· ≠ '?')).drop 1
  if h : pathname.head? = some '/' then
    some
      { pathname := String.ofList pathname
        params := ((query.splitOn '&').filter (· ≠ [])).map fun param =>
          (String.ofList (param.takeWhile (· ≠ '=')),
            String.ofList ((param.dropWhile (· ≠ '=')).drop 1))
        rooted := by rwa [String.toList_ofList]
        bare := by
          rw [String.toList_ofList]
          exact fun hmem => by simpa using List.mem_takeWhile_imp hmem }
  else none

/-! ## The other pages -/

/-- An entry of a feed.  Its HTML is rendered from the blocks and their media. -/
structure FeedItem where
  id : Uuid
  title : String
  href : String
  updated : Nat
  published : Option Nat
  summary : Option String
  blocks : Blocks
  «media» : List (UuidText × ResolvedMedia)

structure Feed where
  title : String
  siteHref : String
  selfHref : String
  language : String
  updated : Nat
  entries : List FeedItem

/-- What a file under `pages/` answers with. -/
inductive Visit where
  | page (response : Response)
  | home (site : SiteContext) (archive : ArchiveView)
  | feed (feed : Feed)
  /-- A 404 with nothing in it. -/
  | empty

def Visit.status : Visit → Nat
  | .page response => response.status
  | .home _ _ => 200
  | .feed _ => 200
  | .empty => 404

/-- The type the home page lists. -/
def primaryType (types : List AnyContentType) : Option AnyContentType :=
  types.find? fun type => type.basePath ≠ ""

def FEED_SIZE : Nat := 20

section Pages
variable (site : Site) (now : Nat) (db : Database)

/-- `[locale]/index.astro`. -/
def renderHome (pathname : String) : Collected Visit := do
  let locale := site.localeOf pathname
  let type := primaryType site.types
  let context := siteContext site (locale.getD site.defaultLocale) pathname
    (if locale.isSome then listingHead site pathname else MISSING_HEAD)
    ((locale.map (listingTranslations site pathname)).getD [])
    (match locale, type with
      | some locale, some type => some (archivePath locale type ++ "/feed.xml")
      | _, _ => none)
  match locale, type with
  | some locale, some type =>
    let archive ← loadArchive db now type locale 1
    return .home context
      { archiveView site locale type archive with title := site.translate locale "web.home.latest" }
  | _, _ => return .page (.notFound context)

/-- The media of several documents, each text once. -/
def loadMediaForMany (rows : List ContentRow) (locale : String) :
    List (UuidText × ResolvedMedia) :=
  let ids := (rows.flatMap fun row => mediaIdsIn row.blocks).eraseDups
  if ids.length = 0 then []
  else
    let found := db.findMediaByIds ids
    ids.filterMap fun id => (site.mediaResolver found locale id).map fun resolved => (id, resolved)

/-- `feed.xml.ts`. -/
def renderFeed (locale base : String) : Visit :=
  if ¬ (locale ∈ LOCALES ∧ locale ∈ site.locales ∧ base ≠ "") then .empty
  else
    match site.types.find? fun candidate => candidate.basePath = base with
    | none => .empty
    | some type =>
      if type.basePath = "" then .empty
      else
        let rows := db.listPublished ⟨type.name, locale, now, some FEED_SIZE, some 0⟩
        let resolved := loadMediaForMany site db rows locale
        let entries : List FeedItem := rows.map fun row =>
          { id := row.id
            title := row.title
            href := site.absolute (documentPath locale type [row.slug])
            updated := row.updatedAt
            published := row.publishedAt
            summary := row.excerpt
            blocks := row.blocks
            «media» := resolved }
        .feed
          { title := site.siteName ++ " — " ++
              site.translate locale ("content.type." ++ type.name ++ ".plural")
            siteHref := site.absolute (homePath locale)
            selfHref := site.absolute (archivePath locale type ++ "/feed.xml")
            language := localeTag locale
            updated := (entries.map (·.updated)).foldl max 0
            entries := entries }

/-- The files that take a path of one segment before a home page does. -/
def STATIC_PAGES : List String := ["404", "robots.txt", "sitemap.xml"]

/-- What a URL is answered with, by the file that takes it: all but the root, `/404`, the
sitemap, `robots.txt` and the previews. -/
def Site.visit (u : SiteUrl) : Option Visit :=
  match segmentsOf u.pathname with
  | [] => none
  | [first] =>
    if first ∈ STATIC_PAGES then none else some (renderHome site now db u.pathname).value
  | [locale, second, third] =>
    if second = "preview" then none
    else if third = "feed.xml" then some (renderFeed site now db locale second)
    else (site.respond now db u).map .page
  | _ => (site.respond now db u).map .page

/-- What a link leads to, where at most so many URLs are fetched for it. -/
def Site.follow : Nat → String → Option Visit
  | 0, _ => none
  | hops + 1, href =>
    match (SiteUrl.ofHref href).bind (site.visit now db) with
    | some (.page (.redirect location)) => Site.follow hops location
    | answer => answer

/-! ## Links -/

def SiteContext.links (context : SiteContext) : List String :=
  context.homeHref :: (context.nav.map (·.href) ++ context.translations.map (·.href) ++
    context.feedHref.toList)

def ArchiveView.links (archive : ArchiveView) : List String :=
  archive.entries.map (·.href) ++ archive.newerHref.toList ++ archive.olderHref.toList

def Response.links : Response → List String
  | .redirect location => [location]
  | .notFound context => context.links
  | .archive context view => context.links ++ view.links
  | .document context view => view.href :: context.links

/-- The path of an absolute address of the site. -/
def Site.pathOf (href : String) : Option String :=
  if site.origin.toList.isPrefixOf href.toList then
    some (String.ofList (href.toList.drop site.origin.toList.length))
  else none

def Visit.links : Visit → List String
  | .page response => response.links
  | .home context view => context.links ++ view.links
  | .feed found =>
    (found.siteHref :: found.selfHref :: found.entries.map (·.href)).filterMap (Site.pathOf site)
  | .empty => []

end Pages
end PressLabz
