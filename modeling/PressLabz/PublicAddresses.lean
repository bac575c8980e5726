import PressLabz.CacheCoverage
import PressLabz.CanonicalUrls

/-! # Where the site answers with a document

A URL belongs to one of the files under `pages/`, and only `[locale]/[...path]`
answers with documents.  `Site.answerAt` is the document a URL is answered with
status 200, `canonicalPath` the URL the site gives a document, and `Routed` says
that the one leads to the other: the language is served, no more specific file or
type takes the URL, and its last segment is the slug.

A public document is answered at its canonical URL exactly when that URL is routed
to it, and nowhere else (`answerAt_iff`).
-/
namespace PressLabz
open Forest

/-- What `[locale]/[...path].astro` is asked.  The other files under `[locale]` are
the home page, a preview and a feed, and take their URLs before it. -/
def requestAt (pathname : String) : Option PageRequest :=
  match segmentsOf pathname with
  | [] => none
  | [_] => none
  | [_, second, third] =>
    if second = "preview" ∨ third = "feed.xml" then none
    else some ⟨pathname, some (pathParam pathname), none⟩
  | _ => some ⟨pathname, some (pathParam pathname), none⟩

/-- The document a response shows. -/
def Response.documentId : Response → Option Uuid
  | .document _ view => some view.id
  | _ => none

/-- The document a URL is answered with. -/
def Site.answerAt (site : Site) (now : Nat) (db : Database) (pathname : String) : Option Uuid :=
  (requestAt pathname).bind fun request => (renderPage site now db request).value.documentId

/-- The URL of a document, below the origin. -/
def canonicalPath (db : Database) (type : AnyContentType) (row : ContentRow) : Option String :=
  (siblingPath db type row).map (documentPath row.locale type)

/-- The canonical URL of the document is one that leads to its slug, in its language
and type. -/
def Routed (site : Site) (db : Database) (type : AnyContentType) (row : ContentRow) : Prop :=
  ∃ pathname request path, canonicalPath db type row = some pathname ∧
    requestAt pathname = some request ∧
    site.routeOf request = some (row.locale, .document type row.slug path)

section Answers
variable {site : Site} {now : Nat} {db : Database} {request : PageRequest} {pathname : String}
  {type : AnyContentType} {locale slug : String} {row : ContentRow} {id : Uuid}

theorem requestAt_eq (h : requestAt pathname = some request) :
    request = ⟨pathname, some (pathParam pathname), none⟩ := by
  unfold requestAt at h
  split at h
  · cases h
  · cases h
  · split at h
    · cases h
    · cases h
      rfl
  · cases h
    rfl

theorem requestAt_pathname (h : requestAt pathname = some request) :
    request.pathname = pathname := by rw [requestAt_eq h]

theorem localeOf_some (h : site.localeOf pathname = some locale) :
    locale ∈ LOCALES ∧ locale ∈ site.locales := by
  have hfilter := (Option.filter_eq_some_iff.mp h).2
  simpa using hfilter

theorem resolveRoute_mem {types : List AnyContentType} {segments : List String}
    {route : ResolvedRoute} (h : resolveRoute types segments = some route) :
    route.type ∈ types := by
  unfold resolveRoute at h
  split at h
  · cases h
  · split at h
    · rename_i hfind
      rw [underType_type h]
      exact List.mem_of_find?_eq_some hfind
    · split at h
      · rename_i hfind
        rw [underType_type h]
        exact List.mem_of_find?_eq_some hfind
      · cases h

theorem routeOf_mem {route : ResolvedRoute} (h : site.routeOf request = some (locale, route)) :
    route.type ∈ site.types := by
  unfold Site.routeOf at h
  obtain ⟨locale', -, h⟩ := Option.bind_eq_some_iff.mp h
  obtain ⟨segments, -, h⟩ := Option.bind_eq_some_iff.mp h
  obtain ⟨route', hroute, h⟩ := Option.bind_eq_some_iff.mp h
  obtain ⟨-, rfl⟩ := Prod.mk.inj (Option.some.inj h)
  exact resolveRoute_mem hroute

/-- An archive shows no document. -/
theorem renderArchive_documentId :
    (renderArchive site now db request locale type).value.documentId = none := by
  have hmissing : ∀ feedHref, (missing site request locale feedHref).documentId = none :=
    fun _ => rfl
  unfold renderArchive
  split
  · exact hmissing _
  · rw [Collected.bind_value]
    split
    · rfl
    · exact hmissing _

theorem renderDocument_documentId :
    (renderDocument site now db request locale type slug).value.documentId = some id ↔
      ∃ row path, db.findPublishedBySlug type.name locale slug now = some row ∧
        siblingPath db type row = some path ∧
        documentPath locale type path = request.pathname ∧ row.id = id := by
  constructor
  · intro h
    have hok : (renderDocument site now db request locale type slug).value.status = 200 := by
      cases hvalue : (renderDocument site now db request locale type slug).value with
      | document _ _ => rfl
      | redirect _ | notFound _ | archive _ _ =>
        rw [hvalue] at h
        cases h
    obtain ⟨row, path, hrow, hpath, hurl⟩ := renderDocument_ok hok
    rw [renderDocument_eq hrow hpath, if_pos hurl] at h
    exact ⟨row, path, hrow, hpath, hurl, Option.some.inj h⟩
  · rintro ⟨row, path, hrow, hpath, hurl, rfl⟩
    rw [renderDocument_eq hrow hpath, if_pos hurl]
    rfl

/-- **A URL is answered with a document** exactly if it is routed to a slug whose public
document has this URL. -/
theorem answerAt_eq_some : site.answerAt now db pathname = some id ↔
    ∃ request locale type slug segments row path, requestAt pathname = some request ∧
      site.routeOf request = some (locale, .document type slug segments) ∧
      db.findPublishedBySlug type.name locale slug now = some row ∧
      siblingPath db type row = some path ∧ documentPath locale type path = pathname ∧
      row.id = id := by
  unfold Site.answerAt
  constructor
  · intro h
    obtain ⟨request, hrequest, h⟩ := Option.bind_eq_some_iff.mp h
    unfold renderPage at h
    split at h
    · cases h
    · rw [renderArchive_documentId] at h
      cases h
    · rename_i locale type slug segments hroute
      obtain ⟨row, path, hrow, hpath, hurl, hid⟩ := renderDocument_documentId.mp h
      rw [requestAt_pathname hrequest] at hurl
      exact ⟨request, locale, type, slug, segments, row, path, hrequest, hroute, hrow, hpath,
        hurl, hid⟩
  · rintro ⟨request, locale, type, slug, segments, row, path, hrequest, hroute, hrow, hpath,
      hurl, hid⟩
    rw [hrequest, Option.bind_some, renderPage, hroute]
    refine renderDocument_documentId.mpr ⟨row, path, hrow, hpath, ?_, hid⟩
    rw [requestAt_pathname hrequest, hurl]

/-- **A document is answered at its canonical URL**, if it is public and that URL is
routed to it, and at no other. -/
theorem answerAt_iff (hc : db.Constraints)
    (hnames : (site.types.map AnyContentType.name).Nodup) (hrow : row ∈ db.contents) :
    site.answerAt now db pathname = some row.id ↔
      publiclyVisible now row = true ∧ ∃ type, registryGet site.types row.type = some type ∧
        Routed site db type row ∧ canonicalPath db type row = some pathname := by
  rw [answerAt_eq_some]
  constructor
  · rintro ⟨request, locale, type, slug, segments, found, path, hrequest, hroute, hfound, hpath,
      hurl, hid⟩
    obtain ⟨hmem, htype, rfl, rfl, hvisible⟩ := findPublishedBySlug_some hfound
    have hsame : found = row :=
      List.inj_on_of_nodup_map hc.contents_pkey hmem hrow hid
    subst hsame
    have hcanonical : canonicalPath db type found = some pathname := by
      rw [canonicalPath, hpath, Option.map_some, hurl]
    refine ⟨hvisible, type, ?_, ⟨pathname, request, segments, hcanonical, hrequest, hroute⟩,
      hcanonical⟩
    rw [htype]
    exact registryGet_of_mem hnames (routeOf_mem hroute)
  · rintro ⟨hvisible, type, htype, ⟨pathname', request, segments, hcanonical, hrequest, hroute⟩,
      hcanonical'⟩
    obtain rfl := Option.some.inj (hcanonical.symm.trans hcanonical')
    obtain ⟨path, hpath, hurl⟩ := Option.map_eq_some_iff.mp hcanonical
    have hname : row.type = type.name := (Rows.key_of_find htype).symm
    refine ⟨request, row.locale, type, row.slug, segments, row, path, hrequest, hroute, ?_,
      hpath, hurl, rfl⟩
    rw [← hname]
    exact findPublishedBySlug_of_mem hc hrow hvisible

end Answers

/-! ## The URLs that are routed -/

/-- Nothing stands between a document and its URL: its language is one that the site
serves, and no type and no file with a more specific path takes the URL. -/
structure Reachable (site : Site) (db : Database) (type : AnyContentType) (row : ContentRow) :
    Prop where
  known : row.locale ∈ LOCALES
  served : row.locale ∈ site.locales
  addressable : Addressable type
  free : ∀ path, siblingPath db type row = some path →
    ¬ Shadowed site.types type path ∧ ∀ slug, urlSegments type path ≠ ["preview", slug]

section Routes
variable {site : Site} {db : Database} {type : AnyContentType} {row : ContentRow}
  {path segments : List String}

theorem segmentsOf_slash (rest : String) : segmentsOf ("/" ++ rest) = segmentsOf rest := by
  have hlist : ("/" ++ rest).toList = '/' :: rest.toList := by
    rw [String.toList_append]
    rfl
  have hsplit : ('/' :: rest.toList).splitOn '/' = [] :: rest.toList.splitOn '/' := by
    simp [List.splitOn_cons_eq_if_modifyHead]
  rw [segmentsOf, segmentsOf, hlist, hsplit]
  rfl

/-- The segments of a path under a language are the language and those of the rest. -/
theorem segmentsOf_locale {locale : String} (hlocale : IsSegment locale)
    (hne : segments ≠ []) (h : ∀ segment ∈ segments, IsSegment segment) :
    segmentsOf ("/" ++ locale ++ "/" ++ "/".intercalate segments) = locale :: segments := by
  obtain ⟨first, rest, rfl⟩ := List.exists_cons_of_ne_nil hne
  have hjoin : "/" ++ locale ++ "/" ++ "/".intercalate (first :: rest) =
      "/" ++ "/".intercalate (locale :: first :: rest) := by
    rw [String.intercalate_cons_cons, String.append_assoc, String.append_assoc]
    simp [String.append_assoc]
  rw [hjoin, segmentsOf_slash, segmentsOf_intercalate]
  exact List.forall_mem_cons.mpr ⟨hlocale, h⟩

theorem isSegment_locale {locale : String} (h : locale ∈ LOCALES) : IsSegment locale := by
  rcases List.mem_pair.mp h with rfl | rfl
  · exact ⟨by decide, by decide⟩
  · exact ⟨by decide, by decide⟩

theorem isSegment_basePath (hdefined : Defined type) :
    type.basePath = "" ∨ IsSegment type.basePath := hdefined.basePath.imp_right isSegment_name

theorem urlSegments_ne_nil (h : SlugPath type path) : urlSegments type path ≠ [] := by
  simp [urlSegments, h.nonempty]

/-- The segments of a document's URL are its language and those of its path. -/
theorem segmentsOf_documentPath {locale : String} (hlocale : IsSegment locale)
    (hbase : type.basePath = "" ∨ IsSegment type.basePath) (h : SlugPath type path) :
    segmentsOf (documentPath locale type path) = locale :: urlSegments type path := by
  rw [documentPath_eq h.nonempty]
  exact segmentsOf_locale hlocale (urlSegments_ne_nil h) (isSegment_urlSegments hbase h)

/-- The requests that reach `[...path].astro` are those of which two segments below a
language are no other file's. -/
theorem requestAt_iff {pathname locale : String} {request : PageRequest}
    (h : segmentsOf pathname = locale :: segments) (hne : segments ≠ []) :
    requestAt pathname = some request ↔ request = ⟨pathname, some (pathParam pathname), none⟩ ∧
      ∀ second third, segments = [second, third] → second ≠ "preview" ∧ third ≠ "feed.xml" := by
  unfold requestAt
  rw [h]
  match segments, hne with
  | [second], _ => simp [eq_comm]
  | [second, third], _ =>
    by_cases hfile : second = "preview" ∨ third = "feed.xml"
    · simp only [if_pos hfile]
      refine iff_of_false (fun h => by cases h) fun hall => ?_
      obtain ⟨hsecond, hthird⟩ := hall.2 second third rfl
      exact hfile.elim hsecond hthird
    · simp only [if_neg hfile]
      push Not at hfile
      simp [hfile, eq_comm]
  | _ :: _ :: _ :: _, _ => simp [eq_comm]

/-- The path of a document is one that its type forms, and ends with its slug. -/
theorem siblingPath_slugPath (hinv : ContentsInv db) (hslugs : db.SlugsValid)
    (hrow : row ∈ db.contents) (htype : row.type = type.name)
    (hpath : siblingPath db type row = some path) :
    SlugPath type path ∧ path.getLast? = some row.slug := by
  cases hh : type.hierarchical with
  | false =>
    rw [siblingPath_flat db hh] at hpath
    obtain rfl := Option.some.inj hpath
    refine ⟨⟨List.cons_ne_nil _ _, fun slug hs => ?_, fun _ => rfl⟩, rfl⟩
    obtain rfl := List.mem_singleton.mp hs
    exact hslugs row hrow
  | true =>
    obtain ⟨hne, hvalid⟩ := siblingPath_valid hinv hslugs hrow htype hh hpath
    have hcontent := Database.content_of_mem hinv.constraints hrow
    obtain ⟨l, hl, -⟩ := hinv.tree row.id (Database.parents_ne_none.mpr ⟨row, hcontent⟩)
    rw [siblingPath_path hinv hcontent htype hh hl] at hpath
    obtain rfl := Option.some.inj hpath
    refine ⟨⟨hne, hvalid, fun hflat => ?_⟩, ?_⟩
    · rw [hh] at hflat
      cases hflat
    · obtain ⟨rest, rfl⟩ := hl.head
      simp [Database.slugOf_content hcontent]

/-- The segments of a document's URL are slugs, if its type has a slug for a base path. -/
theorem addressable_iff (h : SlugPath type path) :
    (∀ segment ∈ urlSegments type path, isSlug segment = true) ↔ Addressable type := by
  rw [urlSegments, Addressable]
  by_cases hroot : type.basePath = ""
  · rw [if_pos hroot, List.nil_append]
    exact iff_of_true h.valid (.inl hroot)
  · rw [if_neg hroot, List.singleton_append, List.forall_mem_cons]
    constructor
    · rintro ⟨hbase, -⟩
      exact .inr hbase
    · intro haddr
      exact ⟨haddr.resolve_left hroot, h.valid⟩

theorem localeOf_eq {pathname locale : String} (h : segmentsOf pathname = locale :: segments)
    {found : String} : site.localeOf pathname = some found ↔
      found = locale ∧ found ∈ LOCALES ∧ found ∈ site.locales := by
  rw [Site.localeOf, h, List.head?_cons, Option.filter_eq_some_iff]
  simp only [Bool.and_eq_true, decide_eq_true_eq, Option.some.injEq]
  constructor
  · rintro ⟨rfl, hknown, hserved⟩
    exact ⟨rfl, hknown, hserved⟩
  · rintro ⟨rfl, hknown, hserved⟩
    exact ⟨rfl, hknown, hserved⟩

/-- The route of a URL is resolved below its language. -/
theorem routeOf_eq {pathname locale : String} {route : ResolvedRoute} :
    site.routeOf ⟨pathname, some (pathParam pathname), none⟩ = some (locale, route) ↔
      site.localeOf pathname = some locale ∧ routeAt site.types pathname = some route := by
  unfold Site.routeOf routeAt
  constructor
  · intro h
    obtain ⟨found, hfound, h⟩ := Option.bind_eq_some_iff.mp h
    obtain ⟨segments, hsegments, h⟩ := Option.bind_eq_some_iff.mp h
    obtain ⟨route', hroute, h⟩ := Option.bind_eq_some_iff.mp h
    obtain ⟨rfl, rfl⟩ := Prod.mk.inj (Option.some.inj h)
    exact ⟨hfound, Option.bind_eq_some_iff.mpr ⟨segments, hsegments, hroute⟩⟩
  · rintro ⟨hfound, hroute⟩
    obtain ⟨segments, hsegments, hroute⟩ := Option.bind_eq_some_iff.mp hroute
    exact Option.bind_eq_some_iff.mpr ⟨locale, hfound, Option.bind_eq_some_iff.mpr
      ⟨segments, hsegments, Option.bind_eq_some_iff.mpr ⟨route, hroute, rfl⟩⟩⟩

/-- **A URL is routed to its document** exactly if nothing stands between them. -/
theorem routed_iff (hinv : ContentsInv db) (hslugs : db.SlugsValid)
    (hreg : Registered site.types) (hdefined : Defined type) (htype : type ∈ site.types)
    (hrow : row ∈ db.contents) (hname : row.type = type.name) :
    Routed site db type row ↔ Reachable site db type row := by
  obtain ⟨path, hpath⟩ :=
    siblingPath_some hinv (Database.content_of_mem hinv.constraints hrow) hname
  obtain ⟨hslug, hlast⟩ := siblingPath_slugPath hinv hslugs hrow hname hpath
  have hcanonical : canonicalPath db type row = some (documentPath row.locale type path) := by
    rw [canonicalPath, hpath, Option.map_some]
  have hbase := isSegment_basePath hdefined
  have hsegments : row.locale ∈ LOCALES →
      segmentsOf (documentPath row.locale type path) = row.locale :: urlSegments type path :=
    fun hknown => segmentsOf_documentPath (isSegment_locale hknown) hbase hslug
  constructor
  · rintro ⟨pathname, request, path', hcanonical', hrequest, hroute⟩
    obtain rfl := Option.some.inj (hcanonical.symm.trans hcanonical')
    obtain rfl : request = ⟨_, some (pathParam _), none⟩ := requestAt_eq hrequest
    obtain ⟨hlocale, hroute⟩ := routeOf_eq.mp hroute
    obtain ⟨hknown, hserved⟩ := localeOf_some hlocale
    obtain ⟨segments, hparse, hresolve⟩ := Option.bind_eq_some_iff.mp hroute
    -- what the router is given are the segments after the language
    have hparam : segmentsOf (pathParam (documentPath row.locale type path)) =
        urlSegments type path := by
      rw [documentPath_eq hslug.nonempty, pathParam_join (locale_slash hknown),
        segmentsOf_intercalate (isSegment_urlSegments hbase hslug)]
    rw [parseSegments, hparam] at hparse
    split at hparse
    · rename_i hall
      obtain rfl := Option.some.inj hparse
      refine ⟨hknown, hserved, (addressable_iff hslug).mp (List.all_eq_true.mp hall), ?_⟩
      intro path'' hpath''
      obtain rfl := Option.some.inj (hpath.symm.trans hpath'')
      refine ⟨?_, fun slug heq => ?_⟩
      -- a type whose base is the first segment would have taken the URL
      · rintro ⟨hroot, other, hother, hne, hhead⟩
        obtain ⟨rest, rfl⟩ : ∃ rest, path = other.basePath :: rest :=
          List.head?_eq_some_iff.mp hhead
        rw [urlSegments, if_pos hroot, List.nil_append,
          resolveRoute_prefixed hreg hother hne] at hresolve
        have hsame : type = other := underType_type hresolve
        exact hne (hsame ▸ hroot)
      -- the route of previews would have taken it
      · have hfile := ((requestAt_iff (hsegments hknown) (urlSegments_ne_nil hslug)).mp hrequest).2
        exact (hfile "preview" slug heq).1 rfl
    · cases hparse
  · rintro ⟨hknown, hserved, haddr, hfree⟩
    obtain ⟨hshadow, hpreview⟩ := hfree path hpath
    obtain ⟨slug, hslug', hroute⟩ :=
      (roundTrips_iff hreg (locale_slash hknown) htype haddr hslug).mpr hshadow
    obtain rfl := Option.some.inj (hlast.symm.trans hslug')
    refine ⟨_, _, path, hcanonical, (requestAt_iff (hsegments hknown)
      (urlSegments_ne_nil hslug)).mpr ⟨rfl, fun second third heq => ⟨?_, ?_⟩⟩,
      routeOf_eq.mpr ⟨(localeOf_eq (hsegments hknown)).mpr ⟨rfl, hknown, hserved⟩, hroute⟩⟩
    · rintro rfl
      exact hpreview third heq
    · rintro rfl
      -- no slug has a dot
      have hvalid := (addressable_iff hslug).mpr haddr "feed.xml" (by rw [heq]; simp)
      exact absurd hvalid (by decide)

end Routes
end PressLabz
