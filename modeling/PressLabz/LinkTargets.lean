import PressLabz.PreviewTokens
import PressLabz.SitePages

/-! # Where a link leads

The texts of the links are written in one place (`lib/routes.ts`, `lib/view.ts`) and read
in another, by Astro, the middleware and `resolveRoute`.  Here they are followed: to a page
of an archive, whose number is written into a query and read back from it
(`follow_archivePageUrl`), and to a document, at its own URL (`opens_canonical`) or at the
one an archive links to (`opens_entry`).
-/
namespace PressLabz
open Calendar PreviewTokens

/-! ## A link and its URL -/

section Hrefs
variable {path : String}

/-- The target of a link without a query is its path. -/
theorem ofHref_path (hroot : path.toList.head? = some '/') (hbare : '?' ∉ path.toList) :
    SiteUrl.ofHref path = some ⟨path, [], hroot, hbare⟩ := by
  have hne : ∀ c ∈ path.toList, (decide (c ≠ '?')) = true := fun c hc =>
    decide_eq_true fun heq => hbare (heq ▸ hc)
  have htake : path.toList.takeWhile (· ≠ '?') = path.toList := List.takeWhile_eq_self_iff.mpr hne
  have hdrop : path.toList.dropWhile (· ≠ '?') = [] := List.dropWhile_eq_nil_iff.mpr hne
  unfold SiteUrl.ofHref
  simp only [htake, hdrop, hroot, String.ofList_toList]
  rfl

/-- The target of a link to a page of an archive is the archive and the page. -/
theorem ofHref_page (hroot : path.toList.head? = some '/') (hbare : '?' ∉ path.toList) (n : Nat) :
    SiteUrl.ofHref (path ++ "?page=" ++ toString n) =
      some ⟨path, [(PAGE_PARAM, toString n)], hroot, hbare⟩ := by
  have hne : ∀ c ∈ path.toList, (decide (c ≠ '?')) = true := fun c hc =>
    decide_eq_true fun heq => hbare (heq ▸ hc)
  have hlist : (path ++ "?page=" ++ toString n).toList =
      path.toList ++ '?' :: ("page=".toList ++ digits n) := by
    simp [String.toList_append, digits]
  have htake : (path ++ "?page=" ++ toString n).toList.takeWhile (· ≠ '?') = path.toList := by
    rw [hlist, List.takeWhile_append_of_pos hne]
    simp
  have hdrop : (path ++ "?page=" ++ toString n).toList.dropWhile (· ≠ '?') =
      '?' :: ("page=".toList ++ digits n) := by
    rw [hlist, List.dropWhile_append_of_pos hne]
    simp
  -- a page number separates no parameters
  have hamp : '&' ∉ "page=".toList ++ digits n := by
    intro h
    rcases List.mem_append.mp h with h | h
    · exact absurd h (by decide)
    · exact absurd (isDigit_of_mem_digits h) (by decide)
  have hsplit : ("page=".toList ++ digits n).splitOn '&' = ["page=".toList ++ digits n] :=
    List.splitOn_eq_singleton hamp
  unfold SiteUrl.ofHref
  simp only [htake, hdrop, hroot, String.ofList_toList, List.drop_one, List.tail_cons, hsplit]
  have hname : "page=".toList = ['p', 'a', 'g', 'e', '='] := rfl
  simp [hname, digits, PAGE_PARAM, Nat.repr_eq_ofList_toDigits]

/-- **Page numbers** are read back, up to five digits. -/
theorem parsePageNumber_toString (n : Nat) : parsePageNumber (some (toString n)) =
    if 1 ≤ n ∧ n ≤ 99999 then some n else none := by
  have htext : (toString n).toList = digits n := by
    rw [Nat.toString_eq_ofList_toDigits, String.toList_ofList, digits]
  by_cases hpos : 1 ≤ n
  · obtain ⟨first, rest, hdigits, hfirst⟩ := head_digits n hpos
    have hisDigit : ∀ c ∈ first :: rest, c.isDigit = true := fun c hc =>
      isDigit_of_mem_digits (hdigits ▸ hc)
    have hrange : '1' ≤ first ∧ first ≤ '9' := by
      have hd := hisDigit first List.mem_cons_self
      simp only [Char.isDigit, Bool.and_eq_true, decide_eq_true_eq] at hd
      have hne : first.val ≠ '0'.val := fun heq => hfirst (Char.ext heq)
      refine ⟨?_, hd.2⟩
      have hzero : ('0'.val).toNat = 48 := rfl
      have hone : ('1'.val).toNat = 49 := rfl
      rw [ge_iff_le, UInt32.le_iff_toNat_le] at hd
      rw [ne_eq, ← UInt32.toNat_inj] at hne
      rw [Char.le_def, UInt32.le_iff_toNat_le]
      change 48 ≤ _ ∧ _ at hd
      omega
    have hrest : rest.all Char.isDigit = true :=
      List.all_eq_true.mpr fun c hc => hisDigit c (List.mem_cons_of_mem first hc)
    have hlength : rest.length ≤ 4 ↔ n ≤ 99999 := by
      have hle : (digits n).length ≤ 5 ↔ n < 10 ^ 5 := length_digits_le (by decide)
      rw [hdigits, List.length_cons] at hle
      omega
    have hvalue : (first :: rest).foldl (fun n c => n * 10 + (c.toNat - '0'.toNat)) 0 = n := by
      have hread : Nat.ofDigitChars 10 (first :: rest) 0 = n := by
        rw [← hdigits]
        exact Nat.ofDigitChars_ten_toDigits
      rw [Nat.ofDigitChars_eq_foldl] at hread
      simpa only [Nat.mul_comm] using hread
    simp only [parsePageNumber, htext, hdigits, hrange, hrest, hlength, true_and, hpos, hvalue]
  · obtain rfl : n = 0 := by omega
    rfl

end Hrefs

/-! ## The characters of a path -/

section Bare
variable {locale : String}

theorem bare_slug {slug : String} (h : isSlug slug = true) : '?' ∉ slug.toList := by
  unfold isSlug at h
  simp only [Bool.and_eq_true, List.all_eq_true, decide_eq_true_eq] at h
  obtain ⟨-, hruns⟩ := h
  intro hmem
  have hjoin : ['-'].intercalate (slug.toList.splitOn '-') = slug.toList :=
    List.intercalate_splitOn '-'
  rw [← hjoin] at hmem
  rcases mem_intercalate hmem with hsep | ⟨run, hrun, hc⟩
  · exact absurd (List.mem_singleton.mp hsep) (by decide)
  · exact absurd ((hruns run hrun).2 '?' hc) (by decide)

theorem bare_locale (h : locale ∈ LOCALES) : '?' ∉ locale.toList := by
  rcases List.mem_pair.mp h with rfl | rfl
  · decide
  · decide

/-- A path of segments without question marks has none. -/
theorem bare_join {segments : List String} (hlocale : '?' ∉ locale.toList)
    (h : ∀ segment ∈ segments, '?' ∉ segment.toList) :
    '?' ∉ ("/" ++ locale ++ "/" ++ "/".intercalate segments).toList := by
  have hslash : "/".toList = ['/'] := rfl
  simp only [String.toList_append, String.toList_intercalate, List.mem_append, hslash,
    List.mem_singleton, not_or]
  refine ⟨⟨⟨by decide, hlocale⟩, by decide⟩, fun hmem => ?_⟩
  rcases mem_intercalate hmem with hsep | ⟨part, hpart, hc⟩
  · exact absurd (List.mem_singleton.mp hsep) (by decide)
  · obtain ⟨segment, hsegment, rfl⟩ := List.mem_map.mp hpart
    exact h segment hsegment hc

theorem head_join (rest : String) : ("/" ++ rest).toList.head? = some '/' := by
  rw [String.toList_append]
  rfl

end Bare

/-! ## What a URL is answered with -/

section Visits
variable {site : Site} {now : Nat} {db : Database} {u : SiteUrl} {request : PageRequest}
  {type : AnyContentType} {locale : String} {segments : List String}

/-- A URL that no more specific file takes is answered by `[...path].astro`. -/
theorem visit_respond (h : requestAt u.pathname = some request) :
    site.visit now db u = some (.page
      (renderPage site now db { request with page := u.get PAGE_PARAM }).value) := by
  have hrespond : (site.respond now db u).map Visit.page = some (.page
      (renderPage site now db { request with page := u.get PAGE_PARAM }).value) := by
    rw [Site.respond, h]
    rfl
  unfold requestAt at h
  unfold Site.visit
  rcases hsegments : segmentsOf u.pathname with
    _ | ⟨_, _ | ⟨_, _ | ⟨_, _ | ⟨_, _⟩⟩⟩⟩ <;> rw [hsegments] at h
  · cases h
  · cases h
  · exact hrespond
  · dsimp only at h ⊢
    split at h
    · cases h
    · rename_i hfile
      push Not at hfile
      rw [if_neg hfile.1, if_neg hfile.2]
      exact hrespond
  · exact hrespond

/-- What a site is started with makes URLs that lead back: the types are registered, have
slugs for base paths, and leave the previews theirs; some type has an archive, which the
home page lists; the languages are known ones. -/
structure WellAddressed (site : Site) : Prop where
  defined : ∀ type ∈ site.types, Defined type
  registered : Registered site.types
  addressable : ∀ type ∈ site.types, Addressable type
  previews : ∀ type ∈ site.types, type.basePath ≠ "preview"
  primary : ∃ type ∈ site.types, type.basePath ≠ ""
  known : ∀ locale ∈ site.locales, locale ∈ LOCALES
  default : site.defaultLocale ∈ site.locales

/-- The segments of an archive's path are its locale and its base path. -/
theorem segmentsOf_archivePath (hlocale : locale ∈ LOCALES) (hne : type.basePath ≠ "")
    (haddr : Addressable type) :
    segmentsOf (archivePath locale type) = [locale, type.basePath] := by
  rw [archivePath_eq hne]
  refine segmentsOf_locale (isSegment_locale hlocale) (List.cons_ne_nil _ _) fun segment hs => ?_
  obtain rfl := List.mem_singleton.mp hs
  exact isSegment_slug (haddr.resolve_left hne)

/-- The path of an archive is routed to the archive of its type. -/
theorem routeOf_archivePath (hsite : WellAddressed site) (htype : type ∈ site.types)
    (hne : type.basePath ≠ "") (hlocale : locale ∈ site.locales) (page : Option String) :
    site.routeOf ⟨archivePath locale type, some (pathParam (archivePath locale type)), page⟩ =
      some (locale, .archive type) := by
  have hknown := hsite.known locale hlocale
  have haddr := hsite.addressable type htype
  exact routeOf_eq.mpr
    ⟨(localeOf_eq (segmentsOf_archivePath hknown hne haddr)).mpr ⟨rfl, hknown, hlocale⟩,
      routeAt_archivePath hsite.registered (locale_slash hknown) htype hne haddr⟩

/-- What one page of an archive reads. -/
def archiveOf (db : Database) (now : Nat) (type : AnyContentType) (locale : String) (page : Nat) :
    Archive := (loadArchive db now type locale page).value

/-- The number of pages of an archive. -/
def pagesOf (db : Database) (now : Nat) (type : AnyContentType) (locale : String) : Nat :=
  pageCount (db.countPublished type.name locale now) PER_PAGE

/-- A page of an archive, as a theme is handed it. -/
def archivePage (site : Site) (now : Nat) (db : Database) (pathname locale : String)
    (type : AnyContentType) (page : Nat) : Response :=
  .archive
    (siteContext site locale pathname (listingHead site pathname)
      (listingTranslations site pathname locale) (feedHrefOf locale type))
    (archiveView site locale type (archiveOf db now type locale page))

/-- What the archive is answered with at a page number that was written out. -/
def archiveAnswer (site : Site) (now : Nat) (db : Database) (pathname locale : String)
    (type : AnyContentType) (page : Nat) : Response :=
  if page ≤ 99999 ∧ page ≤ pagesOf db now type locale then
    archivePage site now db pathname locale type page
  else .notFound (siteContext site locale pathname MISSING_HEAD [] (feedHrefOf locale type))

theorem renderArchive_value : (renderArchive site now db request locale type).value =
    match parsePageNumber request.page with
    | some page =>
      if page ≤ pagesOf db now type locale then
        archivePage site now db request.pathname locale type page
      else missing site request locale (feedHrefOf locale type)
    | none => missing site request locale (feedHrefOf locale type) := by
  unfold renderArchive
  split
  · rename_i hpage
    rw [hpage]
    rfl
  · rename_i page hpage
    rw [hpage]
    show Collected.value (ite _ _ _) = ite _ _ _
    split
    · rename_i hle
      exact (if_pos hle).symm
    · rename_i hle
      exact (if_neg hle).symm

/-- The view of a page of an archive lists its entries and names its neighbours. -/
def viewOf (site : Site) (now : Nat) (db : Database) (locale : String) (type : AnyContentType)
    (page : Nat) : ArchiveView :=
  archiveView site locale type (archiveOf db now type locale page)

theorem one_le_pagesOf : 1 ≤ pagesOf db now type locale := le_max_left _ _

/-- A path that is that of an archive, whatever its slashes. -/
theorem visit_archive (hrequest : requestAt u.pathname = some request)
    (hroute : site.routeOf request = some (locale, .archive type)) :
    site.visit now db u = some (.page
      (renderArchive site now db { request with page := u.get PAGE_PARAM } locale type).value) := by
  rw [visit_respond hrequest, renderPage]
  have hroute' : site.routeOf { request with page := u.get PAGE_PARAM } =
      some (locale, .archive type) := hroute
  rw [hroute']

theorem archiveAnswer_stays {pathname location : String} {page : Nat} :
    archiveAnswer site now db pathname locale type page ≠ .redirect location := by
  unfold archiveAnswer archivePage
  split
  · exact fun h => by cases h
  · exact fun h => by cases h

/-- A link that leads to what is no redirect. -/
theorem follow_of_visit {href : String} {answer : Response} (hu : SiteUrl.ofHref href = some u)
    (hvisit : site.visit now db u = some (.page answer))
    (hstays : ∀ location, answer ≠ .redirect location) (hops : Nat) :
    site.follow now db (hops + 1) href = some (.page answer) := by
  rw [Site.follow, hu, Option.bind_some, hvisit]
  cases answer with
  | redirect location => exact absurd rfl (hstays location)
  | _ => rfl

theorem visit_archive_page {pathname : String} (hu : u.pathname = pathname)
    (hrequest : requestAt pathname = some request)
    (hroute : site.routeOf request = some (locale, .archive type)) {page : Nat}
    (hparse : parsePageNumber (u.get PAGE_PARAM) = if page ≤ 99999 then some page else none) :
    site.visit now db u =
      some (.page (archiveAnswer site now db pathname locale type page)) := by
  subst hu
  rw [visit_archive hrequest hroute, renderArchive_value, hparse, archiveAnswer]
  dsimp only
  rw [requestAt_pathname hrequest]
  by_cases hdigits : page ≤ 99999
  · simp only [hdigits, if_true, true_and]
    rfl
  · simp only [hdigits, if_false, false_and]
    rfl

/-- **A page of an archive** answers up to the last one, if its number can be read. -/
theorem follow_archivePageUrl (hsite : WellAddressed site) (htype : type ∈ site.types)
    (hne : type.basePath ≠ "") (hlocale : locale ∈ site.locales) {page : Nat} (hpage : 1 ≤ page)
    (hops : Nat) : site.follow now db (hops + 1) (archivePageUrl locale type page) =
      some (.page (archiveAnswer site now db (archivePath locale type) locale type page)) := by
  have hknown := hsite.known locale hlocale
  have haddr := hsite.addressable type htype
  have hsegments := segmentsOf_archivePath hknown hne haddr
  have hroot : (archivePath locale type).toList.head? = some '/' := by
    rw [archivePath, if_neg hne, String.append_assoc, String.append_assoc]
    exact head_join _
  have hbare : '?' ∉ (archivePath locale type).toList := by
    rw [archivePath_eq hne]
    refine bare_join (bare_locale hknown) fun segment hs => ?_
    obtain rfl := List.mem_singleton.mp hs
    exact bare_slug (haddr.resolve_left hne)
  have hrequest : requestAt (archivePath locale type) =
      some ⟨archivePath locale type, some (pathParam (archivePath locale type)), none⟩ :=
    (requestAt_iff hsegments (List.cons_ne_nil _ _)).mpr ⟨rfl, fun _ _ h => by simp at h⟩
  have hroute := routeOf_archivePath hsite htype hne hlocale none
  have hvisit : ∀ u : SiteUrl, u.pathname = archivePath locale type →
      parsePageNumber (u.get PAGE_PARAM) = (if page ≤ 99999 then some page else none) →
      site.visit now db u = some (.page
        (archiveAnswer site now db (archivePath locale type) locale type page)) :=
    fun u hu hparse => visit_archive_page hu hrequest hroute hparse
  by_cases hfirst : page ≤ 1
  · have hpage : page = 1 := by omega
    rw [archivePageUrl, if_pos hfirst]
    refine follow_of_visit (ofHref_path hroot hbare) (hvisit _ rfl ?_)
      (fun _ => archiveAnswer_stays) hops
    rw [hpage]
    simp [SiteUrl.get, SiteUrl.getAll, parsePageNumber]
  · rw [archivePageUrl, if_neg hfirst]
    refine follow_of_visit (ofHref_page hroot hbare page) (hvisit _ rfl ?_)
      (fun _ => archiveAnswer_stays) hops
    -- the number that is asked for is the one that was written
    rw [SiteUrl.get, SiteUrl.getAll, List.filter_cons_of_pos (by simp), List.map_cons,
      List.head?_cons, parsePageNumber_toString]
    simp only [hpage, true_and]

end Visits

/-! ## The URLs of documents -/

/-- No public document at the root of a language has a path that another type or another
file takes. -/
def RootsFree (site : Site) (now : Nat) (db : Database) : Prop :=
  ∀ row ∈ db.contents, publiclyVisible now row = true →
    ∀ type, registryGet site.types row.type = some type → type.basePath = "" →
    ∀ path, siblingPath db type row = some path →
      ¬ Shadowed site.types type path ∧ ∀ slug, urlSegments type path ≠ ["preview", slug]

/-- If the document is at the root of its language, no other type and no other file takes
its path. -/
def RootFree (site : Site) (db : Database) (type : AnyContentType) (row : ContentRow) : Prop :=
  type.basePath = "" → ∀ path, siblingPath db type row = some path →
    ¬ Shadowed site.types type path ∧ ∀ slug, urlSegments type path ≠ ["preview", slug]

/-- The link leads to the page of the document. -/
def Opens (site : Site) (now : Nat) (db : Database) (hops : Nat) (href : String) (id : Uuid) :
    Prop :=
  ∃ context view, site.follow now db hops href = some (.page (.document context view)) ∧
    view.id = id

section Documents
variable {site : Site} {now : Nat} {db : Database} {type : AnyContentType} {row : ContentRow}
  {path : List String} {locale pathname : String} {id : Uuid}

theorem head_documentPath : (documentPath locale type path).toList.head? = some '/' := by
  rw [documentPath, String.append_assoc, String.append_assoc, String.append_assoc]
  exact head_join _

theorem bare_documentPath (hlocale : locale ∈ LOCALES) (haddr : Addressable type)
    (h : SlugPath type path) : '?' ∉ (documentPath locale type path).toList := by
  rw [documentPath_eq h.nonempty]
  exact bare_join (bare_locale hlocale) fun segment hs =>
    bare_slug ((addressable_iff h).mpr haddr segment hs)

/-- A link without a query asks `[...path].astro` for its path. -/
theorem follow_respond {request : PageRequest} {answer : Response}
    (hroot : pathname.toList.head? = some '/') (hbare : '?' ∉ pathname.toList)
    (hrequest : requestAt pathname = some request)
    (hanswer : (renderPage site now db request).value = answer)
    (hstays : ∀ location, answer ≠ .redirect location) (hops : Nat) :
    site.follow now db (hops + 1) pathname = some (.page answer) := by
  refine follow_of_visit (ofHref_path hroot hbare) ?_ hstays hops
  have hvisit : ∀ u : SiteUrl, u.pathname = pathname → u.get PAGE_PARAM = none →
      site.visit now db u = some (.page answer) := by
    rintro u rfl hget
    rw [visit_respond hrequest, hget, ← hanswer, requestAt_eq hrequest]
  exact hvisit _ rfl rfl

theorem opens_answered (hroot : pathname.toList.head? = some '/') (hbare : '?' ∉ pathname.toList)
    (h : site.answerAt now db pathname = some id) (hops : Nat) :
    Opens site now db (hops + 1) pathname id := by
  obtain ⟨request, hrequest, hid⟩ := Option.bind_eq_some_iff.mp h
  cases hvalue : (renderPage site now db request).value with
  | document context view =>
    rw [hvalue] at hid
    exact ⟨context, view, follow_respond hroot hbare hrequest hvalue (fun _ h => by cases h) hops,
      Option.some.inj hid⟩
  | redirect _ | notFound _ | archive _ _ =>
    rw [hvalue] at hid
    cases hid

/-- Nothing stands between a document and its URL, where what is at the root of a language
has a path of its own. -/
theorem reachable_public (hsite : WellAddressed site) (hfree : RootFree site db type row)
    (hserved : row.locale ∈ site.locales) (htype : registryGet site.types row.type = some type) :
    Reachable site db type row := by
  have hmem : type ∈ site.types := List.mem_of_find?_eq_some htype
  refine ⟨hsite.known _ hserved, hserved, hsite.addressable type hmem, fun path hpath => ?_⟩
  by_cases hroot : type.basePath = ""
  · exact hfree hroot path hpath
  · refine ⟨fun hshadow => hroot hshadow.1, fun slug heq => hsite.previews type hmem ?_⟩
    rw [urlSegments, if_neg hroot, List.singleton_append] at heq
    exact (List.cons.inj heq).1

/-- **A document's own URL** leads to it. -/
theorem opens_canonical (hinv : ContentsInv db) (hslugs : db.SlugsValid)
    (hsite : WellAddressed site) (hfree : RootFree site db type row)
    (hrow : row ∈ db.contents) (hvisible : publiclyVisible now row = true)
    (hserved : row.locale ∈ site.locales) (htype : registryGet site.types row.type = some type)
    (hpath : siblingPath db type row = some path) (hops : Nat) :
    Opens site now db (hops + 1) (documentPath row.locale type path) row.id := by
  have hmem : type ∈ site.types := List.mem_of_find?_eq_some htype
  have hname : row.type = type.name := (Rows.key_of_find htype).symm
  have hreach := reachable_public hsite hfree hserved htype
  obtain ⟨hslugPath, -⟩ := siblingPath_slugPath hinv hslugs hrow hname hpath
  refine opens_answered head_documentPath
    (bare_documentPath hreach.known hreach.addressable hslugPath) ?_ hops
  refine (answerAt_iff hinv.constraints hsite.registered.names hrow).mpr
    ⟨hvisible, type, htype, ?_, ?_⟩
  · exact (routed_iff hinv hslugs hsite.registered (hsite.defined type hmem) hmem hrow hname).mpr
      hreach
  · rw [canonicalPath, hpath, Option.map_some]

/-- **An entry of an archive** leads to its document, over its own URL where it has one. -/
theorem opens_entry (hinv : ContentsInv db) (hslugs : db.SlugsValid)
    (hsite : WellAddressed site) (hrow : row ∈ db.contents)
    (hvisible : publiclyVisible now row = true) (hserved : row.locale ∈ site.locales)
    (htype : type ∈ site.types) (hname : row.type = type.name) (hne : type.basePath ≠ "")
    (hops : Nat) :
    Opens site now db (hops + 2) (documentPath row.locale type [row.slug]) row.id := by
  have hknown := hsite.known _ hserved
  have haddr := hsite.addressable type htype
  have hget : registryGet site.types row.type = some type := by
    rw [hname]
    exact registryGet_of_mem hsite.registered.names htype
  obtain ⟨path, hpath⟩ :=
    siblingPath_some hinv (Database.content_of_mem hinv.constraints hrow) hname
  have hcanonical := opens_canonical hinv hslugs hsite (fun hroot => absurd hroot hne) hrow
    hvisible hserved hget hpath
  have hslugPath : SlugPath type [row.slug] := by
    refine ⟨List.cons_ne_nil _ _, fun slug hs => ?_, fun _ => rfl⟩
    obtain rfl := List.mem_singleton.mp hs
    exact hslugs row hrow
  have hurl : urlSegments type [row.slug] = [type.basePath, row.slug] := by
    rw [urlSegments, if_neg hne]
    rfl
  have hsegments := segmentsOf_documentPath (isSegment_locale hknown)
    (.inr (isSegment_slug (haddr.resolve_left hne))) hslugPath
  rw [hurl] at hsegments
  have hrequest := (requestAt_iff hsegments (List.cons_ne_nil _ _)).mpr
    ⟨rfl, fun second third heq => by
      simp only [List.cons.injEq, and_true] at heq
      obtain ⟨rfl, rfl⟩ := heq
      refine ⟨hsite.previews type htype, fun hfeed => ?_⟩
      -- no slug has a dot
      have hvalid := hslugs row hrow
      rw [hfeed] at hvalid
      exact absurd hvalid (by decide)⟩
  have hroute : site.routeOf ⟨documentPath row.locale type [row.slug],
      some (pathParam (documentPath row.locale type [row.slug])), none⟩ =
      some (row.locale, .document type row.slug [row.slug]) := by
    refine routeOf_eq.mpr ⟨(localeOf_eq hsegments).mpr ⟨rfl, hknown, hserved⟩, ?_⟩
    rw [routeAt_documentPath (locale_slash hknown) haddr hslugPath, hurl,
      resolveRoute_prefixed hsite.registered htype hne]
    obtain ⟨slug, hlast, hunder⟩ := underType_slugPath hslugPath
    obtain rfl := Option.some.inj hlast
    exact hunder
  have hfound : db.findPublishedBySlug type.name row.locale row.slug now = some row := by
    rw [← hname]
    exact findPublishedBySlug_of_mem hinv.constraints hrow hvisible
  by_cases hurl : documentPath row.locale type path = documentPath row.locale type [row.slug]
  · rw [← hurl]
    exact hcanonical (hops + 1)
  · obtain ⟨context, view, hfollow, hid⟩ := hcanonical hops
    refine ⟨context, view, ?_, hid⟩
    have hvisit : ∀ u : SiteUrl, u.pathname = documentPath row.locale type [row.slug] →
        u.get PAGE_PARAM = none → site.visit now db u =
          some (.page (.redirect (documentPath row.locale type path))) := by
      intro u hu hnone
      rw [← hu] at hrequest
      rw [visit_respond hrequest, hnone, hu, renderPage, hroute]
      dsimp only
      rw [renderDocument_eq hfound hpath, if_neg hurl]
    rw [Site.follow, ofHref_path head_documentPath (bare_documentPath hknown haddr hslugPath),
      Option.bind_some, hvisit _ rfl rfl]
    exact hfollow

end Documents

end PressLabz
