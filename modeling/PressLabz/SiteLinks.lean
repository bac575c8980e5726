import PressLabz.LinkTargets

/-! # The links of the site

Every page links to others: the navigation, the way home, the other languages, the feed,
the entries of an archive and its neighbours.  Every link of every page but the previews,
the root and `/404` leads to a page that is there, redirects included (`links_lead`): where
the types of the site are at URLs of their own (`WellAddressed`), no document at the root of
a language has the path of something else (`RootsFree`), and no archive has more pages than
page numbers are read for (`FewListed`).
-/
namespace PressLabz

/-! ## The same path in another language -/

section Languages
variable {first tail : List Char} {path locale : String}

/-- What stands after the first segment: nothing, or a slash and the rest. -/
def IsTail (tail : List Char) : Prop := tail = [] ∨ ∃ rest, tail = '/' :: rest

theorem segmentsOf_first (hne : first ≠ []) (hslash : '/' ∉ first) (htail : IsTail tail) :
    segmentsOf (String.ofList ('/' :: (first ++ tail))) =
      String.ofList first :: ((tail.splitOn '/').filter (· ≠ [])).map String.ofList := by
  have hsplit : ('/' :: (first ++ tail)).splitOn '/' = [] :: (first ++ tail).splitOn '/' := by
    simp [List.splitOn_cons_eq_if_modifyHead]
  rw [segmentsOf, String.toList_ofList, hsplit]
  rcases htail with rfl | ⟨rest, rfl⟩
  · rw [List.append_nil, List.splitOn_eq_singleton hslash]
    simp [hne]
  · rw [List.splitOn_append_cons_self_of_not_mem hslash, List.splitOn_cons_eq_if_modifyHead]
    simp [hne]

theorem pathParam_first (hslash : '/' ∉ first) (htail : IsTail tail) :
    pathParam (String.ofList ('/' :: (first ++ tail))) = String.ofList (tail.drop 1) := by
  have hne : ∀ c ∈ first, decide (c ≠ '/') = true := fun c hc =>
    decide_eq_true fun heq => hslash (heq ▸ hc)
  have hdrop : tail.dropWhile (· ≠ '/') = tail := by
    rcases htail with rfl | ⟨rest, rfl⟩
    · rfl
    · rfl
  rw [pathParam, String.toList_ofList, List.drop_succ_cons, List.drop_zero,
    List.dropWhile_append_of_pos hne, hdrop]

/-- **The path in another language** is the path itself where it begins with two slashes,
and otherwise the path with another first segment. -/
theorem replaceFirstSegment_cases (hroot : path.toList.head? = some '/') :
    replaceFirstSegment path locale = path ∨
      ∃ first tail, first ≠ [] ∧ '/' ∉ first ∧ IsTail tail ∧
        path = String.ofList ('/' :: (first ++ tail)) ∧
        replaceFirstSegment path locale = String.ofList ('/' :: (locale.toList ++ tail)) := by
  obtain ⟨rest, hpath⟩ := List.head?_eq_some_iff.mp hroot
  have htake : rest.takeWhile (· ≠ '/') ++ rest.dropWhile (· ≠ '/') = rest :=
    List.takeWhile_append_dropWhile
  have hreplace : replaceFirstSegment path locale =
      if rest.takeWhile (· ≠ '/') = [] then path
      else "/" ++ locale ++ String.ofList (rest.dropWhile (· ≠ '/')) := by
    unfold replaceFirstSegment
    rw [hpath]
    rfl
  rw [hreplace]
  split
  · exact .inl rfl
  · rename_i hne
    refine .inr ⟨rest.takeWhile (· ≠ '/'), rest.dropWhile (· ≠ '/'), hne, fun hmem => ?_,
      ?_, ?_, ?_⟩
    · simpa using List.mem_takeWhile_imp hmem
    · cases hdrop : rest.dropWhile (· ≠ '/') with
      | nil => exact .inl rfl
      | cons c after =>
        have hc := List.head?_dropWhile_not (fun c => decide (c ≠ '/')) rest
        rw [hdrop] at hc
        simp only [List.head?_cons, ne_eq, decide_not, Bool.not_eq_eq_eq_not, Bool.not_false,
          decide_eq_true_eq] at hc
        exact .inr ⟨after, by rw [hc]⟩
    · rw [htake, ← hpath, String.ofList_toList]
    · apply String.toList_inj.mp
      simp [String.toList_append]

theorem bare_ofList (hlocale : locale ∈ LOCALES)
    (h : '?' ∉ (String.ofList ('/' :: (first ++ tail))).toList) :
    (String.ofList ('/' :: (locale.toList ++ tail))).toList.head? = some '/' ∧
      '?' ∉ (String.ofList ('/' :: (locale.toList ++ tail))).toList := by
  rw [String.toList_ofList] at h ⊢
  simp only [List.mem_cons, List.mem_append, not_or] at h ⊢
  exact ⟨rfl, h.1, bare_locale hlocale, h.2.2⟩

end Languages

/-! ## Links that lead somewhere -/

/-- The link leads to a page that is there. -/
def Leads (site : Site) (now : Nat) (db : Database) (href : String) : Prop :=
  ∃ target, site.follow now db 2 href = some target ∧ target.status = 200

section Leading
variable {site : Site} {now : Nat} {db : Database} {type : AnyContentType}
  {path locale href : String}

theorem Opens.leads {id : Uuid} (h : Opens site now db 2 href id) : Leads site now db href := by
  obtain ⟨context, view, hfollow, -⟩ := h
  exact ⟨_, hfollow, rfl⟩

/-- The home page of a language lists the first type with a base path. -/
theorem primaryType_some (hprimary : ∃ type ∈ site.types, type.basePath ≠ "") :
    ∃ type ∈ site.types, type.basePath ≠ "" ∧ primaryType site.types = some type := by
  obtain ⟨type, htype, hne⟩ := hprimary
  have hsome : (primaryType site.types).isSome = true :=
    List.find?_isSome.mpr ⟨type, htype, decide_eq_true hne⟩
  obtain ⟨found, hfound⟩ := Option.isSome_iff_exists.mp hsome
  exact ⟨found, List.mem_of_find?_eq_some hfound, by simpa using List.find?_some hfound, hfound⟩

theorem renderHome_some (hlocale : site.localeOf path = some locale)
    (htype : primaryType site.types = some type) : (renderHome site now db path).value =
      .home
        (siteContext site locale path (listingHead site path)
          (listingTranslations site path locale) (some (archivePath locale type ++ "/feed.xml")))
        { viewOf site now db locale type 1 with
          title := site.translate locale "web.home.latest" } := by
  unfold renderHome
  simp only [hlocale, htype]
  rfl

theorem renderHome_none (hsite : WellAddressed site) (hlocale : site.localeOf path = none) :
    (renderHome site now db path).value = .page
      (.notFound (siteContext site site.defaultLocale path MISSING_HEAD [] none)) := by
  obtain ⟨type, -, -, htype⟩ := primaryType_some hsite.primary
  unfold renderHome
  simp only [hlocale, htype]
  rfl

theorem static_locale (h : locale ∈ LOCALES) : locale ∉ STATIC_PAGES := by
  rcases List.mem_pair.mp h with rfl | rfl
  · decide
  · decide

/-- A language alone leads to its home page. -/
theorem follow_home (hprimary : ∃ type ∈ site.types, type.basePath ≠ "")
    (hroot : path.toList.head? = some '/') (hbare : '?' ∉ path.toList)
    (hsegments : segmentsOf path = [locale]) (hknown : locale ∈ LOCALES)
    (hlocale : locale ∈ site.locales) (hops : Nat) :
    ∃ context view, site.follow now db (hops + 1) path = some (.home context view) ∧
      context.locale = locale := by
  obtain ⟨type, -, -, htype⟩ := primaryType_some hprimary
  have hvisit : ∀ u : SiteUrl, u.pathname = path →
      site.visit now db u = some (renderHome site now db path).value := by
    rintro u rfl
    unfold Site.visit
    rw [hsegments]
    simp only [static_locale hknown, if_false]
  have hhome := @renderHome_some site now db type path locale
    ((localeOf_eq hsegments).mpr ⟨rfl, hknown, hlocale⟩) htype
  have hfollow : site.follow now db (hops + 1) path =
      some (renderHome site now db path).value := by
    rw [Site.follow, ofHref_path hroot hbare, Option.bind_some, hvisit _ rfl, hhome]
  rw [hhome] at hfollow
  exact ⟨_, _, hfollow, rfl⟩

theorem leads_home (hsite : WellAddressed site) (hroot : path.toList.head? = some '/')
    (hbare : '?' ∉ path.toList) (hsegments : segmentsOf path = [locale])
    (hlocale : locale ∈ site.locales) : Leads site now db path := by
  obtain ⟨context, view, hfollow, -⟩ := follow_home hsite.primary hroot hbare hsegments
    (hsite.known locale hlocale) hlocale 1
  exact ⟨_, hfollow, rfl⟩

theorem follow_homePath (hprimary : ∃ type ∈ site.types, type.basePath ≠ "")
    (hknown : locale ∈ LOCALES) (hlocale : locale ∈ site.locales) (hops : Nat) :
    ∃ context view, site.follow now db (hops + 1) (homePath locale) = some (.home context view) ∧
      context.locale = locale := by
  have hbare : '?' ∉ (homePath locale).toList := by
    have hlist : (homePath locale).toList = '/' :: locale.toList := by
      rw [homePath, String.toList_append]
      rfl
    rw [hlist, List.mem_cons, not_or]
    exact ⟨by decide, bare_locale hknown⟩
  have hsegments : segmentsOf (homePath locale) = [locale] := by
    have hjoin : "/".intercalate [locale] = locale := String.intercalate_singleton
    have hsingle := @segmentsOf_intercalate [locale] fun segment hs => by
      obtain rfl := List.mem_singleton.mp hs
      exact isSegment_locale hknown
    rw [homePath, segmentsOf_slash, ← hsingle, hjoin]
  exact follow_home hprimary (head_join _) hbare hsegments hknown hlocale hops

theorem leads_homePath (hsite : WellAddressed site) (hlocale : locale ∈ site.locales) :
    Leads site now db (homePath locale) := by
  obtain ⟨context, view, hfollow, -⟩ :=
    follow_homePath hsite.primary (hsite.known locale hlocale) hlocale 1
  exact ⟨_, hfollow, rfl⟩

/-- The first page of an archive is always there. -/
theorem leads_archive {request : PageRequest} (hroot : path.toList.head? = some '/')
    (hbare : '?' ∉ path.toList) (hrequest : requestAt path = some request)
    (hroute : site.routeOf request = some (locale, .archive type)) : Leads site now db path := by
  have hparse : parsePageNumber none = if 1 ≤ 99999 then some 1 else none := rfl
  have hthere : 1 ≤ 99999 ∧ 1 ≤ pagesOf db now type locale := ⟨by decide, one_le_pagesOf⟩
  refine ⟨_, follow_of_visit (ofHref_path hroot hbare)
    (visit_archive_page rfl hrequest hroute hparse) (fun _ => archiveAnswer_stays) 1, ?_⟩
  rw [archiveAnswer, if_pos hthere]
  rfl

/-- A page of an archive that is short enough is there. -/
theorem leads_page (hsite : WellAddressed site) (htype : type ∈ site.types)
    (hne : type.basePath ≠ "") (hlocale : locale ∈ site.locales) {page : Nat} (hpage : 1 ≤ page)
    (hthere : page ≤ 99999 ∧ page ≤ pagesOf db now type locale) :
    Leads site now db (archivePageUrl locale type page) := by
  refine ⟨_, follow_archivePageUrl hsite htype hne hlocale hpage 1, ?_⟩
  rw [archiveAnswer, if_pos hthere]
  rfl

theorem leads_archivePath (hsite : WellAddressed site) (htype : type ∈ site.types)
    (hne : type.basePath ≠ "") (hlocale : locale ∈ site.locales) :
    Leads site now db (archivePath locale type) := by
  have hfirst : archivePageUrl locale type 1 = archivePath locale type := if_pos (le_refl 1)
  rw [← hfirst]
  exact leads_page hsite htype hne hlocale (le_refl 1) ⟨by decide, one_le_pagesOf⟩

/-- The feed of an archive is there. -/
theorem leads_feed (hsite : WellAddressed site) (htype : type ∈ site.types)
    (hne : type.basePath ≠ "") (hlocale : locale ∈ site.locales) :
    Leads site now db (archivePath locale type ++ "/feed.xml") := by
  have hknown := hsite.known locale hlocale
  have hslug := (hsite.addressable type htype).resolve_left hne
  have hpath : archivePath locale type ++ "/feed.xml" =
      "/" ++ locale ++ "/" ++ "/".intercalate [type.basePath, "feed.xml"] := by
    rw [archivePath, if_neg hne, String.intercalate_cons_cons, String.intercalate_singleton]
    simp [String.append_assoc]
  have hroot : (archivePath locale type ++ "/feed.xml").toList.head? = some '/' := by
    rw [hpath, String.append_assoc, String.append_assoc]
    exact head_join _
  have hbare : '?' ∉ (archivePath locale type ++ "/feed.xml").toList := by
    rw [hpath]
    refine bare_join (bare_locale hknown) fun segment hs => ?_
    rcases List.mem_pair.mp hs with rfl | rfl
    · exact bare_slug hslug
    · decide
  have hsegments : segmentsOf (archivePath locale type ++ "/feed.xml") =
      [locale, type.basePath, "feed.xml"] := by
    rw [hpath]
    refine segmentsOf_locale (isSegment_locale hknown) (List.cons_ne_nil _ _) fun segment hs => ?_
    rcases List.mem_pair.mp hs with rfl | rfl
    · exact isSegment_slug hslug
    · exact ⟨by decide, by decide⟩
  have hfind : (site.types.find? fun candidate => candidate.basePath = type.basePath) = some type :=
    Rows.find_of_mem hsite.registered.basePaths htype
  have hfeed : ∃ found, renderFeed site now db locale type.basePath = .feed found := by
    unfold renderFeed
    rw [if_neg (not_not.mpr ⟨hknown, hlocale, hne⟩), hfind]
    dsimp only
    rw [if_neg hne]
    exact ⟨_, rfl⟩
  obtain ⟨found, hfound⟩ := hfeed
  have hvisit : ∀ u : SiteUrl, u.pathname = archivePath locale type ++ "/feed.xml" →
      site.visit now db u = some (.feed found) := by
    intro u hu
    unfold Site.visit
    rw [hu, hsegments]
    simp only [hsite.previews type htype, if_false, if_true, hfound]
  refine ⟨.feed found, ?_, rfl⟩
  rw [Site.follow, ofHref_path hroot hbare, Option.bind_some, hvisit _ rfl]

/-- The links from an archive to itself in the other languages lead to pages that are there. -/
theorem leads_listing {request : PageRequest} (hsite : WellAddressed site)
    (hroot : path.toList.head? = some '/') (hbare : '?' ∉ path.toList)
    (hrequest : requestAt path = some request)
    (hroute : site.routeOf request = some (locale, .archive type)) {link : TranslationLink}
    (hlink : link ∈ listingTranslations site path locale) : Leads site now db link.href := by
  obtain ⟨other, hother, rfl⟩ := List.mem_map.mp hlink
  have hserved := (List.mem_filter.mp hother).1
  have hknown := hsite.known other hserved
  show Leads site now db (replaceFirstSegment path other)
  rcases @replaceFirstSegment_cases _ other hroot with
    hsame | ⟨first, tail, hne, hslash, htail, rfl, hnew⟩
  · rw [hsame]
    exact leads_archive hroot hbare hrequest hroute
  · obtain rfl := requestAt_eq hrequest
    obtain ⟨-, hat⟩ := routeOf_eq.mp hroute
    have hsegment : other.toList ≠ [] := fun hnil =>
      (isSegment_locale hknown).1 (String.toList_inj.mp hnil)
    have hsegments := segmentsOf_first hne hslash htail
    have hsegments' := segmentsOf_first hsegment (locale_slash hknown) htail
    rw [String.ofList_toList] at hsegments'
    have hparam := pathParam_first hslash htail
    have hparam' := pathParam_first (locale_slash hknown) htail
    have hrest : ((tail.splitOn '/').filter (· ≠ [])).map String.ofList ≠ [] := by
      intro hnil
      rw [hnil] at hsegments
      unfold requestAt at hrequest
      rw [hsegments] at hrequest
      cases hrequest
    obtain ⟨-, hfiles⟩ := (requestAt_iff hsegments hrest).mp hrequest
    have hat' : routeAt site.types (String.ofList ('/' :: (other.toList ++ tail))) =
        some (.archive type) := by
      rw [routeAt, hparam', ← hparam]
      exact hat
    obtain ⟨hroot', hbare'⟩ := bare_ofList hknown hbare
    rw [hnew]
    exact leads_archive hroot' hbare' ((requestAt_iff hsegments' hrest).mpr ⟨rfl, hfiles⟩)
      (routeOf_eq.mpr ⟨(localeOf_eq hsegments').mpr ⟨rfl, hknown, hserved⟩, hat'⟩)

/-- The links from a home page to itself in the other languages lead to pages that are there. -/
theorem leads_homes (hsite : WellAddressed site) (hroot : path.toList.head? = some '/')
    (hbare : '?' ∉ path.toList) (hsegments : segmentsOf path = [locale])
    (hlocale : locale ∈ site.locales) {link : TranslationLink}
    (hlink : link ∈ listingTranslations site path locale) : Leads site now db link.href := by
  obtain ⟨other, hother, rfl⟩ := List.mem_map.mp hlink
  have hserved := (List.mem_filter.mp hother).1
  have hknown := hsite.known other hserved
  show Leads site now db (replaceFirstSegment path other)
  rcases @replaceFirstSegment_cases _ other hroot with
    hsame | ⟨first, tail, hne, hslash, htail, rfl, hnew⟩
  · rw [hsame]
    exact leads_home hsite hroot hbare hsegments hlocale
  · have hsegment : other.toList ≠ [] := fun hnil =>
      (isSegment_locale hknown).1 (String.toList_inj.mp hnil)
    have hsegments' := segmentsOf_first hsegment (locale_slash hknown) htail
    rw [segmentsOf_first hne hslash htail] at hsegments
    rw [(List.cons.inj hsegments).2, String.ofList_toList] at hsegments'
    obtain ⟨hroot', hbare'⟩ := bare_ofList hknown hbare
    rw [hnew]
    exact leads_home hsite hroot' hbare' hsegments' hserved

/-- The links from a document to its languages lead to pages that are there, those to the
home page among them. -/
theorem leads_translations (hinv : ContentsInv db) (hslugs : db.SlugsValid)
    (hsite : WellAddressed site) (hfree : RootsFree site now db) {row : ContentRow}
    (hrow : row ∈ db.contents) (htype : registryGet site.types row.type = some type)
    {link : TranslationLink} (hlink : link ∈ translationLinks site
      (siblingsOf db now type row.translationGroupId) type locale) :
    Leads site now db link.href := by
  obtain ⟨other, hother, rfl⟩ := List.mem_map.mp hlink
  have hserved := (List.mem_filter.mp hother).1
  have hknown := hsite.known other hserved
  split
  · rename_i sibling hfind
    have hmem := List.mem_of_find?_eq_some hfind
    rw [List.mem_reverse, List.mem_filter] at hmem
    obtain ⟨hmem, htranslated⟩ := hmem
    simp only [Bool.and_eq_true] at htranslated
    obtain ⟨found, hfound, rfl⟩ := List.mem_map.mp hmem
    obtain ⟨hcontents, hgroup, hvisible⟩ := mem_translations.mp hfound
    obtain rfl : found.locale = other := by simpa using List.find?_some hfind
    obtain ⟨path, hpath⟩ := Option.isSome_iff_exists.mp htranslated.1
    have hpath : siblingPath db type found = some path := hpath
    have hkind : found.type = row.type :=
      Database.translation_type hinv.constraints hcontents hrow hgroup
    have hget : registryGet site.types found.type = some type := hkind ▸ htype
    have hopens := opens_canonical hinv hslugs hsite (hfree found hcontents hvisible type hget)
      hcontents hvisible hserved hget hpath 1
    show Leads site now db
      (documentPath found.locale type ((siblingPath db type found).getD []))
    rw [hpath]
    exact hopens.leads
  · exact leads_homePath hsite hserved
/-! ## What surrounds a page -/

/-- The links around a page lead somewhere where those to its languages and its feed do. -/
theorem leads_context (hsite : WellAddressed site) (hlocale : locale ∈ site.locales)
    {head : PageHead} {translations : List TranslationLink} {feedHref : Option String}
    (htranslations : ∀ link ∈ translations, Leads site now db link.href)
    (hfeed : ∀ feed ∈ feedHref, Leads site now db feed) :
    ∀ href ∈ (siteContext site locale path head translations feedHref).links,
      Leads site now db href := by
  intro href hhref
  rcases List.mem_cons.mp hhref with rfl | hhref
  · exact leads_homePath hsite hlocale
  rcases List.mem_append.mp hhref with hhref | hhref
  · rcases List.mem_append.mp hhref with hhref | hhref
    · obtain ⟨nav, hnav, rfl⟩ := List.mem_map.mp hhref
      obtain ⟨type, htype, rfl⟩ := List.mem_map.mp hnav
      obtain ⟨hmem, hne⟩ := List.mem_filter.mp htype
      exact leads_archivePath hsite hmem (by simpa using hne) hlocale
    · obtain ⟨link, hlink, rfl⟩ := List.mem_map.mp hhref
      exact htranslations link hlink
  · exact hfeed href (Option.mem_toList.mp hhref)

theorem leads_feedHref (hsite : WellAddressed site) (htype : type ∈ site.types)
    (hlocale : locale ∈ site.locales) :
    ∀ feed ∈ feedHrefOf locale type, Leads site now db feed := by
  intro feed hfeed
  unfold feedHrefOf at hfeed
  split at hfeed
  · cases hfeed
  · rename_i hne
    obtain rfl := Option.some.inj hfeed
    exact leads_feed hsite htype hne hlocale

/-- A 404 leads back to the site. -/
theorem leads_missing (hsite : WellAddressed site) (hlocale : locale ∈ site.locales)
    {feedHref : Option String} (hfeed : ∀ feed ∈ feedHref, Leads site now db feed) :
    ∀ href ∈ (Response.notFound (siteContext site locale path MISSING_HEAD [] feedHref)).links,
      Leads site now db href :=
  leads_context hsite hlocale (fun _ h => absurd h List.not_mem_nil) hfeed

/-- The entries of an archive lead to documents, and its neighbours are there. -/
theorem leads_view (hinv : ContentsInv db) (hslugs : db.SlugsValid)
    (hsite : WellAddressed site) (htype : type ∈ site.types) (hne : type.basePath ≠ "")
    (hlocale : locale ∈ site.locales)
    (hfew : db.countPublished type.name locale now ≤ 99999 * PER_PAGE) {page : Nat}
    (hpage : page ≤ pagesOf db now type locale) :
    ∀ href ∈ (viewOf site now db locale type page).links, Leads site now db href := by
  have hpages : pagesOf db now type locale ≤ 99999 := by
    rw [PER_PAGE] at hfew
    rw [pagesOf, pageCount, PER_PAGE]
    omega
  intro href hhref
  rcases List.mem_append.mp hhref with hhref | hhref
  · rcases List.mem_append.mp hhref with hhref | hhref
    · obtain ⟨entry, hentry, rfl⟩ := List.mem_map.mp hhref
      obtain ⟨row, hrow, rfl⟩ := List.mem_map.mp hentry
      have hlisted := List.mem_of_mem_drop (List.mem_of_mem_take hrow)
      rw [List.mem_insertionSort] at hlisted
      obtain ⟨hmem, hlisted⟩ := List.mem_filter.mp hlisted
      obtain ⟨hname, rfl, hvisible⟩ := isListed_iff.mp hlisted
      exact (opens_entry hinv hslugs hsite hmem hvisible hlocale htype hname hne 0).leads
    · have hnewer : (if 1 < page then some (archivePageUrl locale type (page - 1)) else none) =
          some href := Option.mem_toList.mp hhref
      split at hnewer
      · obtain rfl := Option.some.inj hnewer
        exact leads_page hsite htype hne hlocale (by omega) (by omega)
      · cases hnewer
  · have holder : (if page < pagesOf db now type locale then
        some (archivePageUrl locale type (page + 1)) else none) = some href :=
      Option.mem_toList.mp hhref
    split at holder
    · obtain rfl := Option.some.inj holder
      exact leads_page hsite htype hne hlocale (by omega) (by omega)
    · cases holder

end Leading

/-! ## Every link of every page -/

/-- The archives have no more pages than page numbers can be read for. -/
def FewListed (site : Site) (now : Nat) (db : Database) : Prop :=
  ∀ type ∈ site.types, ∀ locale ∈ site.locales,
    db.countPublished type.name locale now ≤ 99999 * PER_PAGE

section Pages
variable {site : Site} {now : Nat} {db : Database} {type : AnyContentType} {u : SiteUrl}
  {request : PageRequest} {locale slug : String} {route : ResolvedRoute} {segments : List String}

theorem routeOf_locale (h : site.routeOf request = some (locale, route)) :
    site.localeOf request.pathname = some locale := by
  unfold Site.routeOf at h
  obtain ⟨found, hfound, h⟩ := Option.bind_eq_some_iff.mp h
  obtain ⟨segments, -, h⟩ := Option.bind_eq_some_iff.mp h
  obtain ⟨route', -, h⟩ := Option.bind_eq_some_iff.mp h
  obtain ⟨rfl, -⟩ := Prod.mk.inj (Option.some.inj h)
  exact hfound

theorem underType_archive {path : List String} {found : AnyContentType}
    (h : underType type path = some (.archive found)) : found.basePath ≠ "" := by
  unfold underType at h
  split at h
  · split at h
    · cases h
    · rename_i hne
      obtain rfl := ResolvedRoute.archive.inj (Option.some.inj h)
      exact hne
  · split at h
    · cases h
    · cases h

/-- Only a type with a segment of its own has an archive. -/
theorem routeOf_archive (h : site.routeOf request = some (locale, .archive type)) :
    type.basePath ≠ "" := by
  unfold Site.routeOf at h
  obtain ⟨found, -, h⟩ := Option.bind_eq_some_iff.mp h
  obtain ⟨segments, -, h⟩ := Option.bind_eq_some_iff.mp h
  obtain ⟨route', hroute, h⟩ := Option.bind_eq_some_iff.mp h
  obtain ⟨-, rfl⟩ := Prod.mk.inj (Option.some.inj h)
  unfold resolveRoute at hroute
  split at hroute
  · cases hroute
  · split at hroute
    · exact underType_archive hroute
    · split at hroute
      · exact underType_archive hroute
      · cases hroute

/-- The language of a page, whatever was asked. -/
theorem locale_served (hsite : WellAddressed site) (path : String) :
    (site.localeOf path).getD site.defaultLocale ∈ site.locales := by
  cases hlocale : site.localeOf path with
  | none => exact hsite.default
  | some locale => exact (localeOf_some hlocale).2

variable (hinv : ContentsInv db) (hslugs : db.SlugsValid) (hsite : WellAddressed site)
  (hfree : RootsFree site now db)

include hinv hslugs hsite hfree in
/-- The links of what a document's URL is answered with lead to pages that are there. -/
theorem leads_document
    (hroute : site.routeOf request = some (locale, .document type slug segments)) :
    ∀ href ∈ (renderDocument site now db request locale type slug).value.links,
      Leads site now db href := by
  have hserved := (localeOf_some (routeOf_locale hroute)).2
  have hmem : type ∈ site.types := routeOf_mem hroute
  have hfeed : ∀ feed ∈ feedHrefOf locale type, Leads site now db feed :=
      leads_feedHref hsite hmem hserved
  cases hfound : db.findPublishedBySlug type.name locale slug now with
  | none =>
    unfold renderDocument
    rw [loadDocument_none hfound]
    exact leads_missing hsite hserved hfeed
  | some row =>
    obtain ⟨hrow, hname, rfl, -, hvisible⟩ := findPublishedBySlug_some hfound
    have hget : registryGet site.types row.type = some type := by
      rw [hname]
      exact registryGet_of_mem hsite.registered.names hmem
    obtain ⟨path, hpath⟩ :=
      siblingPath_some hinv (Database.content_of_mem hinv.constraints hrow) hname
    have hopens := opens_canonical hinv hslugs hsite (hfree row hrow hvisible type hget) hrow
      hvisible hserved hget hpath 1
    rw [renderDocument_eq hfound hpath]
    split
    · intro href hhref
      rcases List.mem_cons.mp hhref with rfl | hhref
      · exact hopens.leads
      · exact leads_context hsite hserved
          (fun link hlink => leads_translations hinv hslugs hsite hfree hrow hget hlink) hfeed href
          hhref
    · intro href hhref
      obtain rfl := List.mem_singleton.mp hhref
      exact hopens.leads

include hinv hslugs hsite hfree in
/-- The links of what a URL under a language is answered with lead to pages that are there. -/
theorem leads_response (hfew : FewListed site now db)
    (hrequest : requestAt u.pathname = some request) (page : Option String) :
    ∀ href ∈ (renderPage site now db { request with page := page }).value.links,
      Leads site now db href := by
  have hpath := requestAt_pathname hrequest
  rw [renderPage]
  split
  · exact leads_missing hsite (locale_served hsite _) fun _ h => by cases h
  · rename_i locale type hroute
    have hserved := (localeOf_some (routeOf_locale hroute)).2
    have hmem : type ∈ site.types := routeOf_mem hroute
    have hne := routeOf_archive hroute
    have hfeed : ∀ feed ∈ feedHrefOf locale type, Leads site now db feed :=
      leads_feedHref hsite hmem hserved
    rw [renderArchive_value]
    split
    · split
      · rename_i number _ hthere
        intro href hhref
        rcases List.mem_append.mp hhref with hhref | hhref
        · refine leads_context hsite hserved (fun link hlink => ?_) hfeed href hhref
          rw [hpath] at hlink
          exact leads_listing hsite u.rooted u.bare hrequest hroute hlink
        · exact leads_view hinv hslugs hsite hmem hne hserved (hfew _ hmem _ hserved) hthere
            href hhref
      · exact leads_missing hsite hserved hfeed
    · exact leads_missing hsite hserved hfeed
  · rename_i locale type slug path hroute
    exact leads_document hinv hslugs hsite hfree hroute

theorem pathOf_absolute (path : String) : Site.pathOf site (site.absolute path) = some path := by
  have hlist : (site.absolute path).toList = site.origin.toList ++ path.toList := by
    rw [Site.absolute, String.toList_append]
  have hprefix : site.origin.toList.isPrefixOf (site.origin.toList ++ path.toList) = true :=
    List.isPrefixOf_iff_prefix.mpr (List.prefix_append _ _)
  rw [Site.pathOf, hlist, if_pos hprefix, List.drop_left, String.ofList_toList]

include hinv hslugs hsite in
/-- The links of a feed lead to pages that are there. -/
theorem leads_feedLinks (base : String) :
    ∀ href ∈ (renderFeed site now db locale base).links site, Leads site now db href := by
  unfold renderFeed
  split
  · exact fun _ h => absurd h List.not_mem_nil
  · rename_i hknown
    obtain ⟨-, hlocale, -⟩ := not_not.mp hknown
    split
    · exact fun _ h => absurd h List.not_mem_nil
    · rename_i type hfind
      have hmem := List.mem_of_find?_eq_some hfind
      split
      · exact fun _ h => absurd h List.not_mem_nil
      · rename_i hne
        intro href hhref
        obtain ⟨absolute, habsolute, hpath⟩ := List.mem_filterMap.mp hhref
        rcases List.mem_cons.mp habsolute with rfl | habsolute
        · obtain rfl := Option.some.inj ((pathOf_absolute _).symm.trans hpath)
          exact leads_homePath hsite hlocale
        rcases List.mem_cons.mp habsolute with rfl | habsolute
        · obtain rfl := Option.some.inj ((pathOf_absolute _).symm.trans hpath)
          exact leads_feed hsite hmem hne hlocale
        · obtain ⟨entry, hentry, rfl⟩ := List.mem_map.mp habsolute
          obtain ⟨row, hrow, rfl⟩ := List.mem_map.mp hentry
          obtain rfl := Option.some.inj ((pathOf_absolute _).symm.trans hpath)
          have hlisted := List.mem_of_mem_drop (List.mem_of_mem_take hrow)
          rw [List.mem_insertionSort] at hlisted
          obtain ⟨hmem', hlisted⟩ := List.mem_filter.mp hlisted
          obtain ⟨hname, rfl, hvisible⟩ := isListed_iff.mp hlisted
          exact (opens_entry hinv hslugs hsite hmem' hvisible hlocale hmem hname hne 0).leads

include hinv hslugs hsite in
/-- The links of a home page, and of the 404 where there is none, lead to pages that are there. -/
theorem leads_homeLinks (hfew : FewListed site now db) {first : String}
    (hsegments : segmentsOf u.pathname = [first]) :
    ∀ href ∈ (renderHome site now db u.pathname).value.links site, Leads site now db href := by
  obtain ⟨type, hmem, hne, htype⟩ := primaryType_some hsite.primary
  cases hlocale : site.localeOf u.pathname with
  | none =>
    rw [renderHome_none hsite hlocale]
    exact leads_missing hsite hsite.default fun _ h => by cases h
  | some locale =>
    have hserved := (localeOf_some hlocale).2
    obtain ⟨rfl, -⟩ := (localeOf_eq hsegments).mp hlocale
    rw [renderHome_some hlocale htype]
    intro href hhref
    rcases List.mem_append.mp hhref with hhref | hhref
    · refine leads_context hsite hserved
        (fun link hlink => leads_homes hsite u.rooted u.bare hsegments hserved hlink)
        (fun feed hfeed => ?_) href hhref
      obtain rfl := Option.some.inj hfeed
      exact leads_feed hsite hmem hne hserved
    · exact leads_view hinv hslugs hsite hmem hne hserved (hfew _ hmem _ hserved)
        one_le_pagesOf href hhref

/-- **Every link leads somewhere.**  Whatever page, home page, archive or feed a URL of the
site is answered with, or redirect, or 404: each of its links leads to a page that is there,
over one redirect at most.  The root, `/404` and the previews are no such URLs
(`Site.visit`): a draft's own address, which its preview holds, leads nowhere yet. -/
theorem links_lead (hinv : ContentsInv db) (hslugs : db.SlugsValid) (hsite : WellAddressed site)
    (hfree : RootsFree site now db) (hfew : FewListed site now db) {answer : Visit}
    (h : site.visit now db u = some answer) :
    ∀ href ∈ answer.links site, Leads site now db href := by
  have hrespond : (site.respond now db u).map Visit.page = some answer →
      ∀ href ∈ answer.links site, Leads site now db href := by
    intro h
    obtain ⟨response, hresponse, rfl⟩ := Option.map_eq_some_iff.mp h
    obtain ⟨request, hrequest, rfl⟩ := Option.map_eq_some_iff.mp hresponse
    exact leads_response hinv hslugs hsite hfree hfew hrequest _
  unfold Site.visit at h
  split at h
  · cases h
  · rename_i hsegments
    split at h
    · cases h
    · obtain rfl := Option.some.inj h
      exact leads_homeLinks hinv hslugs hsite hfew hsegments
  · split at h
    · cases h
    · split at h
      · obtain rfl := Option.some.inj h
        exact leads_feedLinks hinv hslugs hsite _
      · exact hrespond h
  · exact hrespond h

end Pages

/-! ### A post and its translation -/

theorem wellAddressed_plainSite : WellAddressed plainSite where
  defined := builtinContentTypes_defined _
  registered := (createContentTypeRegistry_ok
    (rfl : createContentTypeRegistry (builtinContentTypes fun _ => false) = .ok _)).2
  addressable type htype := by
    rcases List.mem_pair.mp htype with rfl | rfl
    · exact .inr (by decide)
    · exact .inl rfl
  previews type htype := by
    rcases List.mem_pair.mp htype with rfl | rfl
    · decide
    · decide
  primary := ⟨postType fun _ => false, by simp [plainSite, builtinContentTypes], by decide⟩
  known locale hlocale := hlocale
  default := by decide

/-- A public post, and its translation. -/
def twoPosts : Database where
  contents :=
    [⟨(publishedPage "news" none).toColumns, 1, "post", "en", 101, none, 1, 1, 1⟩,
      ⟨(publishedPage "nouvelles" none).toColumns, 2, "post", "fr", 101, none, 1, 2, 2⟩]
  groups := [⟨101, "post"⟩]
  revisions := []
  contentMedia := []
  «media» := []
  retired := []

theorem twoPosts_inv : ContentsInv twoPosts where
  constraints := by decide
  tree id hid := by
    obtain ⟨row, hrow⟩ := Database.parents_ne_none.mp hid
    obtain rfl := Database.id_of_content hrow
    rcases List.mem_pair.mp (Database.mem_of_content hrow) with rfl | rfl
    · exact ⟨_, .root rfl, by decide⟩
    · exact ⟨_, .root rfl, by decide⟩

theorem twoPosts_slugs : twoPosts.SlugsValid := by
  intro row hrow
  rcases List.mem_pair.mp hrow with rfl | rfl
  · decide
  · decide

theorem twoPosts_rootsFree : RootsFree plainSite 0 twoPosts := by
  intro row hrow _ type htype hroot
  rcases List.mem_pair.mp hrow with rfl | rfl
  · obtain rfl := Option.some.inj htype
    exact absurd hroot (by decide)
  · obtain rfl := Option.some.inj htype
    exact absurd hroot (by decide)

theorem links_lead_posts : ∃ answer, plainSite.visit 0 twoPosts
      ⟨"/en/blog/news", [], rfl, by decide⟩ = some answer ∧
    "/fr/blog/nouvelles" ∈ answer.links plainSite ∧
    ∀ href ∈ answer.links plainSite, Leads plainSite 0 twoPosts href := by
  have heval : (plainSite.visit 0 twoPosts ⟨"/en/blog/news", [], rfl, by decide⟩).any
      (fun answer => "/fr/blog/nouvelles" ∈ answer.links plainSite) = true := by decide +kernel
  obtain ⟨answer, hanswer, hlink⟩ := (Option.any_eq_true _ _).mp heval
  refine ⟨answer, hanswer, of_decide_eq_true hlink, ?_⟩
  refine links_lead twoPosts_inv twoPosts_slugs wellAddressed_plainSite twoPosts_rootsFree ?_ hanswer
  intro type _ locale _
  exact (List.length_filter_le _ _).trans (by decide)

end PressLabz
