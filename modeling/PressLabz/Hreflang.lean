import PressLabz.PublicAddresses

/-! # The languages a page announces

`documentHead` of `lib/seo.ts` names every public translation of a document, from
its group and the tree above each; which of these URLs answer is decided by the
languages the site serves and by the router.  What is announced answers where every
public translation of a reachable document is reachable too (`hreflang_exact`).
-/
namespace PressLabz

/-- What a page of one document says about itself. -/
def Response.head : Response → Option PageHead
  | .document context _ => some context.head
  | _ => none

def Site.headAt (site : Site) (now : Nat) (db : Database) (pathname : String) :
    Option PageHead :=
  (requestAt pathname).bind fun request => (renderPage site now db request).value.head

/-- The address is that of a public document of the group in the language, and the site
answers with it there. -/
def Announces (site : Site) (now : Nat) (db : Database) (group : Uuid) (locale href : String) :
    Prop :=
  ∃ sibling ∈ db.contents, sibling.translationGroupId = group ∧ sibling.locale = locale ∧
    publiclyVisible now sibling = true ∧
    ∃ type pathname, registryGet site.types sibling.type = some type ∧
      canonicalPath db type sibling = some pathname ∧ href = site.absolute pathname ∧
      site.answerAt now db pathname = some sibling.id

/-- No page announces a URL that is not answered, and no page is announced by one that it
does not announce. -/
structure HreflangExact (site : Site) (now : Nat) (db : Database) : Prop where
  alternates : ∀ row ∈ db.contents, ∀ pathname head,
    site.answerAt now db pathname = some row.id → site.headAt now db pathname = some head →
    ∀ alternate ∈ head.alternates,
      Announces site now db row.translationGroupId alternate.1 alternate.2
  default : ∀ row ∈ db.contents, ∀ pathname head,
    site.answerAt now db pathname = some row.id → site.headAt now db pathname = some head →
    ∀ href ∈ head.defaultHref, Announces site now db row.translationGroupId site.defaultLocale href
  reciprocal : ∀ a ∈ db.contents, ∀ b ∈ db.contents, a.translationGroupId = b.translationGroupId →
    ∀ urlA urlB headA headB,
    site.answerAt now db urlA = some a.id → site.headAt now db urlA = some headA →
    site.answerAt now db urlB = some b.id → site.headAt now db urlB = some headB →
    (site.absolute urlB ∈ headA.alternates.map (·.2) ↔
      site.absolute urlA ∈ headB.alternates.map (·.2))

/-- Every public translation of a public document that is reachable is reachable. -/
def TranslationsReachable (site : Site) (now : Nat) (db : Database) : Prop :=
  ∀ row ∈ db.contents, ∀ sibling ∈ db.contents,
    sibling.translationGroupId = row.translationGroupId →
    publiclyVisible now row = true → publiclyVisible now sibling = true →
    ∀ type, registryGet site.types row.type = some type →
      Reachable site db type row → Reachable site db type sibling

section Heads
variable {site : Site} {now : Nat} {db : Database} {type : AnyContentType} {row : ContentRow}
  {pathname : String} {group : Uuid} {alternate : String × String}

/-- The head of a reachable document is made of its alternates. -/
theorem headAt_eq (hc : db.Constraints) (hnames : (site.types.map AnyContentType.name).Nodup)
    (hrow : row ∈ db.contents) (h : site.answerAt now db pathname = some row.id) :
    ∃ type path, registryGet site.types row.type = some type ∧ type ∈ site.types ∧
      siblingPath db type row = some path ∧ documentPath row.locale type path = pathname ∧
      site.headAt now db pathname = some (documentHead site row.locale type path row.meta
        (siblingsOf db now type row.translationGroupId)) := by
  obtain ⟨request, locale, type, slug, segments, found, path, hrequest, hroute, hfound, hpath,
    hurl, hid⟩ := answerAt_eq_some.mp h
  obtain ⟨hmem, htype, rfl, rfl, -⟩ := findPublishedBySlug_some hfound
  obtain rfl : found = row := List.inj_on_of_nodup_map hc.contents_pkey hmem hrow hid
  have hregistered := routeOf_mem hroute
  refine ⟨type, path, ?_, hregistered, hpath, hurl, ?_⟩
  · rw [htype]
    exact registryGet_of_mem hnames hregistered
  · rw [Site.headAt, hrequest, Option.bind_some, renderPage, hroute]
    dsimp only
    rw [renderDocument_eq hfound hpath, requestAt_pathname hrequest, if_pos hurl]
    rfl

/-- The alternates of a group are its languages, with the URLs of its public documents. -/
theorem mem_alternates : alternate ∈ alternatesOf site type (siblingsOf db now type group) ↔
    ∃ sibling ∈ db.contents, sibling.translationGroupId = group ∧
      publiclyVisible now sibling = true ∧ ∃ url, canonicalPath db type sibling = some url ∧
        alternate = (sibling.locale, site.absolute url) := by
  rw [mem_alternatesOf]
  constructor
  · rintro ⟨sibling, hsibling, path, hpath, rfl⟩
    obtain ⟨row, hrow, rfl⟩ := List.mem_map.mp hsibling
    obtain ⟨hmem, hgroup, hvisible⟩ := mem_translations.mp hrow
    refine ⟨row, hmem, hgroup, hvisible, _, ?_, rfl⟩
    exact congrArg (Option.map (documentPath row.locale type)) hpath
  · rintro ⟨row, hmem, hgroup, hvisible, url, hurl, rfl⟩
    obtain ⟨path, hpath, rfl⟩ := Option.map_eq_some_iff.mp hurl
    exact ⟨⟨row, siblingPath db type row⟩,
      List.mem_map_of_mem (mem_translations.mpr ⟨hmem, hgroup, hvisible⟩), path, hpath, rfl⟩

theorem mem_documentHead {locale : String} {path : List String} {«meta» : Meta}
    {siblings : List Sibling} :
    alternate ∈ (documentHead site locale type path «meta» siblings).alternates ↔
      1 < (alternatesOf site type siblings).length ∧
        alternate ∈ alternatesOf site type siblings := by
  rw [documentHead]
  dsimp only
  split
  · rename_i hmany
    exact (and_iff_right hmany).symm
  · rename_i hone
    exact iff_of_false List.not_mem_nil fun h => hone h.1

theorem defaultHref_mem {locale href : String} {path : List String} {«meta» : Meta}
    {siblings : List Sibling}
    (h : (documentHead site locale type path «meta» siblings).defaultHref = some href) :
    (site.defaultLocale, href) ∈ alternatesOf site type siblings := by
  rw [documentHead] at h
  dsimp only at h
  split at h
  · obtain ⟨alternate, hfound, rfl⟩ := Option.map_eq_some_iff.mp h
    have hlocale : alternate.1 = site.defaultLocale := by simpa using List.find?_some hfound
    rw [← hlocale]
    exact List.mem_of_find?_eq_some hfound
  · cases h

/-- A page announces every other public document of its group. -/
theorem announced (hinv : ContentsInv db) (hnames : (site.types.map AnyContentType.name).Nodup)
    (hrow : row ∈ db.contents) (h : site.answerAt now db pathname = some row.id)
    {head : PageHead} (hhead : site.headAt now db pathname = some head)
    (htype : registryGet site.types row.type = some type) {sibling : ContentRow} {url : String}
    (hs : sibling ∈ db.contents) (hgroup : sibling.translationGroupId = row.translationGroupId)
    (hvisible : publiclyVisible now sibling = true) (hne : sibling ≠ row)
    (hurl : canonicalPath db type sibling = some url) :
    (sibling.locale, site.absolute url) ∈ head.alternates := by
  have hc := hinv.constraints
  obtain ⟨hpublic, type', htype', -, hcanonical⟩ := (answerAt_iff hc hnames hrow).mp h
  obtain rfl := Option.some.inj (htype.symm.trans htype')
  obtain ⟨type', path, htype', -, -, -, hhead'⟩ := headAt_eq hc hnames hrow h
  obtain rfl := Option.some.inj (htype.symm.trans htype')
  obtain rfl := Option.some.inj (hhead'.symm.trans hhead)
  have hself : (row.locale, site.absolute pathname) ∈
      alternatesOf site type (siblingsOf db now type row.translationGroupId) :=
    mem_alternates.mpr ⟨row, hrow, rfl, hpublic, pathname, hcanonical, rfl⟩
  have hother : (sibling.locale, site.absolute url) ∈
      alternatesOf site type (siblingsOf db now type row.translationGroupId) :=
    mem_alternates.mpr ⟨sibling, hs, hgroup, hvisible, url, hurl, rfl⟩
  -- A group has one document of a language, so the two are two alternates.
  refine mem_documentHead.mpr ⟨one_lt_length hself hother fun heq => hne ?_, hother⟩
  exact translation_unique hc hs hrow hgroup (congrArg Prod.fst heq).symm

/-- Two documents of a group announce each other, where both are announced. -/
theorem announced_both (hinv : ContentsInv db)
    (hnames : (site.types.map AnyContentType.name).Nodup) {a b : ContentRow}
    (ha : a ∈ db.contents) (hb : b ∈ db.contents)
    (hgroup : a.translationGroupId = b.translationGroupId) {urlA urlB : String}
    {headA headB : PageHead} (hanswerA : site.answerAt now db urlA = some a.id)
    (hheadA : site.headAt now db urlA = some headA)
    (hanswerB : site.answerAt now db urlB = some b.id)
    (hheadB : site.headAt now db urlB = some headB) :
    site.absolute urlB ∈ headA.alternates.map (·.2) ↔
      site.absolute urlA ∈ headB.alternates.map (·.2) := by
  have hc := hinv.constraints
  obtain ⟨hvisibleA, type, htypeA, -, hurlA⟩ := (answerAt_iff hc hnames ha).mp hanswerA
  obtain ⟨hvisibleB, type', htypeB, -, hurlB⟩ := (answerAt_iff hc hnames hb).mp hanswerB
  rw [← Database.translation_type hc ha hb hgroup] at htypeB
  obtain rfl := Option.some.inj (htypeA.symm.trans htypeB)
  by_cases hsame : a = b
  · subst hsame
    obtain rfl := Option.some.inj (hurlA.symm.trans hurlB)
    rw [Option.some.inj (hheadA.symm.trans hheadB)]
  · have hfirst := announced hinv hnames ha hanswerA hheadA htypeA hb hgroup.symm hvisibleB
      (Ne.symm hsame) hurlB
    rw [Database.translation_type hc ha hb hgroup] at htypeA
    have hsecond := announced hinv hnames hb hanswerB hheadB htypeA ha hgroup hvisibleA hsame hurlA
    exact iff_of_true (List.mem_map_of_mem hfirst) (List.mem_map_of_mem hsecond)

/-- What is announced of a group is answered, where its translations are reachable. -/
theorem announces_of_alternate (hinv : ContentsInv db) (hslugs : db.SlugsValid)
    (hreg : Registered site.types) (hdefined : ∀ type ∈ site.types, Defined type)
    (hall : TranslationsReachable site now db) (hrow : row ∈ db.contents)
    (h : site.answerAt now db pathname = some row.id)
    (htype : registryGet site.types row.type = some type)
    (halternate : alternate ∈ alternatesOf site type
      (siblingsOf db now type row.translationGroupId)) :
    Announces site now db row.translationGroupId alternate.1 alternate.2 := by
  have hc := hinv.constraints
  have hmem : type ∈ site.types := List.mem_of_find?_eq_some htype
  have hname : row.type = type.name := (Rows.key_of_find htype).symm
  obtain ⟨hpublic, type', htype', hrouted, -⟩ := (answerAt_iff hc hreg.names hrow).mp h
  obtain rfl := Option.some.inj (htype.symm.trans htype')
  have hreach :=
    (routed_iff hinv hslugs hreg (hdefined type hmem) hmem hrow hname).mp hrouted
  obtain ⟨sibling, hs, hgroup, hvisible, url, hurl, rfl⟩ := mem_alternates.mp halternate
  have hsame : sibling.type = row.type := Database.translation_type hc hs hrow hgroup
  have htypeS : registryGet site.types sibling.type = some type := hsame ▸ htype
  have hreachS := hall row hrow sibling hs hgroup hpublic hvisible type htype hreach
  have hroutedS := (routed_iff hinv hslugs hreg (hdefined type hmem) hmem hs
    (hsame.trans hname)).mpr hreachS
  exact ⟨sibling, hs, hgroup, rfl, hvisible, type, url, htypeS, hurl, rfl,
    (answerAt_iff hc hreg.names hs).mpr ⟨hvisible, type, htypeS, hroutedS, hurl⟩⟩

/-- **hreflang.**  What the pages of a group announce is answered, and announced back,
exactly where every public translation of a reachable document is reachable. -/
theorem hreflang_exact (hinv : ContentsInv db) (hslugs : db.SlugsValid)
    {types : List AnyContentType} (hdefined : ∀ type ∈ types, Defined type)
    (hregistered : createContentTypeRegistry types = .ok site.types) :
    HreflangExact site now db ↔ TranslationsReachable site now db := by
  obtain ⟨hsame, hreg⟩ := createContentTypeRegistry_ok hregistered
  rw [← hsame] at hdefined
  have hc := hinv.constraints
  constructor
  · intro hexact row hrow sibling hs hgroup hpublic hvisible type htype hreach
    by_cases hself : sibling = row
    · exact hself ▸ hreach
    have hmem : type ∈ site.types := List.mem_of_find?_eq_some htype
    have hname : row.type = type.name := (Rows.key_of_find htype).symm
    have hkind : sibling.type = row.type := Database.translation_type hc hs hrow hgroup
    have hrouted := (routed_iff hinv hslugs hreg (hdefined type hmem) hmem hrow hname).mpr hreach
    obtain ⟨pathname, -, -, hcanonical, -⟩ := id hrouted
    -- the page of the document announces its sibling, and what it announces is answered
    have hanswer := (answerAt_iff hc hreg.names hrow).mpr
      ⟨hpublic, type, htype, hrouted, hcanonical⟩
    obtain ⟨type', path, -, -, -, -, hhead⟩ := headAt_eq hc hreg.names hrow hanswer
    obtain ⟨path', hpath'⟩ :=
      siblingPath_some hinv (Database.content_of_mem hc hs) (hkind.trans hname)
    have hurl : canonicalPath db type sibling = some (documentPath sibling.locale type path') := by
      rw [canonicalPath, hpath', Option.map_some]
    obtain ⟨found, hfound, hfgroup, hflocale, -, -, url, -, -, -, hfanswer⟩ :=
      hexact.alternates row hrow pathname _ hanswer hhead _
        (announced hinv hreg.names hrow hanswer hhead htype hs hgroup hvisible hself hurl)
    -- a group has one document in a language
    obtain rfl := translation_unique hc hfound hs (hfgroup.trans hgroup.symm) hflocale
    obtain ⟨-, type', htype', hroutedS, -⟩ := (answerAt_iff hc hreg.names hfound).mp hfanswer
    rw [hkind] at htype'
    obtain rfl := Option.some.inj (htype.symm.trans htype')
    exact (routed_iff hinv hslugs hreg (hdefined type hmem) hmem hfound
      (hkind.trans hname)).mp hroutedS
  · intro hall
    refine ⟨fun row hrow pathname head hanswer hhead alternate halternate => ?_,
      fun row hrow pathname head hanswer hhead href hhref => ?_,
      fun a ha b hb hgroup urlA urlB headA headB hanswerA hheadA hanswerB hheadB => ?_⟩
    · obtain ⟨type, path, htype, -, -, -, hhead'⟩ := headAt_eq hc hreg.names hrow hanswer
      obtain rfl := Option.some.inj (hhead'.symm.trans hhead)
      exact announces_of_alternate hinv hslugs hreg hdefined hall hrow hanswer htype
        (mem_documentHead.mp halternate).2
    · obtain ⟨type, path, htype, -, -, -, hhead'⟩ := headAt_eq hc hreg.names hrow hanswer
      obtain rfl := Option.some.inj (hhead'.symm.trans hhead)
      exact announces_of_alternate hinv hslugs hreg hdefined hall hrow hanswer htype
        (defaultHref_mem hhref)
    · exact announced_both hinv hreg.names ha hb hgroup hanswerA hheadA hanswerB hheadB

end Heads

/-! ### A page and its translation -/

/-- A public page in two languages. -/
def bilingualPage : Database where
  contents :=
    [⟨(publishedPage "equipe" none).toColumns, 2, "page", "fr", 101, none, 1, 2, 2⟩,
      ⟨(publishedPage "team" none).toColumns, 1, "page", "en", 101, none, 1, 1, 1⟩]
  groups := [⟨101, "page"⟩]
  revisions := []
  contentMedia := []
  «media» := []
  retired := []

theorem bilingualPage_inv : ContentsInv bilingualPage where
  constraints := by decide
  tree id hid := by
    obtain ⟨row, hrow⟩ := Database.parents_ne_none.mp hid
    obtain rfl := Database.id_of_content hrow
    rcases List.mem_pair.mp (Database.mem_of_content hrow) with rfl | rfl
    · exact ⟨_, .root rfl, by decide⟩
    · exact ⟨_, .root rfl, by decide⟩

theorem bilingualPage_slugs : bilingualPage.SlugsValid := by
  intro row hrow
  rcases List.mem_pair.mp hrow with rfl | rfl
  · decide
  · decide

theorem hreflang_exact_served : HreflangExact plainSite 0 bilingualPage := by
  refine (hreflang_exact bilingualPage_inv bilingualPage_slugs
    (builtinContentTypes_defined fun _ => false) rfl).mpr ?_
  intro row hrow sibling hs _ _ _ type htype _
  obtain rfl : pageType (fun _ => false) = type := by
    rcases List.mem_pair.mp hrow with rfl | rfl
    · exact Option.some.inj htype
    · exact Option.some.inj htype
  have hpath : ∀ path, siblingPath bilingualPage (pageType fun _ => false) sibling = some path →
      path = [sibling.slug] ∧ sibling.slug ≠ "blog" := by
    intro path hpath
    rcases List.mem_pair.mp hs with rfl | rfl
    · exact ⟨(Option.some.inj hpath).symm, by decide⟩
    · exact ⟨(Option.some.inj hpath).symm, by decide⟩
  have hlocale : sibling.locale ∈ LOCALES := by
    rcases List.mem_pair.mp hs with rfl | rfl
    · decide
    · decide
  refine ⟨hlocale, hlocale, .inl rfl, fun path h => ?_⟩
  obtain ⟨rfl, hblog⟩ := hpath path h
  refine ⟨?_, fun slug heq => ?_⟩
  · rintro ⟨-, other, hother, hne, hhead⟩
    rcases List.mem_pair.mp hother with rfl | rfl
    · exact hblog (Option.some.inj hhead)
    · exact hne rfl
  · have hlen : 1 = 2 := congrArg List.length heq
    cases hlen

/-- **A language that is no longer served** is still announced: the page in French is
not answered at the URL that the English one names. -/
theorem language_not_served :
    ContentsInv bilingualPage ∧
    ({ plainSite with locales := ["en"] } : Site).answerAt 0 bilingualPage "/en/team" = some 1 ∧
    ({ plainSite with locales := ["en"] } : Site).answerAt 0 bilingualPage "/fr/equipe" = none ∧
    (({ plainSite with locales := ["en"] } : Site).headAt 0 bilingualPage "/en/team").map
        (·.alternates) = some [("en", "http://localhost:4321/en/team"),
      ("fr", "http://localhost:4321/fr/equipe")] ∧
    ¬ HreflangExact { plainSite with locales := ["en"] } 0 bilingualPage := by
  have hanswer : ({ plainSite with locales := ["en"] } : Site).answerAt 0 bilingualPage
      "/en/team" = some 1 := by decide +kernel
  have hnone : ({ plainSite with locales := ["en"] } : Site).answerAt 0 bilingualPage
      "/fr/equipe" = none := by decide +kernel
  have hhead : (({ plainSite with locales := ["en"] } : Site).headAt 0 bilingualPage
      "/en/team").map (·.alternates) = some [("en", "http://localhost:4321/en/team"),
        ("fr", "http://localhost:4321/fr/equipe")] := by decide +kernel
  refine ⟨bilingualPage_inv, hanswer, hnone, hhead, fun hexact => ?_⟩
  obtain ⟨head, hfound, halternates⟩ := Option.map_eq_some_iff.mp hhead
  obtain ⟨sibling, hs, -, hlocale, -, type, pathname, htype, hurl, -, hserved⟩ :=
    hexact.alternates _ (List.mem_cons_of_mem _ List.mem_cons_self) "/en/team" head hanswer hfound
      ("fr", "http://localhost:4321/fr/equipe") (by rw [halternates]; decide)
  rcases List.mem_pair.mp hs with rfl | rfl
  · obtain rfl : "/fr/equipe" = pathname := by
      obtain rfl := Option.some.inj htype
      exact Option.some.inj hurl
    rw [hnone] at hserved
    cases hserved
  · exact absurd hlocale (by decide)

end PressLabz
