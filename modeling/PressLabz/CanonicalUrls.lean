import PressLabz.PublicSite

/-! # Canonical URLs

The site links to a document at `documentPath` and to a type's documents at
`archivePath`, and `resolveRoute` decides from the registry what a URL points at.
This file is about the two agreeing for any registry that `defineContentType` and
`createContentTypeRegistry` accept.

A type at the locale root gives way to the base paths of the others: the more
specific route wins, and a page cannot use such a slug.  A base path is checked
against the pattern of names, which lets through some segments that are no slugs;
what becomes of a type under one of these is left open.
-/
namespace PressLabz

/-! ## The registry -/

/-- `CONTENT_TYPE_NAME_PATTERN`. -/
def isContentTypeName (name : String) : Bool :=
  match name.toList with
  | [] => false
  | first :: rest =>
    'a' ≤ first && first ≤ 'z' && rest.length ≤ 31 &&
      rest.all fun c => isSlugCharacter c || c = '-'

/-- The refusals of `defineContentType`.  The base path is what it is after its
default, the name of the type. -/
def checkContentType (options : ContentTypeOptions) : Except String Unit :=
  if ¬ isContentTypeName options.name then
    .error ("Content type name \"" ++ options.name ++
      "\" must match /^[a-z][a-z0-9-]\x7b0,31\x7d$/")
  else if options.basePath ≠ "" ∧ ¬ isContentTypeName options.basePath then
    .error ("Content type \"" ++ options.name ++ "\" has a base path that is not a path segment")
  else .ok ()

/-- The loop of `createContentTypeRegistry`, over the types that are not registered
yet; `registered` are the others, the last one first. -/
def registerTypes (registered : List AnyContentType) :
    List AnyContentType → Except String (List AnyContentType)
  | [] => .ok registered.reverse
  | type :: rest =>
    if registered.any (·.name = type.name) then
      .error ("Content type \"" ++ type.name ++ "\" is registered twice")
    else
      match registered.find? (·.basePath = type.basePath) with
      | some taken =>
        .error ("Content types \"" ++ taken.name ++ "\" and \"" ++ type.name ++ "\" both claim " ++
          if type.basePath = "" then "the locale root" else "\"/" ++ type.basePath ++ "\"")
      | none => registerTypes (type :: registered) rest

/-- A registry, as `all()` lists it. -/
def createContentTypeRegistry (types : List AnyContentType) :
    Except String (List AnyContentType) := registerTypes [] types

/-- `registry.get`. -/
def registryGet (types : List AnyContentType) (name : String) : Option AnyContentType :=
  types.find? fun type => type.name = name

theorem registryGet_of_mem {types : List AnyContentType}
    (hnames : (types.map AnyContentType.name).Nodup) {type : AnyContentType} (h : type ∈ types) :
    registryGet types type.name = some type :=
  Rows.find_of_mem hnames h

/-- A type that `defineContentType` accepted. -/
def Defined (type : AnyContentType) : Prop :=
  ∃ isSafeHref options, checkContentType options = .ok () ∧
    type = defineContentType isSafeHref options

/-- No two types share a name or a base path. -/
structure Registered (types : List AnyContentType) : Prop where
  names : (types.map AnyContentType.name).Nodup
  basePaths : (types.map AnyContentType.basePath).Nodup

theorem registerTypes_ok {registered types registry : List AnyContentType}
    (h : registerTypes registered types = .ok registry) (hr : Registered registered) :
    registry = registered.reverse ++ types ∧ Registered registry := by
  induction types generalizing registered with
  | nil =>
    cases h
    refine ⟨(List.append_nil _).symm, ?_, ?_⟩
    · rw [List.map_reverse]
      exact List.nodup_reverse.mpr hr.names
    · rw [List.map_reverse]
      exact List.nodup_reverse.mpr hr.basePaths
  | cons type rest ih =>
    rw [registerTypes] at h
    split at h
    · cases h
    · rename_i hname
      split at h
      · cases h
      · rename_i hpath
        have hnames : ((type :: registered).map AnyContentType.name).Nodup := by
          refine List.nodup_cons.mpr ⟨fun hmem => hname ?_, hr.names⟩
          obtain ⟨other, hother, heq⟩ := List.mem_map.mp hmem
          exact List.any_eq_true.mpr ⟨other, hother, decide_eq_true heq⟩
        have hpaths : ((type :: registered).map AnyContentType.basePath).Nodup := by
          refine List.nodup_cons.mpr ⟨fun hmem => ?_, hr.basePaths⟩
          obtain ⟨other, hother, heq⟩ := List.mem_map.mp hmem
          exact absurd (decide_eq_true heq) (List.find?_eq_none.mp hpath other hother)
        obtain ⟨rfl, hregistered⟩ := ih h ⟨hnames, hpaths⟩
        exact ⟨by simp, hregistered⟩

/-- **A registry is the list it was built from**, without two types of a name or of a
base path. -/
theorem createContentTypeRegistry_ok {types registry : List AnyContentType}
    (h : createContentTypeRegistry types = .ok registry) : registry = types ∧ Registered registry :=
  registerTypes_ok h ⟨List.nodup_nil, List.nodup_nil⟩

theorem Defined.basePath {type : AnyContentType} (h : Defined type) :
    type.basePath = "" ∨ isContentTypeName type.basePath = true := by
  obtain ⟨isSafeHref, options, hcheck, rfl⟩ := h
  rw [checkContentType] at hcheck
  split at hcheck
  · cases hcheck
  · split at hcheck
    · cases hcheck
    · rename_i hpath
      simpa [defineContentType, or_iff_not_imp_left] using hpath

/-! ## URLs and their segments -/

/-- `Astro.params.path`: what follows the first segment. -/
def pathParam (pathname : String) : String :=
  String.ofList (((pathname.toList.drop 1).dropWhile (· ≠ '/')).drop 1)

/-- What the site reads of a URL below a language. -/
def routeAt (types : List AnyContentType) (pathname : String) : Option ResolvedRoute :=
  (parseSegments (pathParam pathname)).bind (resolveRoute types)

/-- The segments of a document's URL after its language. -/
def urlSegments (type : AnyContentType) (slugs : List String) : List String :=
  (if type.basePath = "" then [] else [type.basePath]) ++ slugs

/-- A segment of a path. -/
def IsSegment (segment : String) : Prop := segment ≠ "" ∧ '/' ∉ segment.toList

section Segments
variable {locale : String} {segments : List String} {type : AnyContentType}
  {slugs : List String}

theorem isSegment_slug {slug : String} (h : isSlug slug = true) : IsSegment slug := by
  refine ⟨?_, isSlug_slash h⟩
  rintro rfl
  exact absurd h (by decide)

theorem isSegment_name {name : String} (h : isContentTypeName name = true) : IsSegment name := by
  rw [isContentTypeName] at h
  constructor
  · rintro rfl
    exact absurd h (by decide)
  · intro hmem
    split at h
    · rename_i hnil
      rw [hnil] at hmem
      cases hmem
    · rename_i first rest hcons
      simp only [Bool.and_eq_true, List.all_eq_true] at h
      rw [hcons] at hmem
      rcases List.mem_cons.mp hmem with rfl | hmem
      · exact absurd h.1.1.1 (by decide)
      · exact absurd (h.2 '/' hmem) (by decide)

theorem segmentsOf_intercalate (h : ∀ segment ∈ segments, IsSegment segment) :
    segmentsOf ("/".intercalate segments) = segments := by
  rcases segments.eq_nil_or_concat with rfl | hne
  · rfl
  have hne : segments.map String.toList ≠ [] := by
    obtain ⟨init, last, rfl⟩ := hne
    simp
  have hsplit : (['/'].intercalate (segments.map String.toList)).splitOn '/' =
      segments.map String.toList := by
    refine List.splitOn_intercalate '/' (fun cs hcs => ?_) hne
    obtain ⟨segment, hmem, rfl⟩ := List.mem_map.mp hcs
    exact (h segment hmem).2
  have hfull : ((segments.map String.toList).filter (· ≠ [])) = segments.map String.toList := by
    refine List.filter_eq_self.mpr fun cs hcs => ?_
    obtain ⟨segment, hmem, rfl⟩ := List.mem_map.mp hcs
    refine decide_eq_true fun hnil => (h segment hmem).1 ?_
    exact String.toList_inj.mp hnil
  rw [segmentsOf, String.toList_intercalate, show "/".toList = ['/'] from rfl, hsplit, hfull,
    List.map_map]
  exact (List.map_congr_left fun segment _ => String.ofList_toList).trans (List.map_id _)

theorem pathParam_join (hlocale : '/' ∉ locale.toList) (rest : String) :
    pathParam ("/" ++ locale ++ "/" ++ rest) = rest := by
  have hlist : ("/" ++ locale ++ "/" ++ rest).toList =
      '/' :: (locale.toList ++ '/' :: rest.toList) := by
    simp [String.toList_append]
  have hne : ∀ c ∈ locale.toList, c ≠ '/' := by
    rintro c hc rfl
    exact hlocale hc
  have hdrop : (locale.toList ++ '/' :: rest.toList).dropWhile (· ≠ '/') = '/' :: rest.toList := by
    rw [List.dropWhile_append_of_pos fun c hc => decide_eq_true (hne c hc)]
    rfl
  rw [pathParam, hlist, List.drop_succ_cons, List.drop_zero, hdrop, List.drop_succ_cons,
    List.drop_zero, String.ofList_toList]

theorem documentPath_eq (h : slugs ≠ []) : documentPath locale type slugs =
    "/" ++ locale ++ "/" ++ "/".intercalate (urlSegments type slugs) := by
  rw [documentPath, urlSegments]
  split
  · simp
  · obtain ⟨slug, rest, rfl⟩ := List.exists_cons_of_ne_nil h
    simp [String.append_assoc]

theorem archivePath_eq (h : type.basePath ≠ "") : archivePath locale type =
    "/" ++ locale ++ "/" ++ "/".intercalate [type.basePath] := by
  rw [archivePath, if_neg h, String.intercalate_singleton]

/-- A URL whose segments are slugs is read as what its segments name. -/
theorem routeAt_segments {types : List AnyContentType} (hlocale : '/' ∉ locale.toList)
    (h : ∀ segment ∈ segments, isSlug segment = true) :
    routeAt types ("/" ++ locale ++ "/" ++ "/".intercalate segments) =
      resolveRoute types segments := by
  have hsegments := segmentsOf_intercalate fun segment hs => isSegment_slug (h segment hs)
  rw [routeAt, pathParam_join hlocale, parseSegments, hsegments,
    if_pos (List.all_eq_true.mpr h), Option.bind_some]

end Segments

/-! ## Routing -/

section Routing
variable {types : List AnyContentType} {type : AnyContentType} {first : String}
  {rest : List String}

/-- A first segment that is the base path of a type decides for that type. -/
theorem resolveRoute_prefixed (hreg : Registered types) (htype : type ∈ types)
    (hpath : type.basePath ≠ "") : resolveRoute types (type.basePath :: rest) =
      underType type rest := by
  have hfind : (types.find? fun other => other.basePath ≠ "" && other.basePath = type.basePath) =
      some type := by
    have hpred : (fun other : AnyContentType =>
        decide (other.basePath ≠ "") && decide (other.basePath = type.basePath)) =
        fun other => decide (other.basePath = type.basePath) := by
      funext other
      by_cases heq : other.basePath = type.basePath
      · simp [heq, hpath]
      · simp [heq]
    rw [hpred]
    exact Rows.find_of_mem hreg.basePaths htype
  simp only [resolveRoute, hfind]

/-- A first segment that is no base path leaves the URL to the type at the root. -/
theorem resolveRoute_root (hreg : Registered types) (htype : type ∈ types)
    (hroot : type.basePath = "")
    (hfirst : ∀ other ∈ types, other.basePath ≠ "" → other.basePath ≠ first) :
    resolveRoute types (first :: rest) = underType type (first :: rest) := by
  have hnone : (types.find? fun other => other.basePath ≠ "" && other.basePath = first) = none := by
    refine List.find?_eq_none.mpr fun other hother h => ?_
    simp only [Bool.and_eq_true, decide_eq_true_iff] at h
    exact hfirst other hother h.1 h.2
  have hfind : (types.find? fun other => other.basePath = "") = some type := by
    have := Rows.find_of_mem hreg.basePaths htype
    rw [hroot] at this
    exact this
  simp only [resolveRoute, hnone, hfind]

theorem underType_type {path : List String} {route : ResolvedRoute}
    (h : underType type path = some route) : route.type = type := by
  rw [underType] at h
  split at h
  · split at h
    · cases h
    · cases h
      rfl
  · split at h
    · cases h
    · cases h
      rfl

end Routing

/-! ## Reachability -/

/-- The slugs of a document's URL: valid ones, and one for a type that does not nest. -/
structure SlugPath (type : AnyContentType) (slugs : List String) : Prop where
  nonempty : slugs ≠ []
  valid : ∀ slug ∈ slugs, isSlug slug = true
  flat : type.hierarchical = false → slugs.length = 1

/-- The URL of these slugs leads back to them. -/
def RoundTrips (types : List AnyContentType) (locale : String) (type : AnyContentType)
    (slugs : List String) : Prop :=
  ∃ slug, slugs.getLast? = some slug ∧
    routeAt types (documentPath locale type slugs) = some (.document type slug slugs)

/-- A path at the locale root whose first slug is the base path of another type. -/
def Shadowed (types : List AnyContentType) (type : AnyContentType) (slugs : List String) : Prop :=
  type.basePath = "" ∧
    ∃ other ∈ types, other.basePath ≠ "" ∧ slugs.head? = some other.basePath

/-- A type whose documents have URLs of slugs. -/
def Addressable (type : AnyContentType) : Prop :=
  type.basePath = "" ∨ isSlug type.basePath = true

section Reachability
variable {types : List AnyContentType} {locale : String} {type : AnyContentType}
  {slugs : List String}

/-- A type takes the paths that its slugs may form. -/
theorem underType_slugPath (h : SlugPath type slugs) :
    ∃ slug, slugs.getLast? = some slug ∧
      underType type slugs = some (.document type slug slugs) := by
  obtain ⟨slug, hlast⟩ : ∃ slug, slugs.getLast? = some slug :=
    ⟨_, List.getLast?_eq_some_getLast h.nonempty⟩
  refine ⟨slug, hlast, ?_⟩
  have hdepth : (!type.hierarchical && decide (1 < slugs.length)) = false := by
    cases hh : type.hierarchical with
    | true => rfl
    | false => simp [h.flat hh]
  rw [underType, hlast]
  simp only [hdepth, Bool.false_eq_true, if_false]

theorem routeAt_documentPath (hlocale : '/' ∉ locale.toList) (haddr : Addressable type)
    (h : SlugPath type slugs) : routeAt types (documentPath locale type slugs) =
      resolveRoute types (urlSegments type slugs) := by
  rw [documentPath_eq h.nonempty]
  refine routeAt_segments hlocale fun segment hs => ?_
  rw [urlSegments] at hs
  rcases List.mem_append.mp hs with hs | hs
  · split at hs
    · cases hs
    · rename_i hne
      obtain rfl := List.mem_singleton.mp hs
      exact haddr.resolve_left hne
  · exact h.valid segment hs

/-- **A document is reachable at its URL** unless the type at the root gives way. -/
theorem roundTrips_iff (hreg : Registered types) (hlocale : '/' ∉ locale.toList)
    (htype : type ∈ types) (haddr : Addressable type) (h : SlugPath type slugs) :
    RoundTrips types locale type slugs ↔ ¬ Shadowed types type slugs := by
  obtain ⟨slug, hlast, hunder⟩ := underType_slugPath h
  rw [RoundTrips, routeAt_documentPath hlocale haddr h, urlSegments]
  by_cases hroot : type.basePath = ""
  · rw [if_pos hroot, List.nil_append]
    obtain ⟨first, rest, rfl⟩ := List.exists_cons_of_ne_nil h.nonempty
    constructor
    · rintro ⟨slug', -, hroute⟩ ⟨-, other, hother, hne, hhead⟩
      obtain rfl : first = other.basePath := Option.some.inj hhead
      rw [resolveRoute_prefixed hreg hother hne] at hroute
      have hsame : type = other := underType_type hroute
      exact hne (hsame ▸ hroot)
    · intro hshadow
      refine ⟨slug, hlast, ?_⟩
      rw [resolveRoute_root hreg htype hroot fun other hother hne heq =>
        hshadow ⟨hroot, other, hother, hne, congrArg some heq.symm⟩]
      exact hunder
  · rw [if_neg hroot]
    refine iff_of_true ⟨slug, hlast, ?_⟩ fun hshadow => hroot hshadow.1
    rw [List.singleton_append, resolveRoute_prefixed hreg htype hroot]
    exact hunder

/-- Where the type at the root gives way, its URL is read as one of the more specific type. -/
theorem routeAt_shadowed (hreg : Registered types) (hlocale : '/' ∉ locale.toList)
    (hroot : type.basePath = "") {other : AnyContentType} (hother : other ∈ types)
    (hne : other.basePath ≠ "") {rest : List String} (h : SlugPath type (other.basePath :: rest)) :
    routeAt types (documentPath locale type (other.basePath :: rest)) = underType other rest := by
  rw [routeAt_documentPath hlocale (.inl hroot) h, urlSegments, if_pos hroot, List.nil_append,
    resolveRoute_prefixed hreg hother hne]

theorem routeAt_archivePath (hreg : Registered types) (hlocale : '/' ∉ locale.toList)
    (htype : type ∈ types) (hne : type.basePath ≠ "") (haddr : Addressable type) :
    routeAt types (archivePath locale type) = some (.archive type) := by
  rw [archivePath_eq hne, routeAt_segments hlocale fun segment hs => ?_,
    resolveRoute_prefixed hreg htype hne, underType]
  · simp [hne]
  · obtain rfl := List.mem_singleton.mp hs
    exact haddr.resolve_left hne

/-- A URL is made of segments. -/
theorem isSegment_urlSegments (hbase : type.basePath = "" ∨ IsSegment type.basePath)
    (h : SlugPath type slugs) : ∀ segment ∈ urlSegments type slugs, IsSegment segment := by
  intro segment hs
  rw [urlSegments] at hs
  rcases List.mem_append.mp hs with hs | hs
  · split at hs
    · cases hs
    · rename_i hne
      obtain rfl := List.mem_singleton.mp hs
      exact hbase.resolve_left hne
  · exact isSegment_slug (h.valid segment hs)

/-- **Two documents never share a URL**, where neither path is shadowed. -/
theorem documentPath_injective (hreg : Registered types)
    (hsegments : ∀ type ∈ types, type.basePath = "" ∨ IsSegment type.basePath)
    (hlocale : '/' ∉ locale.toList) {type' : AnyContentType} {slugs' : List String}
    (htype : type ∈ types) (htype' : type' ∈ types) (h : SlugPath type slugs)
    (h' : SlugPath type' slugs') (hshadow : ¬ Shadowed types type slugs)
    (hshadow' : ¬ Shadowed types type' slugs')
    (heq : documentPath locale type slugs = documentPath locale type' slugs') :
    type = type' ∧ slugs = slugs' := by
  have hread : ∀ type ∈ types, ∀ slugs, SlugPath type slugs →
      segmentsOf (pathParam (documentPath locale type slugs)) = urlSegments type slugs := by
    intro type htype slugs h
    rw [documentPath_eq h.nonempty, pathParam_join hlocale,
      segmentsOf_intercalate (isSegment_urlSegments (hsegments type htype) h)]
  have hsame : urlSegments type slugs = urlSegments type' slugs' := by
    rw [← hread type htype slugs h, heq, hread type' htype' slugs' h']
  have hpaths : ∀ {a b : AnyContentType}, a ∈ types → b ∈ types → a.basePath = b.basePath →
      a = b := fun ha hb hab => List.inj_on_of_nodup_map hreg.basePaths ha hb hab
  rw [urlSegments, urlSegments] at hsame
  by_cases hroot : type.basePath = ""
  · by_cases hroot' : type'.basePath = ""
    · rw [if_pos hroot, if_pos hroot'] at hsame
      exact ⟨hpaths htype htype' (hroot.trans hroot'.symm), hsame⟩
    · rw [if_pos hroot, if_neg hroot', List.nil_append, List.singleton_append] at hsame
      exact absurd ⟨hroot, type', htype', hroot', by rw [hsame]; rfl⟩ hshadow
  · by_cases hroot' : type'.basePath = ""
    · rw [if_neg hroot, if_pos hroot', List.nil_append, List.singleton_append] at hsame
      exact absurd ⟨hroot', type, htype, hroot, by rw [← hsame]; rfl⟩ hshadow'
    · rw [if_neg hroot, if_neg hroot', List.singleton_append, List.singleton_append] at hsame
      obtain ⟨hpath, hslugs⟩ := List.cons.inj hsame
      exact ⟨hpaths htype htype' hpath, hslugs⟩

end Reachability

/-- What the URLs of a registry are good for. -/
structure CanonicalUrls (types : List AnyContentType) (locale : String) : Prop where
  document : ∀ type ∈ types, ∀ slugs, Addressable type → SlugPath type slugs →
    (RoundTrips types locale type slugs ↔ ¬ Shadowed types type slugs)
  /-- The more specific route wins: a shadowed path is read as one of the other type. -/
  shadowed : ∀ type ∈ types, ∀ other ∈ types, ∀ rest, type.basePath = "" →
    other.basePath ≠ "" → SlugPath type (other.basePath :: rest) →
    routeAt types (documentPath locale type (other.basePath :: rest)) = underType other rest
  archive : ∀ type ∈ types, type.basePath ≠ "" → Addressable type →
    routeAt types (archivePath locale type) = some (.archive type)
  injective : ∀ type ∈ types, ∀ type' ∈ types, ∀ slugs slugs', SlugPath type slugs →
    SlugPath type' slugs' → ¬ Shadowed types type slugs → ¬ Shadowed types type' slugs' →
    documentPath locale type slugs = documentPath locale type' slugs' →
    type = type' ∧ slugs = slugs'

theorem locale_slash {locale : String} (h : locale ∈ LOCALES) : '/' ∉ locale.toList := by
  rcases List.mem_pair.mp h with rfl | rfl
  · decide
  · decide

/-- **Canonical URLs.**  Every document and archive of a registry is read back from
its URL, where the base path is a slug and no other type is more specific. -/
theorem canonical_urls {types registry : List AnyContentType} {locale : String}
    (hdefined : ∀ type ∈ types, Defined type)
    (hregistered : createContentTypeRegistry types = .ok registry) (hlocale : locale ∈ LOCALES) :
    CanonicalUrls registry locale := by
  obtain ⟨rfl, hreg⟩ := createContentTypeRegistry_ok hregistered
  have hslash := locale_slash hlocale
  refine ⟨fun type htype slugs haddr h => roundTrips_iff hreg hslash htype haddr h,
    fun type _ other hother rest hroot hne h => routeAt_shadowed hreg hslash hroot hother hne h,
    fun type htype hne haddr => routeAt_archivePath hreg hslash htype hne haddr,
    fun type htype type' htype' slugs slugs' h h' hshadow hshadow' heq =>
      documentPath_injective hreg (fun type htype => ?_) hslash htype htype' h h' hshadow hshadow'
        heq⟩
  exact (hdefined type htype).basePath.imp_right isSegment_name

/-! ### The types PressLabz ships with -/

theorem builtinContentTypes_defined (isSafeHref : String → Bool) :
    ∀ type ∈ builtinContentTypes isSafeHref, Defined type := by
  intro type htype
  rcases List.mem_pair.mp htype with rfl | rfl
  · exact ⟨isSafeHref, _, by decide, rfl⟩
  · exact ⟨isSafeHref, _, by decide, rfl⟩

theorem canonical_urls_builtin :
    CanonicalUrls (builtinContentTypes fun _ => false) "en" :=
  canonical_urls (builtinContentTypes_defined _) rfl (by decide)

/-- **A page called "blog" is not reachable**: its URL is the archive of the posts.
And a page under it shares the URL of a post. -/
theorem page_called_blog :
    SlugPath (pageType fun _ => false) ["blog"] ∧
    ¬ RoundTrips (builtinContentTypes fun _ => false) "en" (pageType fun _ => false) ["blog"] ∧
    documentPath "en" (pageType fun _ => false) ["blog", "news"] =
      documentPath "en" (postType fun _ => false) ["news"] := by
  refine ⟨⟨by decide, by decide, by decide⟩, ?_, rfl⟩
  rintro ⟨slug, -, hroute⟩
  have harchive : routeAt (builtinContentTypes fun _ => false)
      (documentPath "en" (pageType fun _ => false) ["blog"]) =
      some (.archive (postType fun _ => false)) := rfl
  rw [harchive] at hroute
  cases hroute

end PressLabz
