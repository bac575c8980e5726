import PressLabz.PageCache
import PressLabz.PublicAddresses
import PressLabz.Words

/-! # The key of a request

`cacheKeyFor` of `packages/cache/src/astro/runtime.ts`: the path of a URL and its
query parameters, sorted by name, with their decoded names and values joined by
the characters that separate them.

A decoded name or value may hold those characters itself, so a key can be read as
that of another request.  `soleRequest_iff` says of which requests it cannot: those
with one parameter at most, and no equals sign in it.  Between requests whose names
and values hold no separators there is no confusion (`cacheKeyFor_plain`).
-/
namespace PressLabz
open PageCache

/-- A URL of the site, as the provider sees it; `params` is what
`searchParams.entries()` yields, decoded and in order. -/
structure SiteUrl where
  pathname : String
  params : List (String × String)
  rooted : pathname.toList.head? = some '/'
  /-- The query is no part of the path. -/
  bare : '?' ∉ pathname.toList

/-- `searchParams.getAll(name)`. -/
def SiteUrl.getAll (u : SiteUrl) (name : String) : List String :=
  (u.params.filter (·.1 = name)).map (·.2)

/-- `searchParams.get(name)`. -/
def SiteUrl.get (u : SiteUrl) (name : String) : Option String := (u.getAll name).head?

/-- One parameter as it stands in the key. -/
def paramText (param : String × String) : String := param.1 ++ "=" ++ param.2

/-- The sorted parameters.  `localeLe a b` is `a.localeCompare(b) <= 0`; the sort is
stable. -/
def SiteUrl.search (localeLe : String → String → Bool) (u : SiteUrl) : String :=
  let params := u.params.mergeSort fun a b => localeLe a.1 b.1
  "&".intercalate (params.map paramText)

/-- The key an entry is stored under. -/
def cacheKeyFor (localeLe : String → String → Bool) (u : SiteUrl) : String :=
  let search := u.search localeLe
  if search = "" then u.pathname else u.pathname ++ "?" ++ search

def PAGE_PARAM : String := "page"

/-- What the site answers a URL with.  Of the query only the page number is read, and
only by this file. -/
def Site.respond (site : Site) (now : Nat) (db : Database) (u : SiteUrl) : Option Response :=
  (requestAt u.pathname).map fun request =>
    (renderPage site now db { request with page := u.get PAGE_PARAM }).value

/-- Two requests have the same path, and for every name the same values in the same order. -/
structure SameRequest (u v : SiteUrl) : Prop where
  pathname : u.pathname = v.pathname
  values : ∀ name, u.getAll name = v.getAll name

/-- Whoever shares the entry of a request asks for the same, and is answered the same. -/
def SoleRequest (localeLe : String → String → Bool) (u : SiteUrl) : Prop :=
  ∀ v : SiteUrl, cacheKeyFor localeLe v = cacheKeyFor localeLe u →
    SameRequest v u ∧
      ∀ (site : Site) (now : Nat) (db : Database), site.respond now db v = site.respond now db u

variable {localeLe : String → String → Bool} {u v : SiteUrl}

/-- Two requests that are the same have the same answer. -/
theorem SameRequest.respond (h : SameRequest v u) (site : Site) (now : Nat) (db : Database) :
    site.respond now db v = site.respond now db u := by
  rw [Site.respond, Site.respond, h.pathname, SiteUrl.get, SiteUrl.get, h.values]

/-! ## Reading a key -/

theorem paramText_toList (param : String × String) :
    (paramText param).toList = param.1.toList ++ '=' :: param.2.toList := by
  simp [paramText]

/-- The query of a key is made of the characters of its parameters. -/
theorem search_toList (u : SiteUrl) : (u.search localeLe).toList =
    ['&'].intercalate ((u.params.mergeSort fun a b => localeLe a.1 b.1).map fun param =>
      (paramText param).toList) := by
  simp [SiteUrl.search, String.toList_intercalate, Function.comp_def]

/-- A parameter is never empty. -/
theorem search_eq_empty : u.search localeLe = "" ↔ u.params = [] := by
  rw [← String.toList_inj, search_toList]
  constructor
  · intro h
    have hnil : u.params.mergeSort (fun a b => localeLe a.1 b.1) = [] := by
      cases hsorted : u.params.mergeSort (fun a b => localeLe a.1 b.1) with
      | nil => rfl
      | cons param rest =>
        rw [hsorted, List.map_cons, paramText_toList] at h
        cases rest <;> simp [List.intercalate] at h
    exact (hnil ▸ List.mergeSort_perm u.params _).nil_eq.symm
  · intro h
    simp [h]

/-- The key of a request with a query, character by character. -/
theorem cacheKeyFor_toList (h : u.params ≠ []) : (cacheKeyFor localeLe u).toList =
    u.pathname.toList ++ '?' :: (u.search localeLe).toList := by
  rw [cacheKeyFor, if_neg fun hs => h (search_eq_empty.mp hs)]
  simp

theorem cacheKeyFor_nil (h : u.params = []) : cacheKeyFor localeLe u = u.pathname := by
  rw [cacheKeyFor, if_pos (search_eq_empty.mpr h)]

/-- **A key is a path and a query**: the first question mark is where the path ends. -/
theorem cacheKeyFor_eq_iff : cacheKeyFor localeLe v = cacheKeyFor localeLe u ↔
    v.pathname = u.pathname ∧ v.search localeLe = u.search localeLe := by
  refine ⟨fun h => ?_, fun h => by rw [cacheKeyFor, cacheKeyFor, h.1, h.2]⟩
  by_cases hv : v.params = []
  · by_cases hu : u.params = []
    · rw [cacheKeyFor_nil hv, cacheKeyFor_nil hu] at h
      exact ⟨h, (search_eq_empty.mpr hv).trans (search_eq_empty.mpr hu).symm⟩
    · have hmark := congrArg String.toList h
      rw [cacheKeyFor_nil hv, cacheKeyFor_toList hu] at hmark
      exact absurd (hmark ▸ List.mem_append_right _ List.mem_cons_self) v.bare
  · by_cases hu : u.params = []
    · have hmark := congrArg String.toList h
      rw [cacheKeyFor_nil hu, cacheKeyFor_toList hv] at hmark
      exact absurd (hmark ▸ List.mem_append_right _ List.mem_cons_self) u.bare
    · have hchars := congrArg String.toList h
      rw [cacheKeyFor_toList hv, cacheKeyFor_toList hu] at hchars
      obtain ⟨hpath, hsearch⟩ := Words.split_unique v.bare u.bare hchars
      exact ⟨String.toList_inj.mp hpath, String.toList_inj.mp hsearch⟩

/-! ## How a query can be read -/

theorem search_singleton {n w : String} (h : u.params = [(n, w)]) :
    (u.search localeLe).toList = n.toList ++ '=' :: w.toList := by
  rw [search_toList, h, List.mergeSort_singleton, List.map_singleton,
    List.intercalate_singleton, paramText_toList]

/-- What every part has, the whole has as often as there are parts. -/
theorem length_le_count_intercalate {α : Type} [DecidableEq α] (sep : List α) {c : α}
    {ls : List (List α)} (h : ∀ l ∈ ls, c ∈ l) : ls.length ≤ (sep.intercalate ls).count c := by
  induction ls with
  | nil => exact Nat.zero_le _
  | cons l rest ih =>
    have hl : 0 < l.count c := List.count_pos_iff.mpr (h l List.mem_cons_self)
    have ih := ih fun l' hl' => h l' (List.mem_cons_of_mem _ hl')
    cases rest with
    | nil =>
      rw [List.intercalate_singleton]
      exact hl
    | cons l' rest =>
      rw [List.intercalate_cons_cons, List.count_append, List.count_append, List.length_cons]
      omega

/-- A query has as many equals signs as parameters, or more. -/
theorem length_le_count (localeLe : String → String → Bool) (u : SiteUrl) :
    u.params.length ≤ (u.search localeLe).toList.count '=' := by
  rw [search_toList]
  refine Nat.le_trans ?_ (length_le_count_intercalate _ fun l hl => ?_)
  · rw [List.length_map, List.length_mergeSort]
  · obtain ⟨param, -, rfl⟩ := List.mem_map.mp hl
    rw [paramText_toList]
    simp

theorem count_singleton {n w : String} (h : u.params = [(n, w)]) :
    (u.search localeLe).toList.count '=' = n.toList.count '=' + w.toList.count '=' + 1 := by
  rw [search_singleton h, List.count_append, List.count_cons_self]
  omega

/-- A request that asks for one parameter only, read off a query. -/
def SiteUrl.withParam (u : SiteUrl) (n w : String) : SiteUrl := { u with params := [(n, w)] }

/-- **Every equals sign of a query can be the one** between a name and its value. -/
theorem cacheKeyFor_withParam {a b : List Char}
    (h : (u.search localeLe).toList = a ++ '=' :: b) :
    cacheKeyFor localeLe (u.withParam (String.ofList a) (String.ofList b)) =
      cacheKeyFor localeLe u := by
  refine cacheKeyFor_eq_iff.mpr ⟨rfl, String.toList_inj.mp ?_⟩
  rw [search_singleton (u := u.withParam _ _) rfl, h, String.toList_ofList, String.toList_ofList]

theorem getAll_withParam (u : SiteUrl) (n w name : String) :
    (u.withParam n w).getAll name = if n = name then [w] else [] := by
  by_cases hn : n = name
  · simp [SiteUrl.getAll, SiteUrl.withParam, hn]
  · simp [SiteUrl.getAll, SiteUrl.withParam, hn]

/-- A request that is the same as one with one parameter has that parameter only. -/
theorem params_of_withParam {n w : String} (h : SameRequest (u.withParam n w) u) :
    u.params = [(n, w)] := by
  have hnames : ∀ param ∈ u.params, param.1 = n := by
    intro param hmem
    by_contra hne
    have hempty : u.getAll param.1 = [] := by
      rw [← h.values, getAll_withParam, if_neg (Ne.symm hne)]
    have hmem' : param.2 ∈ u.getAll param.1 :=
      List.mem_map.mpr ⟨param, List.mem_filter.mpr ⟨hmem, by simp⟩, rfl⟩
    rw [hempty] at hmem'
    cases hmem'
  have hvalues := h.values n
  rw [getAll_withParam, if_pos rfl, SiteUrl.getAll, List.filter_eq_self.mpr fun param hmem =>
    decide_eq_true (hnames param hmem)] at hvalues
  obtain ⟨param, hparam, hw⟩ := List.map_eq_singleton_iff.mp hvalues.symm
  have hn := hnames param (hparam ▸ List.mem_singleton_self param)
  rw [hparam, ← hn, ← hw]

/-- A request that has its entry to itself is read from its key the one way there is:
whichever equals sign is taken for the separator. -/
theorem SoleRequest.params {localeLe : String → String → Bool} {u : SiteUrl}
    (h : SoleRequest localeLe u) : u.params = [] ∨
      ∃ n w, u.params = [(n, w)] ∧ '=' ∉ n.toList ∧ '=' ∉ w.toList := by
  have hsplit : ∀ a b, (u.search localeLe).toList = a ++ '=' :: b →
      u.params = [(String.ofList a, String.ofList b)] := fun a b hab =>
    params_of_withParam (h _ (cacheKeyFor_withParam hab)).1
  rcases hparams : u.params with _ | ⟨⟨n, w⟩, rest⟩
  · exact .inl rfl
  obtain ⟨a, b, hab⟩ : ∃ a b, (u.search localeLe).toList = a ++ '=' :: b := by
    refine List.append_of_mem (List.count_pos_iff.mp ?_)
    have hlength := length_le_count localeLe u
    rw [hparams] at hlength
    exact Nat.lt_of_lt_of_le (Nat.succ_pos _) hlength
  obtain rfl : rest = [] := by
    have := hsplit a b hab
    rw [hparams] at this
    exact (List.cons.inj this).2
  have hsearch := @search_singleton localeLe _ _ _ hparams
  have hname : ∀ a b, n.toList ++ '=' :: w.toList = a ++ '=' :: b → n.toList = a := by
    intro a b hab
    have := hsplit a b (hsearch.trans hab)
    rw [hparams] at this
    simpa using congrArg String.toList (Prod.mk.inj (List.cons.inj this).1).1
  refine .inr ⟨n, w, rfl, fun hmem => ?_, fun hmem => ?_⟩
  · obtain ⟨x, y, hxy⟩ := List.append_of_mem hmem
    have hx := hname x (y ++ '=' :: w.toList) (by simp [hxy])
    rw [hxy] at hx
    exact absurd (congrArg List.length hx) (by simp)
  · obtain ⟨x, y, hxy⟩ := List.append_of_mem hmem
    have hx := hname (n.toList ++ '=' :: x) y (by simp [hxy])
    exact absurd (congrArg List.length hx) (by simp)

/-- One parameter without an equals sign in it is read back from the search. -/
theorem params_of_search_eq {localeLe : String → String → Bool} {u v : SiteUrl} {n w : String}
    (hone : u.params = [(n, w)]) (hn : '=' ∉ n.toList) (hw : '=' ∉ w.toList)
    (hsearch : v.search localeLe = u.search localeLe) : v.params = u.params := by
  have hcount : (v.search localeLe).toList.count '=' = 1 := by
    rw [hsearch, count_singleton hone, List.count_eq_zero_of_not_mem hn,
      List.count_eq_zero_of_not_mem hw]
  have hlength := length_le_count localeLe v
  rw [hcount] at hlength
  -- a search writes an equals sign for each parameter, so there is one of them at most
  rcases hparams : v.params with _ | ⟨⟨n', w'⟩, _ | ⟨_, _⟩⟩
  · have hempty := search_eq_empty.mp (hsearch.symm.trans (search_eq_empty.mpr hparams))
    rw [hone] at hempty
    cases hempty
  · rw [count_singleton hparams] at hcount
    have hn' : '=' ∉ n'.toList := List.count_eq_zero.mp (by omega)
    have hchars := congrArg String.toList hsearch
    rw [search_singleton hparams, search_singleton hone] at hchars
    obtain ⟨h1, h2⟩ := Words.split_unique hn' hn hchars
    rw [hone, String.toList_inj.mp h1, String.toList_inj.mp h2]
  · rw [hparams] at hlength
    simp at hlength

/-- **The requests with an entry to themselves** are those without a parameter, and those
with one, in whose name and value there is no equals sign. -/
theorem soleRequest_iff (localeLe : String → String → Bool) (u : SiteUrl) :
    SoleRequest localeLe u ↔ u.params = [] ∨
      ∃ n w, u.params = [(n, w)] ∧ '=' ∉ n.toList ∧ '=' ∉ w.toList := by
  constructor
  · exact SoleRequest.params
  · intro h v hkey
    obtain ⟨hpath, hsearch⟩ := cacheKeyFor_eq_iff.mp hkey
    have hparams : v.params = u.params := by
      rcases h with hnil | ⟨n, w, hone, hn, hw⟩
      · rw [hnil, ← @search_eq_empty localeLe, hsearch]
        exact search_eq_empty.mpr hnil
      · exact params_of_search_eq hone hn hw hsearch
    have hsame : SameRequest v u := ⟨hpath, fun name => by rw [SiteUrl.getAll, hparams]; rfl⟩
    exact ⟨hsame, hsame.respond⟩

/-! ## Requests without separators -/

/-- No name holds a separator, and no value an ampersand. -/
def SiteUrl.Plain (u : SiteUrl) : Prop :=
  ∀ param ∈ u.params,
    '&' ∉ param.1.toList ∧ '=' ∉ param.1.toList ∧ '&' ∉ param.2.toList

/-- A parameter, read off its text. -/
def readParam (text : List Char) : String × String :=
  (String.ofList (text.takeWhile (· ≠ '=')), String.ofList ((text.dropWhile (· ≠ '=')).drop 1))

theorem readParam_paramText {param : String × String} (h : '=' ∉ param.1.toList) :
    readParam (paramText param).toList = param := by
  have hall : ∀ c ∈ param.1.toList, decide (c ≠ '=') = true := by
    intro c hc
    exact decide_eq_true fun heq => h (heq ▸ hc)
  rw [paramText_toList, readParam, List.takeWhile_append_of_pos hall,
    List.dropWhile_append_of_pos hall]
  simp

/-- The sorted parameters of a request without separators are in its key. -/
theorem sorted_of_search (hu : u.Plain) (hne : u.params ≠ []) :
    (((u.search localeLe).toList.splitOn '&').map readParam) =
      u.params.mergeSort fun a b => localeLe a.1 b.1 := by
  have hplain : ∀ param ∈ u.params.mergeSort (fun a b => localeLe a.1 b.1),
      '&' ∉ param.1.toList ∧ '=' ∉ param.1.toList ∧ '&' ∉ param.2.toList :=
    fun param hmem => hu param ((List.mergeSort_perm u.params _).mem_iff.mp hmem)
  rw [search_toList, List.splitOn_intercalate '&' _ _, List.map_map]
  · calc (u.params.mergeSort fun a b => localeLe a.1 b.1).map
          (readParam ∘ fun param => (paramText param).toList)
        = (u.params.mergeSort fun a b => localeLe a.1 b.1).map id :=
          List.map_congr_left fun param hmem => readParam_paramText (hplain param hmem).2.1
      _ = u.params.mergeSort fun a b => localeLe a.1 b.1 := List.map_id _
  · intro text htext
    obtain ⟨param, hmem, rfl⟩ := List.mem_map.mp htext
    obtain ⟨hname, -, hvalue⟩ := hplain param hmem
    rw [paramText_toList]
    simp [hname, hvalue]
  · intro hnil
    have hperm := List.mergeSort_perm u.params fun a b => localeLe a.1 b.1
    rw [List.map_eq_nil_iff.mp hnil] at hperm
    exact hne hperm.nil_eq.symm

/-- The sort keeps the values of a name in their order. -/
theorem getAll_mergeSort (htotal : ∀ a b, localeLe a b || localeLe b a)
    (htrans : ∀ a b c, localeLe a b → localeLe b c → localeLe a c) (u : SiteUrl)
    (name : String) : u.getAll name =
      ((u.params.mergeSort fun a b => localeLe a.1 b.1).filter (·.1 = name)).map (·.2) := by
  have hperm := List.mergeSort_perm u.params fun a b => localeLe a.1 b.1
  have hsub : (u.params.filter (·.1 = name)).Sublist
      (u.params.mergeSort fun a b => localeLe a.1 b.1) := by
    refine List.sublist_mergeSort (fun a b c => htrans a.1 b.1 c.1) (fun a b => htotal a.1 b.1)
      (List.Pairwise.imp_of_mem ?_ (List.pairwise_of_forall (R := fun _ _ => True)
        fun _ _ => trivial)) List.filter_sublist
    intro a b ha hb _
    have ha : a.1 = name := of_decide_eq_true (List.mem_filter.mp ha).2
    have hb : b.1 = name := of_decide_eq_true (List.mem_filter.mp hb).2
    rw [ha, hb]
    simpa using htotal name name
  have hfilter := hsub.filter (fun param => decide (param.1 = name))
  rw [List.filter_filter] at hfilter
  simp only [Bool.and_self] at hfilter
  rw [SiteUrl.getAll, hfilter.eq_of_length ((hperm.filter _).length_eq).symm]

/-- **Requests without separators share no entry** unless they ask for the same. -/
theorem cacheKeyFor_plain (htotal : ∀ a b, localeLe a b || localeLe b a)
    (htrans : ∀ a b c, localeLe a b → localeLe b c → localeLe a c) (hu : u.Plain) (hv : v.Plain)
    (h : cacheKeyFor localeLe v = cacheKeyFor localeLe u) : SameRequest v u := by
  obtain ⟨hpath, hsearch⟩ := cacheKeyFor_eq_iff.mp h
  refine ⟨hpath, fun name => ?_⟩
  by_cases hne : u.params = []
  · have hvne := search_eq_empty.mp (hsearch.trans (search_eq_empty.mpr hne))
    rw [SiteUrl.getAll, SiteUrl.getAll, hne, hvne]
  · have hvne : v.params ≠ [] := fun hnil =>
      hne (search_eq_empty.mp (hsearch.symm.trans (search_eq_empty.mpr hnil)))
    rw [getAll_mergeSort htotal htrans, getAll_mergeSort htotal htrans u,
      ← sorted_of_search hu hne, ← sorted_of_search hv hvne, hsearch]

/-! ## One entry for two pages -/

/-- The blog of the site, with a query. -/
def blogUrl (params : List (String × String)) : SiteUrl :=
  ⟨"/en/blog", params, rfl, by decide⟩

/-- `?a=1&page=2` and `?a=1%26page%3D2`, the second page of the blog and the first,
have one key. -/
theorem one_key_two_pages (h : localeLe "a" "page" = true) :
    cacheKeyFor localeLe (blogUrl [("a", "1&page=2")]) =
      cacheKeyFor localeLe (blogUrl [("a", "1"), ("page", "2")]) ∧
    parsePageNumber ((blogUrl [("a", "1&page=2")]).get PAGE_PARAM) = some 1 ∧
    parsePageNumber ((blogUrl [("a", "1"), ("page", "2")]).get PAGE_PARAM) = some 2 := by
  refine ⟨cacheKeyFor_eq_iff.mpr ⟨rfl, ?_⟩, by decide, by decide⟩
  have hsorted : [("a", "1"), ("page", "2")].mergeSort (fun a b => localeLe a.1 b.1) =
      [("a", "1"), ("page", "2")] :=
    List.mergeSort_of_pairwise (by simpa using h)
  simp only [SiteUrl.search, blogUrl, hsorted, List.mergeSort_singleton]
  decide

theorem not_soleRequest :
    ¬ ∀ (localeLe : String → String → Bool) (u : SiteUrl), SoleRequest localeLe u := by
  intro h
  obtain ⟨hkey, hfirst, hsecond⟩ := @one_key_two_pages (fun _ _ => true) rfl
  obtain ⟨hsame, -⟩ := h _ _ _ hkey
  rw [SiteUrl.get, hsame.values, ← SiteUrl.get, hsecond] at hfirst
  cases hfirst

end PressLabz
