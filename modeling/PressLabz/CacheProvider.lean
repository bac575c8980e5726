import PressLabz.IpAddress
import PressLabz.KeyFamilies
import PressLabz.PageCacheFreshness

/-! # The cache in front of the site

`packages/cache/src/astro/runtime.ts` and `collector.ts`: what the provider does with
a request before and after the route renders it, over the cache of
`PageCacheFreshness`.

Any number of requests are under way at once.  A request looks its page up; a miss
renders, at some later instant has read what it shows, and later still stores it, or
never does.  The clock runs, and purges land, in between.  `Step` is one of
these, and drives the cache by the steps `PageCacheFreshness` knows (`Inv`).

`hit_provenance` says what a reader may be handed from the store.
-/
namespace PressLabz.CacheProvider
open Valkey PageCache

/-! ## Responses -/

/-- Headers as `forEach` yields them: names in lower case, the values of a name in one
text.  Only cookies are not combined. -/
structure Headers where
  entries : List (String × String)
  combined : ((entries.filter (·.1 ≠ "set-cookie")).map (·.1)).Nodup := by decide
  deriving DecidableEq

def Headers.get (headers : Headers) (name : String) : Option String :=
  (headers.entries.find? (·.1 = name)).map (·.2)

def Headers.has (headers : Headers) (name : String) : Bool := headers.entries.any (·.1 = name)

/-- What a route answers with. -/
structure RouteResponse where
  status : Nat
  headers : Headers
  body : String
  deriving DecidableEq

/-- What the reader of a page gets. -/
structure Reply where
  status : Nat
  headers : List (String × String)
  body : String
  deriving DecidableEq

/-- `new Response(body, { status, headers })`: it throws outside 200 to 599, and for a
status that has no body. -/
def newResponse (body : String) (status : Nat) (headers : List (String × String)) :
    Option Reply :=
  if 200 ≤ status ∧ status ≤ 599 ∧ status ∉ [204, 205, 304] then some ⟨status, headers, body⟩
  else none

/-- Headers that must not survive into a shared entry. -/
def DROPPED : List String := ["set-cookie", "cdn-cache-control", "cache-tag", "x-cache"]

def headersOf (response : RouteResponse) : List (String × String) :=
  response.headers.entries.filter fun header => header.1 ∉ DROPPED

/-- `{ ...headers, 'x-cache': value }`. -/
def withXCache (headers : List (String × String)) (value : String) : List (String × String) :=
  headers.filter (·.1 ≠ "x-cache") ++ [("x-cache", value)]

/-! ## What a response says of its caching -/

/-- `/max-age=(\d+)/.exec`, and its group: the digits at the first place where there
are any. -/
def maxAgeDigits : List Char → List Char
  | [] => []
  | c :: rest =>
    let digits := ((c :: rest).drop "max-age=".length).takeWhile Char.isDigit
    if "max-age=".toList.isPrefixOf (c :: rest) ∧ digits ≠ [] then digits else maxAgeDigits rest

def parseMaxAge : Option String → Nat
  | none => 0
  | some directives => Nat.ofDigitChars 10 (maxAgeDigits directives.toList) 0

def parseTags : Option String → List String
  | none => []
  | some header =>
    ((header.splitOn ",").map Net.trim).filter fun tag => decide (tag ≠ "") && isTag tag

/-! ## Collecting tags -/

/-- Adds the tags to the set of the render in progress, up to one that is refused. -/
def collectTags (current : List String) : List String → Except CacheError Unit × List String
  | [] => (.ok (), current)
  | tag :: rest =>
    match assertTag tag with
    | .error e => (.error e, current)
    | .ok tag => collectTags (if tag ∈ current then current else current ++ [tag]) rest

/-- The tags of a render, by the calls it made; a call that throws may be caught. -/
def withTagCollection (calls : List (List String)) : List String :=
  (calls.foldl (fun current tags => (collectTags current tags).2) []).mergeSort

/-! ## `onRequest` -/

/-- The tags a page is kept under; none when it is not kept. -/
def keptTags (response : RouteResponse) (collected : List String) : Option (List String) :=
  if parseMaxAge (response.headers.get "cdn-cache-control") ≤ 0 then none
  else if response.status ≠ 200 then none
  else if response.headers.has "set-cookie" then none
  else if response.headers.has "vary" then none
  else
    let tags := (collected ++ parseTags (response.headers.get "cache-tag")).eraseDups
    if tags.length = 0 then none else some tags

/-- The page that is stored. -/
def pageOf (response : RouteResponse) : CachedPage :=
  ⟨response.body, response.status, headersOf response⟩

/-- `reply`, of a page that was rendered for this request. -/
def reply (response : RouteResponse) : Option Reply :=
  newResponse response.body response.status (withXCache (headersOf response) "MISS")

/-- The answer from the store. -/
def replyFrom (page : CachedPage) : Option Reply :=
  newResponse page.body page.status (withXCache page.headers "HIT")

/-- How a request to the provider begins. -/
inductive Begun where
  /-- The route answers whatever it likes: the request is no GET. -/
  | next
  | answered (reply : Option Reply)
  | render (renderedFrom : Nat)
  | failed (e : CacheError)
  deriving DecidableEq

section Provider
variable (cache : Cache) (localeLe : String → String → Bool)

/-- `onRequest`, up to the render. -/
def onRequest (method : String) (url : SiteUrl) (server : Server String Payload) :
    Begun × Server String Payload :=
  if method ≠ "GET" then (.next, server)
  else
    match cache.lookup (cacheKeyFor localeLe url) server with
    | (.error e, server') => (.failed e, server')
    | (.ok (.hit page _), server') => (.answered (replyFrom page), server')
    | (.ok (.miss at_), server') => (.render at_, server')

/-- `invalidate`: the tags that are tags. -/
def invalidate (tags : List String) (server : Server String Payload) :
    Except CacheError Nat × Server String Payload :=
  if tags.length > 0 then cache.purgeTags (tags.filter isTag) server else (.ok 0, server)

end Provider

/-! ## Runs -/

/-- A page that is to be kept: what the route answered, the calls that collected its
tags, and whatever the render had read (`σ`), which the provider never sees. -/
structure Page (σ : Type) where
  source : σ
  response : RouteResponse
  calls : List (List String)
  tags : List String
  kept : keptTags response (withTagCollection calls) = some tags

/-- A request under way: it missed at a clock, and may have been rendered since. -/
structure Asked (σ : Type) where
  url : SiteUrl
  renderedFrom : Nat
  page : Option (Page σ)

/-- A page that was stored. -/
structure Kept (σ : Type) extends Page σ where
  url : SiteUrl
  renderedFrom : Nat
  madeAt : Nat

/-- The cache, the requests under way, and all that was ever stored. -/
structure Front (σ : Type) where
  cache : System
  asked : List (Asked σ)
  kept : List (Kept σ)

section Runs
variable (cache : Cache) (localeLe : String → String → Bool) {σ : Type}

namespace Front

def start (clock : Nat) : Front σ := ⟨System.start clock, [], []⟩

/-- A GET begins: it is answered from the store, or is under way from now on. -/
def get (s : Front σ) (url : SiteUrl) : Front σ :=
  { s with
    cache := s.cache.lookup cache (cacheKeyFor localeLe url)
    asked := match (onRequest cache localeLe "GET" url s.cache.server).1 with
      | .render at_ => ⟨url, at_, none⟩ :: s.asked
      | _ => s.asked }

/-- A page that was rendered goes to the store. -/
def store (s : Front σ) (url : SiteUrl) (renderedFrom : Nat) (page : Page σ)
    (rest : List (Asked σ)) : Front σ :=
  { cache := s.cache.store cache ⟨cacheKeyFor localeLe url, renderedFrom⟩ (pageOf page.response)
      page.tags
    asked := rest
    kept := match (cache.store (cacheKeyFor localeLe url) (pageOf page.response) page.tags
        renderedFrom s.cache.server).1 with
      | .ok true => ⟨page, url, renderedFrom, s.cache.server.clock⟩ :: s.kept
      | _ => s.kept }

end Front

/-- One step of a reader, a route, the store or the clock.  A request that is not
kept, or whose route throws, is over. -/
inductive Step (urls : Set SiteUrl) : Front σ → Front σ → Prop
  | tick (s : Front σ) (ms : Nat) : Step urls s { s with cache := s.cache.tick ms }
  | get (s : Front σ) (url : SiteUrl) (hurl : url ∈ urls) :
      Step urls s (s.get cache localeLe url)
  | rendered (s : Front σ) (before after : List (Asked σ)) (url : SiteUrl) (renderedFrom : Nat)
      (page : Page σ) (hasked : s.asked = before ++ ⟨url, renderedFrom, none⟩ :: after) :
      Step urls s { s with asked := before ++ ⟨url, renderedFrom, some page⟩ :: after }
  | ended (s : Front σ) (before after : List (Asked σ)) (asked : Asked σ)
      (hasked : s.asked = before ++ asked :: after) :
      Step urls s { s with asked := before ++ after }
  | stored (s : Front σ) (before after : List (Asked σ)) (url : SiteUrl) (renderedFrom : Nat)
      (page : Page σ) (hasked : s.asked = before ++ ⟨url, renderedFrom, some page⟩ :: after)
      (deadline : s.cache.server.clock < renderedFrom +
        cache.options.purgeStampTtlSeconds * 1000) :
      Step urls s (s.store cache localeLe url renderedFrom page (before ++ after))
  | purge (s : Front σ) (tags : List String) :
      Step urls s { s with cache := s.cache.purge cache tags }

/-- The states the site reaches from an empty store. -/
inductive Reachable (urls : Set SiteUrl) : Front σ → Prop
  | start (clock : Nat) : Reachable urls (Front.start clock)
  | step {s s' : Front σ} : Reachable urls s → Step cache localeLe urls s s' →
      Reachable urls s'

end Runs

/-! ## What is kept -/

/-- **A page is kept** only if it asked to be, with status 200, without a cookie or a
`vary`, and with a tag. -/
theorem keptTags_some {response : RouteResponse} {collected tags : List String}
    (h : keptTags response collected = some tags) :
    0 < parseMaxAge (response.headers.get "cdn-cache-control") ∧ response.status = 200 ∧
      response.headers.has "set-cookie" = false ∧ response.headers.has "vary" = false ∧
      tags ≠ [] ∧ ∀ tag, tag ∈ tags ↔
        tag ∈ collected ∨ tag ∈ parseTags (response.headers.get "cache-tag") := by
  unfold keptTags at h
  split at h
  · cases h
  · rename_i hage
    split at h
    · cases h
    · rename_i hstatus
      split at h
      · cases h
      · rename_i hcookie
        split at h
        · cases h
        · rename_i hvary
          dsimp only at h
          split at h
          · cases h
          · rename_i hlength
            obtain rfl := Option.some.inj h
            refine ⟨Nat.lt_of_not_le hage, Decidable.not_not.mp hstatus, by simpa using hcookie,
              by simpa using hvary, fun hnil => hlength (by rw [hnil]; rfl), fun tag => ?_⟩
            rw [List.mem_eraseDups, List.mem_append]

/-- A page that is kept can be replied with. -/
theorem reply_of_kept {response : RouteResponse} {collected tags : List String}
    (h : keptTags response collected = some tags) :
    reply response =
      some ⟨200, withXCache (headersOf response) "MISS", response.body⟩ := by
  have hstatus := (keptTags_some h).2.1
  rw [reply, newResponse, hstatus]
  exact if_pos (by decide)

/-- The tags of the headers are tags. -/
theorem isTag_of_parseTags {header : Option String} {tag : String} (h : tag ∈ parseTags header) :
    isTag tag = true := by
  cases header with
  | none => cases h
  | some text => exact ((Bool.and_eq_true _ _).mp (List.mem_filter.mp h).2).2

/-- No header of a page that is kept is one that must not be shared. -/
theorem notMem_dropped {response : RouteResponse} {header : String × String}
    (h : header ∈ headersOf response) : header.1 ∉ DROPPED := by
  simpa using (List.mem_filter.mp h).2

theorem withXCache_headersOf (response : RouteResponse) (value : String) :
    withXCache (headersOf response) value = headersOf response ++ [("x-cache", value)] := by
  rw [withXCache, List.filter_eq_self.mpr]
  intro header hm
  refine decide_eq_true fun heq => notMem_dropped hm ?_
  rw [heq]
  decide

/-- The tags of a render are tags, whatever it tried to collect. -/
theorem isTag_of_collected {calls : List (List String)} {tag : String}
    (h : tag ∈ withTagCollection calls) : isTag tag = true := by
  have hcall : ∀ (tags current : List String), (∀ t ∈ current, isTag t = true) →
      ∀ t ∈ (collectTags current tags).2, isTag t = true := by
    intro tags
    induction tags with
    | nil => exact fun current h => h
    | cons a rest ih =>
      intro current hcurrent
      by_cases ha : isTag a = true
      · simp only [collectTags, assertTag, ha, if_true]
        refine ih _ fun t ht => ?_
        split at ht
        · exact hcurrent t ht
        · rcases List.mem_append.mp ht with ht | ht
          · exact hcurrent t ht
          · rw [List.mem_singleton.mp ht]
            exact ha
      · simp only [collectTags, assertTag, ha]
        exact hcurrent
  have hcalls : ∀ (calls : List (List String)) (current : List String),
      (∀ t ∈ current, isTag t = true) →
      ∀ t ∈ calls.foldl (fun current tags => (collectTags current tags).2) current,
        isTag t = true := by
    intro calls
    induction calls with
    | nil => exact fun current h => h
    | cons tags rest ih => exact fun current h => ih _ (hcall tags current h)
  exact hcalls calls [] (fun t ht => by cases ht) tag (List.mem_mergeSort.mp h)

/-- Every tag of a page that is kept is a tag. -/
theorem Page.isTag {σ : Type} (page : Page σ) {tag : String} (h : tag ∈ page.tags) :
    isTag tag = true := by
  obtain ⟨-, -, -, -, -, htags⟩ := keptTags_some page.kept
  rcases (htags tag).mp h with h | h
  · exact isTag_of_collected h
  · exact isTag_of_parseTags h

/-- What the framework invalidates is a purge of the tags among what it names. -/
theorem invalidate_eq (cache : Cache) (tags : List String) (server : Server String Payload) :
    invalidate cache tags server = cache.purgeTags (tags.filter PageCache.isTag) server := by
  by_cases hlength : tags.length > 0
  · exact if_pos hlength
  · obtain rfl : tags = [] := List.eq_nil_of_length_eq_zero (by omega)
    rw [invalidate, if_neg hlength, List.filter_nil, Cache.purgeTags,
      if_pos (by simp [uniqueSorted])]

/-! ## Entries -/

section Entries
variable {cache : Cache} {pages : Set String} {keys : Keyspace String Payload}

/-- Pages that are forgotten leave the entries of the others. -/
theorem allForgotten_entry (hd : KeysDistinct cache pages) {pageKeys : List String}
    (hp : ∀ x ∈ pageKeys, ∃ key ∈ pages, x = cache.pageKey key) (ht : Typed cache pages keys)
    {key : String} (hk : key ∈ pages) {e : Entry String Payload}
    (h : allForgotten pageKeys keys (cache.pageKey key) = some e) :
    keys (cache.pageKey key) = some e := by
  induction pageKeys generalizing keys with
  | nil => exact h
  | cons a rest ih =>
    obtain ⟨key', hk', rfl⟩ := hp a List.mem_cons_self
    have hrest := ih (fun x hx => hp x (List.mem_cons_of_mem _ hx)) (ht.forgotten hd hk') h
    rw [forgotten_page hd ht hk' hk] at hrest
    split at hrest
    · cases hrest
    · exact hrest

/-- A purge makes no entry of a page. -/
theorem purgedAll_entry (hd : KeysDistinct cache pages) (ht : Typed cache pages keys)
    {clock : Nat} {tags : List String} {key : String} (hk : key ∈ pages)
    {e : Entry String Payload}
    (h : tags.foldl (purgedKeys cache clock) keys (cache.pageKey key) = some e) :
    keys (cache.pageKey key) = some e := by
  induction tags generalizing keys with
  | nil => exact h
  | cons tag rest ih =>
    have hkept : purgedKeys cache clock keys tag (cache.pageKey key) =
        allForgotten (Entry.members (keys (cache.tagKey tag))) keys (cache.pageKey key) :=
      purgedKeys_of_ne hd (g := .page key) hk (by simp) (by simp)
    exact allForgotten_entry hd (ht.tag_members tag) ht hk
      (hkept ▸ ih (ht.purgedKeys hd) h)

/-- The entry that a store makes is the page, with the time to live of the cache. -/
theorem storedKeys_entry (hd : KeysDistinct cache pages) {clock : Nat} {tags : List String}
    {stored : StoredPage} {key : String} (hk : key ∈ pages) :
    storedKeys clock key tags stored cache keys (cache.pageKey key) =
      some ⟨.str (.page stored), some (clock + cache.options.ttlSeconds * 1000)⟩ := by
  have hne := hd.page_ne_tagList hk hk
  have hnot : cache.pageKey key ∉ tags.map cache.tagKey :=
    hd.notMem_tags (g := .page key) hk (by simp) tags
  rw [storedKeys, Function.update_of_ne hne, linked_of_notMem hnot hne, Function.update_self]

end Entries

/-! ## The invariant -/

section Invariant
variable {cache : Cache} {localeLe : String → String → Bool} {urls : Set SiteUrl} {σ : Type}

/-- The keys the site stores pages under. -/
def keysOf (localeLe : String → String → Bool) (urls : Set SiteUrl) : Set String :=
  {key | ∃ url ∈ urls, cacheKeyFor localeLe url = key}

def Asked.render (localeLe : String → String → Bool) (a : Asked σ) : Render :=
  ⟨cacheKeyFor localeLe a.url, a.renderedFrom⟩

def Kept.record (k : Kept σ) : StoreRecord := ⟨pageOf k.response, k.tags, k.renderedFrom⟩

/-- The entry is that of the page stored last under its key. -/
def Entered (cache : Cache) (localeLe : String → String → Bool) (s : Front σ) (key : String)
    (e : Entry String Payload) : Prop :=
  ∃ k ∈ s.kept, cacheKeyFor localeLe k.url = key ∧ s.cache.stored key = some k.record ∧
    e = ⟨.str (.page { pageOf k.response with storedAt := k.renderedFrom }),
      some (k.madeAt + cache.options.ttlSeconds * 1000)⟩

/-- What the site keeps, whatever has happened. -/
structure Inv (cache : Cache) (localeLe : String → String → Bool) (urls : Set SiteUrl)
    (s : Front σ) : Prop where
  /-- The cache is one that `PageCacheFreshness` speaks about. -/
  reaches : PageCache.Reachable cache (keysOf localeLe urls) s.cache
  renders : (s.asked.map (Asked.render localeLe)).Subperm s.cache.renders
  entered : ∀ key ∈ keysOf localeLe urls, ∀ e,
    s.cache.server.keys (cache.pageKey key) = some e → Entered cache localeLe s key e
  past : ∀ k ∈ s.kept, k.renderedFrom ≤ k.madeAt ∧ k.madeAt ≤ s.cache.server.clock

/-- The requests under way are renders of the cache, whichever of them is put first. -/
theorem Inv.middle {s : Front σ} (h : Inv cache localeLe urls s) {before after : List (Asked σ)}
    {a : Asked σ} (hasked : s.asked = before ++ a :: after) :
    (a.render localeLe :: (before ++ after).map (Asked.render localeLe)).Subperm
      s.cache.renders := by
  have hperm := (@List.perm_middle _ a before after).map
    (Asked.render localeLe)
  exact hperm.symm.subperm.trans (hasked ▸ h.renders)

/-- When a request ends, the others are renders of the cache still. -/
theorem Inv.rest {s : Front σ} (h : Inv cache localeLe urls s) {before after : List (Asked σ)}
    {a : Asked σ} (hasked : s.asked = before ++ a :: after) :
    ((before ++ after).map (Asked.render localeLe)).Subperm
      (s.cache.renders.erase (a.render localeLe)) := by
  have herase := (h.middle hasked).erase (a.render localeLe)
  rwa [List.erase_cons_head] at herase

theorem Entered.kept {s s' : Front σ} {key : String} {e : Entry String Payload}
    (h : Entered cache localeLe s key e) (hkept : s'.kept = s.kept)
    (hstored : s'.cache.stored = s.cache.stored) : Entered cache localeLe s' key e := by
  rw [Entered, hkept, hstored]
  exact h

theorem inv_start (clock : Nat) : Inv cache localeLe urls (Front.start clock : Front σ) where
  reaches := .start clock
  renders := .refl []
  entered _ _ _ h := by cases h
  past _ h := by cases h

/-- A GET keeps the invariant: it reads, and may begin a render. -/
theorem Inv.get (hd : KeysDistinct cache (keysOf localeLe urls)) {s : Front σ}
    (h : Inv cache localeLe urls s) {url : SiteUrl} (hurl : url ∈ urls) :
    Inv cache localeLe urls (s.get cache localeLe url) := by
  have hk : cacheKeyFor localeLe url ∈ keysOf localeLe urls := ⟨url, hurl, rfl⟩
  have ht := (h.reaches.inv hd).keys.typed
  have hserver : (s.cache.lookup cache (cacheKeyFor localeLe url)).server =
      s.cache.server.expire := by
    simp only [System.lookup, ht.lookup hk]
  refine ⟨h.reaches.step (.lookup _ _ hk), ?_, ?_, ?_⟩
  · -- the request that began is the render that began
    cases hl : cache.lookup (cacheKeyFor localeLe url) s.cache.server with
    | mk result server =>
      simp only [Front.get, onRequest, System.lookup, hl, ne_eq, not_true_eq_false, if_false]
      cases result with
      | error e => exact h.renders
      | ok found =>
        cases found with
        | hit page at_ => exact h.renders
        | miss at_ => exact List.subperm_cons _ |>.mpr h.renders
  · intro key hkey e he
    have hkeys : (s.get cache localeLe url).cache.server.keys = s.cache.server.expire.keys :=
      congrArg Server.keys hserver
    rw [hkeys] at he
    exact (h.entered key hkey e (s.cache.server.expire_keys.mp he).1).kept rfl rfl
  · intro k hmem
    have hclock : (s.get cache localeLe url).cache.server.clock = s.cache.server.clock := by
      show (s.cache.lookup cache _).server.clock = _
      rw [hserver]
      rfl
    rw [hclock]
    exact h.past k hmem

/-- A purge keeps the invariant: it only takes entries away. -/
theorem Inv.purge (hd : KeysDistinct cache (keysOf localeLe urls)) {s : Front σ}
    (h : Inv cache localeLe urls s) (tags : List String) :
    Inv cache localeLe urls { s with cache := s.cache.purge cache tags } := by
  have ht := (h.reaches.inv hd).keys.typed
  rcases ht.purgeTags hd tags with ⟨tag, he⟩ | ⟨hnil, he⟩ | ⟨removed, -, he⟩
  · have hserver : (s.cache.purge cache tags).server = s.cache.server := by
      simp only [System.purge, he]
    exact ⟨h.reaches.step (.purge _ tags), h.renders,
      fun key hk e hkey => (h.entered key hk e (hserver ▸ hkey)).kept rfl rfl,
      fun k hk => hserver ▸ h.past k hk⟩
  · have hserver : (s.cache.purge cache tags).server = s.cache.server := by
      simp only [System.purge, he]
    exact ⟨h.reaches.step (.purge _ tags), h.renders,
      fun key hk e hkey => (h.entered key hk e (hserver ▸ hkey)).kept rfl rfl,
      fun k hk => hserver ▸ h.past k hk⟩
  · have hserver : (s.cache.purge cache tags).server = { s.cache.server.expire with
        keys := (uniqueSorted tags).foldl (purgedKeys cache s.cache.server.clock)
          s.cache.server.expire.keys } := by
      simp only [System.purge, he]
    refine ⟨h.reaches.step (.purge _ tags), h.renders, fun key hk e hkey => ?_, fun k hk => ?_⟩
    · rw [hserver] at hkey
      have hleft := purgedAll_entry hd ht.expire hk hkey
      exact (h.entered key hk e (s.cache.server.expire_keys.mp hleft).1).kept rfl rfl
    · rw [hserver]
      exact h.past k hk

/-- The entry of a page that has just been stored is that of the page. -/
theorem Entered.stored {s s' : Front σ} {k : Kept σ} (hkept : k ∈ s'.kept)
    (hstored : s'.cache.stored = Function.update s.cache.stored (cacheKeyFor localeLe k.url)
      (some k.record)) :
    Entered cache localeLe s' (cacheKeyFor localeLe k.url)
      ⟨.str (.page { pageOf k.response with storedAt := k.renderedFrom }),
        some (k.madeAt + cache.options.ttlSeconds * 1000)⟩ :=
  ⟨k, hkept, rfl, by rw [hstored, Function.update_self], rfl⟩

/-- A store keeps the invariant: it replaces the entry of its page, or changes no entry. -/
theorem Inv.stored (hd : KeysDistinct cache (keysOf localeLe urls)) {s : Front σ}
    (h : Inv cache localeLe urls s) {before after : List (Asked σ)} {url : SiteUrl}
    {renderedFrom : Nat} {page : Page σ}
    (hasked : s.asked = before ++ ⟨url, renderedFrom, some page⟩ :: after)
    (deadline : s.cache.server.clock < renderedFrom +
      cache.options.purgeStampTtlSeconds * 1000) :
    Inv cache localeLe urls (s.store cache localeLe url renderedFrom page (before ++ after)) := by
  have hinv := h.reaches.inv hd
  have hrender : (⟨cacheKeyFor localeLe url, renderedFrom⟩ : Render) ∈ s.cache.renders :=
    (h.middle hasked).subset List.mem_cons_self
  obtain ⟨hk, hpast⟩ := hinv.render _ hrender
  have hreaches : PageCache.Reachable cache (keysOf localeLe urls)
      (s.store cache localeLe url renderedFrom page (before ++ after)).cache :=
    h.reaches.step (.store _ _ _ _ hrender deadline)
  have hstore : cache.store (cacheKeyFor localeLe url) (pageOf page.response) page.tags
      renderedFrom s.cache.server = _ := hinv.keys.typed.store hd hk (mapM_assertTag_of_isTag
    fun tag htag => page.isTag (mem_uniqueSorted.mp htag))
  split at hstore
  · -- overtaken: nothing is written
    refine ⟨hreaches, h.rest hasked, fun key hkey e he => ?_, ?_⟩
    · simp only [Front.store, System.store, hstore] at he
      exact (h.entered key hkey e (s.cache.server.expire_keys.mp he).1).kept
        (by simp only [Front.store, hstore]) (by simp only [Front.store, System.store, hstore])
    · simp only [Front.store, System.store, hstore]
      exact h.past
  · refine ⟨hreaches, h.rest hasked, fun key hkey e he => ?_, ?_⟩
    · simp only [Front.store, System.store, hstore] at he
      by_cases hkk : key = cacheKeyFor localeLe url
      · subst hkk
        rw [storedKeys_entry hd hk] at he
        obtain rfl := Option.some.inj he
        exact Entered.stored (s := s) (k := ⟨page, url, renderedFrom, s.cache.server.clock⟩)
          (by simp only [Front.store, hstore]; exact List.mem_cons_self)
          (by simp only [Front.store, System.store, hstore]; rfl)
      · -- another page: its entry and its record stay
        have hsame : storedKeys s.cache.server.clock (cacheKeyFor localeLe url)
            (uniqueSorted page.tags) { pageOf page.response with storedAt := renderedFrom } cache
            s.cache.server.expire.keys (cache.pageKey key) =
              s.cache.server.expire.keys (cache.pageKey key) :=
          storedKeys_of_ne hd hinv.keys.typed.expire hk (g := .page key) hkey (by simp) (by simp)
            (by simpa using hkk)
        rw [hsame] at he
        obtain ⟨k, hmem, hkey', hrec, he⟩ :=
          h.entered key hkey e (s.cache.server.expire_keys.mp he).1
        refine ⟨k, ?_, hkey', ?_, he⟩
        · simp only [Front.store, hstore]
          exact List.mem_cons_of_mem _ hmem
        · simp only [Front.store, System.store, hstore]
          rw [Function.update_of_ne hkk, hrec]
    · simp only [Front.store, System.store, hstore]
      intro k hmem
      rcases List.mem_cons.mp hmem with rfl | hmem
      · exact ⟨hpast, Nat.le_refl _⟩
      · exact h.past k hmem

/-- **One step of the site** keeps the invariant. -/
theorem Inv.step (hd : KeysDistinct cache (keysOf localeLe urls)) {s s' : Front σ}
    (h : Inv cache localeLe urls s) (hs : Step cache localeLe urls s s') :
    Inv cache localeLe urls s' := by
  cases hs with
  | tick ms =>
    exact ⟨h.reaches.step (.tick _ ms), h.renders, h.entered,
      fun k hk => ⟨(h.past k hk).1, Nat.le_trans (h.past k hk).2 (Nat.le_add_right _ ms)⟩⟩
  | get url hurl => exact h.get hd hurl
  | rendered before after url renderedFrom page hasked =>
    refine ⟨h.reaches, ?_, h.entered, h.past⟩
    have hsame : (before ++ ⟨url, renderedFrom, some page⟩ :: after).map (Asked.render localeLe) =
        s.asked.map (Asked.render localeLe) := by
      rw [hasked, List.map_append, List.map_append]
      rfl
    exact hsame ▸ h.renders
  | ended before after asked hasked =>
    exact ⟨h.reaches, (List.sublist_cons_self _ _).subperm.trans (h.middle hasked), h.entered,
      h.past⟩
  | stored before after url renderedFrom page hasked deadline =>
    exact h.stored hd hasked deadline
  | purge tags => exact h.purge hd tags

/-- **In every run of the site** the invariant holds. -/
theorem Reachable.inv (hd : KeysDistinct cache (keysOf localeLe urls)) {s : Front σ}
    (hr : Reachable cache localeLe urls s) : Inv cache localeLe urls s := by
  induction hr with
  | start clock => exact inv_start clock
  | step _ hs ih => exact ih.step hd hs

/-- A request that is under way began in the past. -/
theorem Inv.asked_past (hd : KeysDistinct cache (keysOf localeLe urls)) {s : Front σ}
    (h : Inv cache localeLe urls s) {a : Asked σ} (ha : a ∈ s.asked) :
    a.renderedFrom ≤ s.cache.server.clock :=
  ((h.reaches.inv hd).render _ (h.renders.subset (List.mem_map_of_mem ha))).2

/-- What is stored by a step was asked for and rendered before it. -/
theorem Step.kept {s s' : Front σ} (hs : Step cache localeLe urls s s') :
    ∀ k ∈ s'.kept, k ∈ s.kept ∨ ∃ a ∈ s.asked, a.page = some k.toPage ∧ a.url = k.url ∧
      a.renderedFrom = k.renderedFrom := by
  cases hs with
  | tick ms => exact fun k hk => .inl hk
  | get url hurl => exact fun k hk => .inl hk
  | rendered before after url renderedFrom page hasked => exact fun k hk => .inl hk
  | ended before after asked hasked => exact fun k hk => .inl hk
  | purge tags => exact fun k hk => .inl hk
  | stored before after url renderedFrom page hasked deadline =>
    intro k hk
    simp only [Front.store] at hk
    split at hk
    · rcases List.mem_cons.mp hk with rfl | hk
      · refine .inr ⟨⟨url, renderedFrom, some page⟩, ?_, rfl, rfl, rfl⟩
        rw [hasked]
        exact List.mem_append_right _ List.mem_cons_self
      · exact .inl hk
    · exact .inl hk

/-! ## What a reader is handed -/

/-- No two keys the site uses are one, as long as of no two paths that are asked for one
is the other with `:tags` after it. -/
theorem keysDistinct_keysOf (hsha : Digests cache.sha256 (keysOf localeLe urls))
    (hapart : ∀ k ∈ keysOf localeLe urls, k ++ ":tags" ∈ keysOf localeLe urls →
      isReadableKey (k ++ ":tags") = false) : KeysDistinct cache (keysOf localeLe urls) := by
  refine ((familiesApart_iff hsha ?_).mpr hapart).distinct
  rintro k ⟨url, -, rfl⟩
  exact cacheKeyFor_rooted localeLe url

/-- An answer that comes from a page that was kept: what the reader who asked for it got,
but for the mark, and what made it fit to be shared and makes it fit to be shown. -/
structure FromKept (cache : Cache) (localeLe : String → String → Bool) (s : Front σ)
    (url : SiteUrl) (answer : Option Reply) (k : Kept σ) : Prop where
  mem : k ∈ s.kept
  key : cacheKeyFor localeLe k.url = cacheKeyFor localeLe url
  answer : answer = some ⟨200, headersOf k.response ++ [("x-cache", "HIT")], k.response.body⟩
  own : reply k.response =
    some ⟨200, headersOf k.response ++ [("x-cache", "MISS")], k.response.body⟩
  asked : 0 < parseMaxAge (k.response.headers.get "cdn-cache-control")
  cookieless : k.response.headers.has "set-cookie" = false
  unvarying : k.response.headers.has "vary" = false
  /-- A page that was kept has a tag, and its tags are those it was collected or sent with. -/
  tagged : k.tags ≠ [] ∧ ∀ tag, tag ∈ k.tags ↔ tag ∈ withTagCollection k.calls ∨
    tag ∈ parseTags (k.response.headers.get "cache-tag")
  lives : k.renderedFrom ≤ k.madeAt ∧ k.madeAt ≤ s.cache.server.clock ∧
    s.cache.server.clock < k.madeAt + cache.options.ttlSeconds * 1000
  fresh : ∀ tag ∈ k.tags, ∀ c, (tag, c) ∈ s.cache.purges → c < k.renderedFrom

/-- A GET that is answered from the store is answered from the entry of its key. -/
theorem onRequest_answered {url : SiteUrl} {server server' : Server String Payload}
    {answer : Option Reply}
    (hit : onRequest cache localeLe "GET" url server = (.answered answer, server')) :
    ∃ page at_, cache.lookup (cacheKeyFor localeLe url) server = (.ok (.hit page at_), server') ∧
      answer = replyFrom page := by
  rw [onRequest, if_neg (by decide)] at hit
  cases hl : cache.lookup (cacheKeyFor localeLe url) server with
  | mk result left =>
    rw [hl] at hit
    cases result with
    | error e => cases hit
    | ok found =>
      cases found with
      | miss at_ => cases hit
      | hit page at_ =>
        cases hit
        exact ⟨page, at_, rfl, rfl⟩

/-- A page that a reader is handed from the store is one that was kept, and is what its own
reader got. -/
theorem Inv.fromKept (hd : KeysDistinct cache (keysOf localeLe urls)) {s : Front σ}
    (h : Inv cache localeLe urls s) {url : SiteUrl} (hurl : url ∈ urls) {answer : Option Reply}
    {server : Server String Payload}
    (hit : onRequest cache localeLe "GET" url s.cache.server = (.answered answer, server)) :
    ∃ k, FromKept cache localeLe s url answer k := by
  have hk : cacheKeyFor localeLe url ∈ keysOf localeLe urls := ⟨url, hurl, rfl⟩
  have hinv := h.reaches.inv hd
  obtain ⟨page, at_, hlookup, rfl⟩ := onRequest_answered hit
  obtain ⟨record, hrecord, -, hfresh⟩ := hinv.hit_fresh hk hlookup
  -- the entry the lookup read is that of the page stored last
  rw [hinv.keys.typed.lookup hk] at hlookup
  have hread := Except.ok.inj (Prod.mk.inj hlookup).1
  cases he : s.cache.server.expire.keys (cache.pageKey (cacheKeyFor localeLe url)) with
  | none => rw [he] at hread; cases hread
  | some e =>
    obtain ⟨hkey, halive⟩ := s.cache.server.expire_keys.mp he
    obtain ⟨k, hmem, hsame, hstored, rfl⟩ := h.entered _ hk e hkey
    obtain rfl : record = k.record := Option.some.inj (hrecord.symm.trans hstored)
    rw [he, Entry.payload_str] at hread
    obtain rfl := (PageLookup.hit.inj hread).1
    obtain ⟨hage, hstatus, hcookie, hvary, hne, htags⟩ := keptTags_some k.kept
    refine ⟨k, hmem, hsame, ?_, ?_, hage, hcookie, hvary, ⟨hne, htags⟩, ?_, hfresh⟩
    · show replyFrom (pageOf k.response) = _
      rw [replyFrom, pageOf, withXCache_headersOf, newResponse, hstatus]
      exact if_pos (show 200 ≤ 200 ∧ 200 ≤ 599 ∧ 200 ∉ [204, 205, 304] by decide)
    · rw [reply_of_kept k.kept, withXCache_headersOf]
    · exact ⟨(h.past k hmem).1, (h.past k hmem).2, of_decide_eq_true halive⟩

/-- **What a reader is handed from the store**, in every state the site reaches, is what
the reader was answered who had it rendered: a page its route asked to be cached, with
status 200, no cookie and no `vary`, and something to purge it by; it is within its time
to live, and no purge of a tag of it has run since its render began.  Only a GET is
answered so, and answering it writes nothing.  The keys of the store are told apart, and a
page is stored before the stamps of the purges since its lookup have expired (`Step.stored`);
a store that came later would not be refused. -/
theorem hit_provenance (hsha : Digests cache.sha256 (keysOf localeLe urls))
    (hapart : ∀ k ∈ keysOf localeLe urls, k ++ ":tags" ∈ keysOf localeLe urls →
      isReadableKey (k ++ ":tags") = false)
    {s : Front σ} (hr : Reachable cache localeLe urls s) {url : SiteUrl} (hurl : url ∈ urls)
    {method : String} {answer : Option Reply} {server : Server String Payload}
    (hit : onRequest cache localeLe method url s.cache.server = (.answered answer, server)) :
    method = "GET" ∧ server = s.cache.server.expire ∧
      ∃ k, FromKept cache localeLe s url answer k := by
  have hd := keysDistinct_keysOf hsha hapart
  have hmethod : method = "GET" := by
    by_contra hne
    rw [onRequest, if_pos hne] at hit
    cases hit
  subst hmethod
  have hinv := hr.inv hd
  refine ⟨rfl, ?_, hinv.fromKept hd hurl hit⟩
  obtain ⟨page, at_, hlookup, -⟩ := onRequest_answered hit
  rw [(hinv.reaches.inv hd).keys.typed.lookup ⟨url, hurl, rfl⟩] at hlookup
  exact (Prod.mk.inj hlookup).2.symm

end Invariant

/-! ### A page, rendered once and asked for twice -/

def homeUrl : SiteUrl := ⟨"/en", [], rfl, by decide⟩

def homeResponse : RouteResponse where
  status := 200
  headers := { entries := [("cdn-cache-control", "public, max-age=3600"),
    ("content-type", "text/html")] }
  body := "<html>"

theorem withTagCollection_home : withTagCollection [["list:post:en"]] = ["list:post:en"] := by
  rw [withTagCollection, show [["list:post:en"]].foldl
    (fun current tags => (collectTags current tags).2) [] = ["list:post:en"] by decide,
    List.mergeSort_singleton]

def homePage : Page Unit where
  source := ()
  response := homeResponse
  calls := [["list:post:en"]]
  tags := ["list:post:en"]
  kept := by
    rw [withTagCollection_home]
    decide

/-- The home page was asked for, and rendered a second later. -/
def homeRendered : Front Unit :=
  let asked := (Front.start 1000).get cacheOfDefaults (fun _ _ => true) homeUrl
  { asked with
    cache := asked.cache.tick 1000
    asked := [⟨homeUrl, 1000, some homePage⟩] }

def homeStored : Front Unit :=
  homeRendered.store cacheOfDefaults (fun _ _ => true) homeUrl 1000 homePage []

theorem homeStored_hit : (onRequest cacheOfDefaults (fun _ _ => true) "GET" homeUrl
    homeStored.cache.server).1 =
      .answered (some ⟨200, [("content-type", "text/html"), ("x-cache", "HIT")], "<html>"⟩) := by
  have hkey : cacheKeyFor (fun _ _ => true) homeUrl = "/en" := cacheKeyFor_nil rfl
  simp only [homeStored, homeRendered, Front.get, Front.store, System.lookup, System.store,
    System.tick, Cache.store, onRequest, homePage, uniqueSorted_singleton, hkey]
  decide

theorem keysOf_home : keysOf (fun _ _ => true) {homeUrl} = {"/en"} := by
  ext key
  constructor
  · rintro ⟨url, rfl, rfl⟩
    exact cacheKeyFor_nil rfl
  · rintro rfl
    exact ⟨homeUrl, rfl, cacheKeyFor_nil rfl⟩

theorem homeStored_reachable :
    Reachable cacheOfDefaults (fun _ _ => true) {homeUrl} homeStored := by
  have hkey : cacheKeyFor (fun _ _ => true) homeUrl = "/en" := cacheKeyFor_nil rfl
  have hasked : ((Front.start 1000 : Front Unit).get cacheOfDefaults (fun _ _ => true)
      homeUrl).asked = [⟨homeUrl, 1000, none⟩] := by
    simp only [Front.get, onRequest, hkey]
    rfl
  have hclock : homeRendered.cache.server.clock < 1000 + 900 * 1000 := by
    simp only [homeRendered, Front.get, System.lookup, System.tick, hkey]
    decide
  have hstart : Reachable cacheOfDefaults (fun _ _ => true) {homeUrl}
      (Front.start 1000 : Front Unit) :=
    .start 1000
  have hticked := (hstart.step (.get _ homeUrl (Set.mem_singleton _))).step (.tick _ 1000)
  have hrendered : Reachable cacheOfDefaults (fun _ _ => true) {homeUrl} homeRendered :=
    hticked.step (.rendered _ [] [] homeUrl 1000 homePage hasked)
  exact hrendered.step (.stored _ [] [] homeUrl 1000 homePage rfl hclock)

theorem hit_provenance_home : ∃ k, FromKept cacheOfDefaults (fun _ _ => true) homeStored homeUrl
    (some ⟨200, [("content-type", "text/html"), ("x-cache", "HIT")], "<html>"⟩) k := by
  have hpages : ∀ k ∈ keysOf (fun _ _ => true) {homeUrl}, k = "/en" := fun k hk => by
    rw [keysOf_home] at hk
    exact hk
  refine (hit_provenance ⟨fun k hk k' hk' _ => ?_, fun k hk => ?_⟩ (fun k hk hlist => ?_)
    homeStored_reachable rfl (Prod.ext homeStored_hit rfl)).2.2
  · rw [hpages k hk, hpages k' hk']
  · rw [hpages k hk]
    decide
  · rw [hpages k hk] at hlist
    exact absurd (hpages _ hlist) (by decide)

end PressLabz.CacheProvider
