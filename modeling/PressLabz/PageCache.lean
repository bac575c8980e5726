import Mathlib.Data.List.Dedup
import PressLabz.Valkey

/-! # The page cache

`packages/cache/src/store.ts` and the tag vocabulary of `tags.ts`: the key
layout, the three scripts, and the cache the site and the API share.

A string stored by this cache is either a page, written as JSON, or the decimal
clock of a purge; `Payload` keeps the two apart instead of their text, so that
`JSON.parse` and `tonumber` are the projections.  The SHA-256 digest of a key
that is not readable is the parameter `sha256`.
-/
namespace PressLabz.PageCache
open Valkey

/-! ## Tags -/

/-- `[a-z][a-z0-9-]*`, the namespace of a tag. -/
def isTagNamespace : List Char → Bool
  | [] => false
  | c :: rest => c.isLower && rest.all fun d => d.isLower || d.isDigit || d == '-'

/-- `[A-Za-z0-9:_-]`. -/
def isTagChar (c : Char) : Bool := c.isAlphanum || c == ':' || c == '_' || c == '-'

/-- `TAG_PATTERN.test`.  A namespace holds no colon, so the first one ends it. -/
def isTag (value : String) : Bool :=
  match value.toList.span (· ≠ ':') with
  | (ns, _ :: rest) =>
    isTagNamespace ns && decide (1 ≤ rest.length ∧ rest.length ≤ 192) && rest.all isTagChar
  | (_, []) => false

/-- Why a call to the cache throws. -/
inductive CacheError where
  | notATag (tag : String)
  | script (failure : Failure)
  deriving DecidableEq

/-- Refuses rather than sanitises. -/
def assertTag (tag : String) : Except CacheError String :=
  if isTag tag then .ok tag else .error (.notATag tag)

/-! ## Pages and options -/

structure CachedPage where
  body : String
  status : Nat
  headers : List (String × String)
  deriving DecidableEq

/-- A page and Valkey's clock when its render began. -/
structure StoredPage extends CachedPage where
  storedAt : Nat
  deriving DecidableEq

/-- The strings this cache writes: the JSON of a page, or the clock of a purge. -/
inductive Payload where
  | page (stored : StoredPage)
  | stamp (ms : Nat)
  deriving DecidableEq

/-- `at` is Valkey's clock at the lookup. -/
inductive PageLookup where
  | hit (page : CachedPage) (at_ : Nat)
  | miss (at_ : Nat)
  deriving DecidableEq

/-- The options of one installation.  Valkey refuses a time to live of zero, and
the environment schema a `ttlSeconds` below one. -/
structure PageCacheOptions where
  namespace_ : String := "presslabz:web:"
  ttlSeconds : Nat := 60 * 60
  purgeStampTtlSeconds : Nat := 15 * 60
  ttl_pos : 0 < ttlSeconds := by decide
  stamp_pos : 0 < purgeStampTtlSeconds := by decide

/-! ## Keys -/

/-- `[A-Za-z0-9/_.:@-]`. -/
def isReadableChar (c : Char) : Bool :=
  c.isAlphanum || c ∈ ['/', '_', '.', ':', '@', '-']

/-- `READABLE_KEY.test`. -/
def isReadableKey (key : String) : Bool :=
  decide (1 ≤ key.length ∧ key.length ≤ 200) && key.toList.all isReadableChar

/-- Recognisable when it can be, hashed when it cannot. -/
def pageKeyFor (sha256 : String → String) (key : String) : String :=
  if isReadableKey key then key else "sha256:" ++ sha256 key

/-- What `createPageCache` closes over. -/
structure Cache where
  options : PageCacheOptions
  sha256 : String → String

namespace Cache
variable (cache : Cache)

/-- Tag sets outlive the pages in them, so a purge still finds the members. -/
def setTtl : Nat := cache.options.ttlSeconds + cache.options.purgeStampTtlSeconds

def pageKey (key : String) : String :=
  cache.options.namespace_ ++ "page:" ++ pageKeyFor cache.sha256 key

def tagKey (tag : String) : String := cache.options.namespace_ ++ "tag:" ++ tag

def stampKey (tag : String) : String := cache.options.namespace_ ++ "purged:" ++ tag

end Cache

/-- `TAG_LIST_SUFFIX` appended to a page key. -/
def tagListOf (pageKey : String) : String := pageKey ++ ":tags"

/-- The four families of keys the cache uses. -/
inductive CacheKey where
  | page (key : String)
  | tagList (key : String)
  | tag (tag : String)
  | purged (tag : String)
  deriving DecidableEq

/-- The Valkey key of a member of a family. -/
def Cache.keyOf (cache : Cache) : CacheKey → String
  | .page key => cache.pageKey key
  | .tagList key => tagListOf (cache.pageKey key)
  | .tag tag => cache.tagKey tag
  | .purged tag => cache.stampKey tag

/-- A cache with the default options, whose digest is the key itself. -/
def cacheOfDefaults : Cache := ⟨{}, id⟩

/-! ## Scripts -/

/-- The first loop of `STORE_LUA`: whether a tag was purged at or after the
clock the lookup returned.  `tonumber` of anything but a stamp is nil. -/
def overtaken (renderedFrom : Nat) : List (String × String) → Script String Payload Bool
  | [] => pure false
  | (_, stampKey) :: rest => do
    match ← strGet stampKey with
    | some (.stamp stamp) => if stamp ≥ renderedFrom then pure true else overtaken renderedFrom rest
    | _ => overtaken renderedFrom rest

/-- `STORE_LUA`; `pairs` is one member set and one purge stamp per tag. -/
def storeScript (pageKey tagListKey : String) (pairs : List (String × String))
    (payload : Payload) (ttl renderedFrom setTtl : Nat) : Script String Payload Nat := do
  if ← overtaken renderedFrom pairs then
    return 0
  let previous ← setMembers tagListKey
  previous.forM fun tagKey => setRemove tagKey pageKey
  let _ ← del tagListKey
  strSet pageKey payload ttl
  pairs.forM fun pair => do
    setAdd pair.1 pageKey
    expire pair.1 setTtl
    setAdd tagListKey pair.1
  expire tagListKey setTtl
  return 1

/-- The inner loop of `PURGE_LUA`: one member, out of every tag it belongs to. -/
def purgeMember (removed : Nat) (pageKey : String) : Script String Payload Nat := do
  let ownTags := tagListOf pageKey
  let tagKeys ← setMembers ownTags
  tagKeys.forM fun tagKey => setRemove tagKey pageKey
  let _ ← del ownTags
  return removed + (← del pageKey)

/-- One turn of the outer loop of `PURGE_LUA`. -/
def purgeTag (nowMs stampTtl : Nat) (removed : Nat) (pair : String × String) :
    Script String Payload Nat := do
  let members ← setMembers pair.1
  let removed ← members.foldlM purgeMember removed
  let _ ← del pair.1
  strSet pair.2 (.stamp nowMs) stampTtl
  return removed

/-- `PURGE_LUA`. -/
def purgeScript (stampTtl : Nat) (pairs : List (String × String)) : Script String Payload Nat := do
  let nowMs ← time
  pairs.foldlM (purgeTag nowMs stampTtl) 0

/-- `LOOKUP_LUA`. -/
def lookupScript (pageKey : String) : Script String Payload (Nat × Option Payload) := do
  let payload ← strGet pageKey
  let nowMs ← time
  return (nowMs, payload)

/-! ## `createPageCache` -/

/-- `[...new Set(tags)].sort()`. -/
def uniqueSorted (tags : List String) : List String := tags.dedup.mergeSort

namespace Cache
variable (cache : Cache)

/-- The member set and the stamp of each tag, in that order. -/
def tagPairs (tags : List String) : List (String × String) :=
  tags.map fun tag => (cache.tagKey tag, cache.stampKey tag)

/-- A script's answer as the client sees it: a failed command rejects. -/
def answer {α : Type} (result : Except Failure α × Server String Payload) :
    Except CacheError α × Server String Payload :=
  (result.1.mapError .script, result.2)

def lookup (key : String) (server : Server String Payload) :
    Except CacheError PageLookup × Server String Payload :=
  let (result, server') := answer ((lookupScript (cache.pageKey key)).eval server)
  (result.map fun
    | (at_, some (.page stored)) => .hit stored.toCachedPage at_
    | (at_, _) => .miss at_, server')

/-- False when a purge landed while the page was rendering. -/
def store (key : String) (page : CachedPage) (tags : List String) (renderedFrom : Nat)
    (server : Server String Payload) : Except CacheError Bool × Server String Payload :=
  match (uniqueSorted tags).mapM assertTag with
  | .error e => (.error e, server)
  | .ok tags =>
    let (written, server') := answer ((storeScript (cache.pageKey key)
      (tagListOf (cache.pageKey key)) (cache.tagPairs tags)
      (.page { page with storedAt := renderedFrom }) cache.options.ttlSeconds renderedFrom
      cache.setTtl).eval server)
    (written.map (· == 1), server')

/-- How many cached pages the purge removed. -/
def purgeTags (tags : List String) (server : Server String Payload) :
    Except CacheError Nat × Server String Payload :=
  if uniqueSorted tags = [] then (.ok 0, server)
  else
    match (uniqueSorted tags).mapM assertTag with
    | .error e => (.error e, server)
    | .ok tags =>
      answer ((purgeScript cache.options.purgeStampTtlSeconds (cache.tagPairs tags)).eval server)

end Cache

theorem mem_uniqueSorted {tag : String} {tags : List String} :
    tag ∈ uniqueSorted tags ↔ tag ∈ tags := by
  simp [uniqueSorted]

theorem uniqueSorted_singleton (tag : String) : uniqueSorted [tag] = [tag] := by
  simp [uniqueSorted]

/-- `assertTag` of a list of tags changes nothing, or throws. -/
theorem mapM_assertTag {tags tags' : List String} (h : tags.mapM assertTag = .ok tags') :
    tags' = tags := by
  induction tags generalizing tags' with
  | nil => cases h; rfl
  | cons tag rest ih =>
    rw [List.mapM_cons] at h
    by_cases ht : isTag tag
    · simp only [assertTag, ht, if_true] at h
      cases hr : rest.mapM assertTag with
      | error e => rw [hr] at h; cases h
      | ok rest' =>
        rw [hr] at h
        cases h
        rw [ih hr]
    · simp only [assertTag, ht] at h
      cases h

/-- A list of tags that is refused is refused for something that is no tag. -/
theorem mapM_assertTag_error {tags : List String} {e : CacheError}
    (h : tags.mapM assertTag = .error e) : ∃ tag, e = .notATag tag := by
  induction tags with
  | nil => cases h
  | cons tag rest ih =>
    rw [List.mapM_cons] at h
    by_cases ht : isTag tag
    · simp only [assertTag, ht, if_true] at h
      cases hr : rest.mapM assertTag with
      | error e' =>
        rw [hr] at h
        cases h
        exact ih hr
      | ok rest' =>
        rw [hr] at h
        cases h
    · simp only [assertTag, ht] at h
      cases h
      exact ⟨tag, rfl⟩

/-- A list of tags passes as it is. -/
theorem mapM_assertTag_of_isTag {tags : List String} (h : ∀ tag ∈ tags, isTag tag = true) :
    tags.mapM assertTag = .ok tags := by
  induction tags with
  | nil => rfl
  | cons tag rest ih =>
    rw [List.mapM_cons, ih fun t ht => h t (List.mem_cons_of_mem _ ht), assertTag,
      if_pos (h tag List.mem_cons_self)]
    rfl

example : isTag "content:3f1c" = true := by decide
example : isTag "content" = false := by decide

end PressLabz.PageCache
