import PressLabz.PageCacheEffects
import PressLabz.RequestKeys

/-! # Where the families of keys meet

The four families of `packages/cache/src/store.ts` over the keys `cacheKeyFor`
makes.  Their prefixes keep pages, tags and stamps apart.  A page and a tag list
share theirs, and the tag list of a page is the page's key with `:tags` after it,
which is a path somebody may ask for: the alphabet of readable keys has a colon.

`familiesApart_iff` says that this is the only way two keys meet, and that while
nobody asks for such a path every script of every run finds strings where it wants
strings and sets where it wants sets.
-/
namespace PressLabz.PageCache
open Valkey

variable {cache : Cache} {pages : Set String}

/-! ## Keys of pages -/

/-- What `cacheKeyFor` returns begins with the slash of the path. -/
theorem cacheKeyFor_rooted (localeLe : String → String → Bool) (u : SiteUrl) :
    (cacheKeyFor localeLe u).toList.head? = some '/' := by
  by_cases h : u.params = []
  · rw [cacheKeyFor_nil h]
    exact u.rooted
  · rw [cacheKeyFor_toList h, List.head?_append, u.rooted]
    rfl

/-- What is known of SHA-256: no two keys in use have the same digest, and a digest
in hexadecimal holds no colon. -/
structure Digests (sha256 : String → String) (pages : Set String) : Prop where
  injOn : ∀ k ∈ pages, ∀ k' ∈ pages, sha256 k = sha256 k' → k = k'
  hex : ∀ k ∈ pages, ':' ∉ (sha256 k).toList

theorem pageKeyFor_readable {sha256 : String → String} {key : String}
    (h : isReadableKey key = true) : pageKeyFor sha256 key = key := if_pos h

theorem pageKeyFor_hashed {sha256 : String → String} {key : String}
    (h : isReadableKey key = false) : pageKeyFor sha256 key = "sha256:" ++ sha256 key :=
  if_neg (by simp [h])

/-- A path is not a digest. -/
theorem rooted_ne_hashed {key digest : String} (h : key.toList.head? = some '/') :
    key ≠ "sha256:" ++ digest := by
  rintro rfl
  simp at h

/-- **Pages with different keys are stored under different keys.** -/
theorem pageKeyFor_inj {sha256 : String → String} (hsha : Digests sha256 pages)
    (hpages : ∀ k ∈ pages, k.toList.head? = some '/') {k k' : String} (hk : k ∈ pages)
    (hk' : k' ∈ pages) (h : pageKeyFor sha256 k = pageKeyFor sha256 k') : k = k' := by
  cases hr : isReadableKey k with
  | true =>
    rw [pageKeyFor_readable hr] at h
    cases hr' : isReadableKey k' with
    | true => rwa [pageKeyFor_readable hr'] at h
    | false =>
      rw [pageKeyFor_hashed hr'] at h
      exact absurd h (rooted_ne_hashed (hpages k hk))
  | false =>
    rw [pageKeyFor_hashed hr] at h
    cases hr' : isReadableKey k' with
    | true =>
      rw [pageKeyFor_readable hr'] at h
      exact absurd h.symm (rooted_ne_hashed (hpages k' hk'))
    | false =>
      rw [pageKeyFor_hashed hr', String.append_right_inj] at h
      exact hsha.injOn k hk k' hk' h

/-- A page's key is another's tag list only where its path says so. -/
theorem pageKeyFor_tagList {sha256 : String → String} (hsha : Digests sha256 pages)
    (hpages : ∀ k ∈ pages, k.toList.head? = some '/') {k k' : String} (hk : k ∈ pages)
    (hk' : k' ∈ pages) (h : pageKeyFor sha256 k = tagListOf (pageKeyFor sha256 k')) :
    isReadableKey k = true ∧ k = k' ++ ":tags" := by
  rw [tagListOf] at h
  cases hr : isReadableKey k with
  | true =>
    rw [pageKeyFor_readable hr] at h
    cases hr' : isReadableKey k' with
    | true => exact ⟨rfl, by rwa [pageKeyFor_readable hr'] at h⟩
    | false =>
      rw [pageKeyFor_hashed hr', String.append_assoc] at h
      exact absurd h (rooted_ne_hashed (hpages k hk))
  | false =>
    rw [pageKeyFor_hashed hr] at h
    cases hr' : isReadableKey k' with
    | true =>
      rw [pageKeyFor_readable hr'] at h
      have hhead := congrArg (fun s => s.toList.head?) h
      simp [List.head?_append, hpages k' hk'] at hhead
    | false =>
      rw [pageKeyFor_hashed hr', String.append_assoc, String.append_right_inj] at h
      refine absurd ?_ (hsha.hex k hk)
      rw [h]
      simp

/-- The tag list of a readable page is the page of a readable path. -/
theorem tagList_page {sha256 : String → String} {k : String} (hk : k.toList.head? = some '/')
    (hr : isReadableKey (k ++ ":tags") = true) :
    pageKeyFor sha256 (k ++ ":tags") = tagListOf (pageKeyFor sha256 k) := by
  have hreadable : isReadableKey k = true := by
    rw [isReadableKey, Bool.and_eq_true, decide_eq_true_eq] at hr ⊢
    obtain ⟨⟨-, hle⟩, hall⟩ := hr
    rw [String.toList_append, List.all_append, Bool.and_eq_true] at hall
    refine ⟨⟨?_, ?_⟩, hall.1⟩
    · rw [← String.length_toList]
      exact List.length_pos_of_ne_nil fun hnil => by simp [hnil] at hk
    · rw [String.length_append] at hle
      omega
  rw [pageKeyFor_readable hr, pageKeyFor_readable hreadable, tagListOf]

/-! ## Scripts over the keys -/

/-- The servers a cache reaches while these pages are asked for: any lookups, stores
and purges, in any order. -/
inductive Served (cache : Cache) (pages : Set String) : Server String Payload → Prop
  | start (clock : Nat) : Served cache pages ⟨clock, fun _ => none⟩
  | tick {s : Server String Payload} (ms : Nat) : Served cache pages s →
      Served cache pages { s with clock := s.clock + ms }
  | lookup {s : Server String Payload} {key : String} : Served cache pages s → key ∈ pages →
      Served cache pages (cache.lookup key s).2
  | store {s : Server String Payload} {key : String} (page : CachedPage) (tags : List String)
      (renderedFrom : Nat) : Served cache pages s → key ∈ pages →
      Served cache pages (cache.store key page tags renderedFrom s).2
  | purge {s : Server String Payload} (tags : List String) : Served cache pages s →
      Served cache pages (cache.purgeTags tags s).2

/-- A command that was refused for the kind of its key. -/
def wrongTyped {α : Type} : Except CacheError α → Bool
  | .error (.script .wrongType) => true
  | _ => false

/-- The families are apart: no two keys of theirs are one, and no script finds a set
where it wants a string, or a string where it wants a set. -/
structure FamiliesApart (cache : Cache) (pages : Set String) : Prop where
  distinct : KeysDistinct cache pages
  lookup : ∀ s, Served cache pages s → ∀ key ∈ pages, wrongTyped (cache.lookup key s).1 = false
  store : ∀ s, Served cache pages s → ∀ key ∈ pages, ∀ page tags renderedFrom,
    wrongTyped (cache.store key page tags renderedFrom s).1 = false
  purge : ∀ s, Served cache pages s → ∀ tags, wrongTyped (cache.purgeTags tags s).1 = false

/-- A store throws at a tag, or runs to its end. -/
theorem Typed.store_cases (hd : KeysDistinct cache pages) {s : Server String Payload}
    (ht : Typed cache pages s.keys) {key : String} (hk : key ∈ pages) (page : CachedPage)
    (tags : List String) (renderedFrom : Nat) :
    (∃ tag, cache.store key page tags renderedFrom s = (.error (.notATag tag), s)) ∨
    ∃ written, (cache.store key page tags renderedFrom s).1 = .ok written ∧
      Typed cache pages (cache.store key page tags renderedFrom s).2.keys := by
  cases hm : (uniqueSorted tags).mapM assertTag with
  | error e =>
    obtain ⟨tag, rfl⟩ := mapM_assertTag_error hm
    exact .inl ⟨tag, by rw [Cache.store, hm]⟩
  | ok tags' =>
    obtain rfl := mapM_assertTag hm
    refine .inr ?_
    rw [ht.store hd hk hm]
    split
    · exact ⟨false, rfl, ht.expire⟩
    · exact ⟨true, rfl, ht.expire.storedKeys hd hk⟩

/-- **Every server of a run** holds in each family what the family holds. -/
theorem Served.typed (hd : KeysDistinct cache pages) {s : Server String Payload}
    (h : Served cache pages s) : Typed cache pages s.keys := by
  induction h with
  | start clock => exact fun _ _ _ he => by cases he
  | tick ms _ ih => exact ih
  | lookup _ hk ih =>
    rw [ih.lookup hk]
    exact ih.expire
  | store page tags renderedFrom _ hk ih =>
    rcases ih.store_cases hd hk page tags renderedFrom with ⟨tag, he⟩ | ⟨-, -, ht⟩
    · rw [he]
      exact ih
    · exact ht
  | purge tags _ ih =>
    rcases ih.purgeTags hd tags with ⟨tag, he⟩ | ⟨-, he⟩ | ⟨removed, -, he⟩
    · rw [he]
      exact ih
    · rw [he]
      exact ih
    · rw [he]
      exact ih.expire.purgedAll hd _ _

/-- Keys that are distinct keep the families apart in every run. -/
theorem KeysDistinct.familiesApart (hd : KeysDistinct cache pages) :
    FamiliesApart cache pages where
  distinct := hd
  lookup s hs key hk := by
    rw [(hs.typed hd).lookup hk]
    rfl
  store s hs key hk page tags renderedFrom := by
    rcases (hs.typed hd).store_cases hd hk page tags renderedFrom with ⟨tag, he⟩ | ⟨w, hw, -⟩
    · rw [he]
      rfl
    · rw [hw]
      rfl
  purge s hs tags := by
    rcases (hs.typed hd).purgeTags hd tags with ⟨tag, he⟩ | ⟨-, he⟩ | ⟨removed, -, he⟩
    · rw [he]
      rfl
    · rw [he]
      rfl
    · rw [he]
      rfl

/-- **When the families are apart**: as long as of no two paths that are asked for one
is the other with `:tags` after it, short enough to be readable. -/
theorem familiesApart_iff (hsha : Digests cache.sha256 pages)
    (hpages : ∀ k ∈ pages, k.toList.head? = some '/') :
    FamiliesApart cache pages ↔
      ∀ k ∈ pages, k ++ ":tags" ∈ pages → isReadableKey (k ++ ":tags") = false := by
  constructor
  · intro h k hk hlist
    cases hr : isReadableKey (k ++ ":tags") with
    | false => rfl
    | true =>
      have heq : cache.keyOf (.page (k ++ ":tags")) = cache.keyOf (.tagList k) := by
        show cache.pageKey _ = tagListOf (cache.pageKey k)
        rw [Cache.pageKey, Cache.pageKey, tagList_page (hpages k hk) hr, tagListOf, tagListOf,
          String.append_assoc, String.append_assoc, String.append_assoc]
      cases h.distinct (.page (k ++ ":tags")) (.tagList k) hlist hk heq
  · intro h
    refine KeysDistinct.familiesApart (keysDistinct_of
      (fun k hk k' hk' => pageKeyFor_inj hsha hpages hk hk') fun k hk k' hk' heq => ?_)
    obtain ⟨hr, rfl⟩ := pageKeyFor_tagList hsha hpages hk hk' heq
    rw [h k' hk' hk] at hr
    cases hr

/-- The default cache, with the digests of the paths below. -/
def blogCache : Cache where
  options := cacheOfDefaults.options
  sha256 key :=
    if key = "/en/blog" then
      "c28d2f649aa5b3202111fc857b8f31b57367a35612a972834b75dadd823676b4"
    else if key = "/en/blog/hello" then
      "b19e22f05c26b8ba2d7973aea874e4db9493b0b1b4c84e46fc7b3cb92e9c3f19"
    else
      "990bbea9fab591b8e1bd2eebdbb622eb8c5599e0ea42f211d1d48ac272714f04"

theorem familiesApart_blog : FamiliesApart blogCache {"/en/blog", "/en/blog/hello"} := by
  have hpages : ∀ k ∈ ({"/en/blog", "/en/blog/hello"} : Set String),
      k = "/en/blog" ∨ k = "/en/blog/hello" := fun k hk => hk
  refine (familiesApart_iff ⟨fun k hk k' hk' h => ?_, fun k hk => ?_⟩ ?_).mpr ?_
  · rcases hpages k hk with rfl | rfl <;> rcases hpages k' hk' with rfl | rfl
    · rfl
    · exact absurd h (by decide)
    · exact absurd h (by decide)
    · rfl
  · rcases hpages k hk with rfl | rfl
    · decide
    · decide
  · intro k hk
    rcases hpages k hk with rfl | rfl
    · rfl
    · rfl
  · intro k hk hlist
    rcases hpages k hk with rfl | rfl <;> rcases hpages _ hlist with h | h <;>
      exact absurd h (by decide)

/-! ### A path that is another page's tag list -/

/-- The blog is stored, and a request for its tag list is refused. -/
theorem lookup_tagList_wrongTyped : wrongTyped (blogCache.lookup "/en/blog:tags"
    (blogCache.store "/en/blog" ⟨"<html>", 200, []⟩ ["list:post:en"] 1000
      ⟨1000, fun _ => none⟩).2).1 = true := by
  simp only [Cache.store, uniqueSorted_singleton]
  decide

theorem not_familiesApart : ¬ ∀ (cache : Cache) (pages : Set String),
    Digests cache.sha256 pages → (∀ k ∈ pages, k.toList.head? = some '/') →
    FamiliesApart cache pages := by
  intro h
  have hpages : ∀ k ∈ ({"/en/blog", "/en/blog:tags"} : Set String),
      k = "/en/blog" ∨ k = "/en/blog:tags" := fun k hk => hk
  have happart := h blogCache {"/en/blog", "/en/blog:tags"}
    ⟨fun k hk k' hk' heq => ?_, fun k hk => ?_⟩ ?_
  · have hserved : Served blogCache {"/en/blog", "/en/blog:tags"}
        (blogCache.store "/en/blog" ⟨"<html>", 200, []⟩ ["list:post:en"] 1000
          ⟨1000, fun _ => none⟩).2 :=
      (Served.start 1000).store _ _ _ (Or.inl rfl)
    have hno := happart.lookup _ hserved "/en/blog:tags" (Or.inr rfl)
    rw [lookup_tagList_wrongTyped] at hno
    cases hno
  · rcases hpages k hk with rfl | rfl <;> rcases hpages k' hk' with rfl | rfl
    · rfl
    · exact absurd heq (by decide)
    · exact absurd heq (by decide)
    · rfl
  · rcases hpages k hk with rfl | rfl
    · decide
    · decide
  · intro k hk
    rcases hpages k hk with rfl | rfl
    · rfl
    · rfl

end PressLabz.PageCache
