import PressLabz.PageCacheEffects

/-! # The index of the page cache

The tag sets and the tag lists of `packages/cache/src/store.ts` record one relation
twice: which stored pages carry which tags.  `index_exact` says that the two records
agree after any stores and purges, and that a purge goes by them: it takes the pages
that carry one of its tags, and nothing else.

Nothing expires here (`persist`), so a script does one of three things to a page: it
leaves it alone (`SameAt`), takes it away (`GoneAt`) or files it under its tags
(`FiledAt`).
-/
namespace PressLabz.PageCache
open Valkey

/-! ## A cache in which nothing expires -/

/-- The server with every expiry dropped. -/
def persist (s : Server String Payload) : Server String Payload :=
  { s with keys := fun k => (s.keys k).map fun e => { e with expiresAt := none } }

/-- No key has an expiry. -/
def Lasting (s : Server String Payload) : Prop :=
  ∀ k e, s.keys k = some e → e.expiresAt = none

theorem persist_lasting (s : Server String Payload) : Lasting (persist s) := by
  intro k e he
  obtain ⟨e', -, rfl⟩ := Option.map_eq_some_iff.mp he
  rfl

/-- A server without expiries has nothing to forget. -/
theorem Lasting.expire {s : Server String Payload} (h : Lasting s) : s.expire = s := by
  have hkeys : s.expire.keys = s.keys := by
    funext k
    cases hk : s.keys k with
    | none => simp [Server.expire, hk]
    | some e => exact s.expire_keys.mpr ⟨hk, by rw [Entry.aliveAt, h k e hk]⟩
  show (⟨s.clock, s.expire.keys⟩ : Server String Payload) = s
  rw [hkeys]

/-- The tags each page was last stored under, once a store has answered. -/
def lastStored (key : String) (tags : List String) (answer : Except CacheError Bool)
    (last : String → List String) : String → List String :=
  match answer with
  | .ok true => Function.update last key tags
  | _ => last

/-- Any stores and purges, with the tags each page was last stored under. -/
inductive Indexed (cache : Cache) (pages : Set String) :
    Server String Payload → (String → List String) → Prop
  | start (clock : Nat) : Indexed cache pages ⟨clock, fun _ => none⟩ fun _ => []
  | tick {s : Server String Payload} {last : String → List String} (ms : Nat) :
      Indexed cache pages s last → Indexed cache pages { s with clock := s.clock + ms } last
  | store {s : Server String Payload} {last : String → List String} {key : String}
      (page : CachedPage) (tags : List String) (renderedFrom : Nat) :
      Indexed cache pages s last → key ∈ pages →
      Indexed cache pages (persist (cache.store key page tags renderedFrom s).2)
        (lastStored key tags (cache.store key page tags renderedFrom s).1 last)
  | purge {s : Server String Payload} {last : String → List String} (tags : List String) :
      Indexed cache pages s last → Indexed cache pages (persist (cache.purgeTags tags s).2) last

/-! ## The index -/

section Index
variable (cache : Cache) (keys keys' : Keyspace String Payload)

/-- The keys of the pages filed under a tag. -/
def tagSet (tag : String) : List String := Entry.members (keys (cache.tagKey tag))

/-- The keys of the tags a page is filed under. -/
def tagList (key : String) : List String := Entry.members (keys (tagListOf (cache.pageKey key)))

/-- Whether there is an entry for the page. -/
def isStored (key : String) : Bool := (keys (cache.pageKey key)).isSome

/-- The entry of a page, its tag list and its places in the tag sets are as they were. -/
structure SameAt (key : String) : Prop where
  page : keys' (cache.pageKey key) = keys (cache.pageKey key)
  list : keys' (tagListOf (cache.pageKey key)) = keys (tagListOf (cache.pageKey key))
  sets : ∀ tag, cache.pageKey key ∈ tagSet cache keys' tag ↔
    cache.pageKey key ∈ tagSet cache keys tag

/-- A page has left no trace: no entry, no tag list, no place in a tag set. -/
structure GoneAt (key : String) : Prop where
  page : isStored cache keys key = false
  list : tagList cache keys key = []
  sets : ∀ tag, cache.pageKey key ∉ tagSet cache keys tag

/-- A page is there, filed under these tags in both directions. -/
structure FiledAt (tags : List String) (key : String) : Prop where
  page : isStored cache keys key = true
  list : ∀ x, x ∈ tagList cache keys key ↔ ∃ tag ∈ tags, x = cache.tagKey tag
  sets : ∀ tag, cache.pageKey key ∈ tagSet cache keys tag ↔ tag ∈ tags

/-- What a purge of `tags` does to a server whose pages were last stored under `last`. -/
structure PurgesExactly (pages : Set String) (last : String → List String)
    (s : Server String Payload) (tags : List String) : Prop where
  answers : (∀ tag ∈ tags, isTag tag = true) → ∃ n, (cache.purgeTags tags s).1 = .ok n
  /-- A purge throws at what is no tag before it sends anything. -/
  refused : ∀ e, (cache.purgeTags tags s).1 = .error e → (cache.purgeTags tags s).2 = s
  removed : ∀ n, (cache.purgeTags tags s).1 = .ok n → ∀ key ∈ pages,
    isStored cache s.keys key = true → (∃ tag ∈ tags, tag ∈ last key) →
    GoneAt cache (cache.purgeTags tags s).2.keys key
  kept : ∀ n, (cache.purgeTags tags s).1 = .ok n → ∀ key ∈ pages,
    ¬ (isStored cache s.keys key = true ∧ ∃ tag ∈ tags, tag ∈ last key) →
    SameAt cache s.keys (cache.purgeTags tags s).2.keys key
  counted : ∀ n, (cache.purgeTags tags s).1 = .ok n →
    {key | key ∈ pages ∧ isStored cache s.keys key = true ∧
      ∃ tag ∈ tags, tag ∈ last key}.encard = n

/-- The index of every page is what its last store made it, or there is none. -/
structure IndexInv (pages : Set String) (last : String → List String) : Prop where
  typed : Typed cache pages keys
  at_ : ∀ key ∈ pages, GoneAt cache keys key ∨ FiledAt cache keys (last key) key

end Index

variable {cache : Cache} {pages : Set String} {keys keys' keys'' : Keyspace String Payload}
  {last : String → List String} {key : String}

theorem SameAt.refl : SameAt cache keys keys key := ⟨rfl, rfl, fun _ => Iff.rfl⟩

theorem SameAt.trans (h : SameAt cache keys keys' key) (h' : SameAt cache keys' keys'' key) :
    SameAt cache keys keys'' key where
  page := h'.page.trans h.page
  list := h'.list.trans h.list
  sets tag := (h'.sets tag).trans (h.sets tag)

theorem SameAt.isStored (h : SameAt cache keys keys' key) :
    isStored cache keys' key = PageCache.isStored cache keys key := by
  rw [PageCache.isStored, h.page, PageCache.isStored]

theorem SameAt.tagList (h : SameAt cache keys keys' key) :
    tagList cache keys' key = PageCache.tagList cache keys key := by
  rw [PageCache.tagList, h.list, PageCache.tagList]

theorem SameAt.gone (h : SameAt cache keys keys' key) (hgone : GoneAt cache keys key) :
    GoneAt cache keys' key where
  page := h.isStored.trans hgone.page
  list := h.tagList.trans hgone.list
  sets tag hmem := hgone.sets tag ((h.sets tag).mp hmem)

theorem SameAt.filed {tags : List String} (h : SameAt cache keys keys' key)
    (hfiled : FiledAt cache keys tags key) : FiledAt cache keys' tags key where
  page := h.isStored.trans hfiled.page
  list x := by rw [h.tagList, hfiled.list]
  sets tag := (h.sets tag).trans (hfiled.sets tag)

theorem SameAt.index (h : SameAt cache keys keys' key) {tags : List String}
    (hindex : GoneAt cache keys key ∨ FiledAt cache keys tags key) :
    GoneAt cache keys' key ∨ FiledAt cache keys' tags key :=
  hindex.imp h.gone h.filed

/-- The tag sets and the tag list of a page say the same of it. -/
theorem IndexInv.mirrored (hd : KeysDistinct cache pages) (h : IndexInv cache keys pages last)
    (hk : key ∈ pages) (tag : String) :
    cache.pageKey key ∈ tagSet cache keys tag ↔ cache.tagKey tag ∈ tagList cache keys key := by
  rcases h.at_ key hk with hgone | hfiled
  · refine iff_of_false (hgone.sets tag) ?_
    rw [hgone.list]
    exact List.not_mem_nil
  · rw [hfiled.sets, hfiled.list]
    constructor
    · exact fun hmem => ⟨tag, hmem, rfl⟩
    · rintro ⟨tag', hmem, heq⟩
      rwa [hd.tagKey_inj heq]

/-- A page is filed under a tag when it is stored and the tag is one of its last. -/
theorem IndexInv.mem_tagSet (h : IndexInv cache keys pages last) (hk : key ∈ pages)
    (tag : String) : cache.pageKey key ∈ tagSet cache keys tag ↔
      isStored cache keys key = true ∧ tag ∈ last key := by
  rcases h.at_ key hk with hgone | hfiled
  · refine iff_of_false (hgone.sets tag) ?_
    rw [hgone.page]
    exact fun hstored => Bool.false_ne_true hstored.1
  · rw [hfiled.sets]
    exact (and_iff_right hfiled.page).symm

/-! ## A page taken away -/

theorem mem_unlinked {pageKey k x : String} {tagKeys : List String} :
    x ∈ Entry.members (unlinked pageKey tagKeys keys k) ↔
      x ∈ Entry.members (keys k) ∧ (k ∈ tagKeys → x ≠ pageKey) := by
  by_cases hk : k ∈ tagKeys
  · rw [unlinked, if_pos hk, mem_withoutMember]
    exact and_congr_right fun _ => ⟨fun h _ => h, fun h => h hk⟩
  · rw [unlinked_of_notMem hk]
    exact (and_iff_left fun h => absurd h hk).symm

/-- Nothing is left of a page that is forgotten: every set it is in is on its list. -/
theorem IndexInv.gone_of_forgotten (hd : KeysDistinct cache pages)
    (h : IndexInv cache keys pages last) (hk : key ∈ pages) :
    GoneAt cache (forgotten keys (cache.pageKey key)) key where
  page := by rw [isStored, forgotten_page hd h.typed hk hk, if_pos rfl]; rfl
  list := by
    rw [tagList, forgotten, Function.update_of_ne (hd.page_ne_tagList hk hk).symm,
      Function.update_self, Entry.members_none]
  sets tag hmem := by
    rw [tagSet, forgotten, Function.update_of_ne (hd.page_ne_tag hk tag).symm,
      Function.update_of_ne (hd.tagList_ne_tag hk tag).symm, mem_unlinked] at hmem
    exact hmem.2 ((h.mirrored hd hk tag).mp hmem.1) rfl

/-- A page that is forgotten leaves the other pages as they were. -/
theorem same_of_forgotten (hd : KeysDistinct cache pages) (ht : Typed cache pages keys)
    {key' : String} (hk : key ∈ pages) (hk' : key' ∈ pages) (hne : key' ≠ key) :
    SameAt cache keys (forgotten keys (cache.pageKey key)) key' where
  page := by rw [forgotten_page hd ht hk hk', if_neg hne]
  list := by
    rw [forgotten, Function.update_of_ne (hd.page_ne_tagList hk hk').symm,
      Function.update_of_ne (hd.tagList_ne_tagList hk' hk hne),
      unlinked_of_notMem (ht.tagList_notMem_tagList hd hk hk')]
  sets tag := by
    rw [tagSet, forgotten, Function.update_of_ne (hd.page_ne_tag hk tag).symm,
      Function.update_of_ne (hd.tagList_ne_tag hk tag).symm, mem_unlinked]
    exact and_iff_left fun _ => hd.page_ne_page hk' hk hne

theorem IndexInv.forgotten (hd : KeysDistinct cache pages) (h : IndexInv cache keys pages last)
    (hk : key ∈ pages) : IndexInv cache (forgotten keys (cache.pageKey key)) pages last where
  typed := h.typed.forgotten hd hk
  at_ key' hk' := by
    by_cases hne : key' = key
    · subst key'
      exact .inl (h.gone_of_forgotten hd hk)
    · exact (same_of_forgotten hd h.typed hk hk' hne).index (h.at_ key' hk')

/-- Nothing is left of the pages of a list that are forgotten, and the other pages are as
they were. -/
theorem IndexInv.allForgotten_at (hd : KeysDistinct cache pages)
    (h : IndexInv cache keys pages last) {pageKeys : List String}
    (hp : ∀ x ∈ pageKeys, ∃ key ∈ pages, x = cache.pageKey key) (hk : key ∈ pages) :
    (cache.pageKey key ∈ pageKeys → GoneAt cache (allForgotten pageKeys keys) key) ∧
    (cache.pageKey key ∉ pageKeys → SameAt cache keys (allForgotten pageKeys keys) key) := by
  induction pageKeys generalizing keys with
  | nil => exact ⟨fun hmem => absurd hmem List.not_mem_nil, fun _ => SameAt.refl⟩
  | cons a rest ih =>
    obtain ⟨key', hk', rfl⟩ := hp a List.mem_cons_self
    obtain ⟨hgone, hsame⟩ := ih (h.forgotten hd hk') fun x hx => hp x (List.mem_cons_of_mem _ hx)
    constructor
    · intro hmem
      by_cases hrest : cache.pageKey key ∈ rest
      · exact hgone hrest
      · -- The page is the first of the list, and not forgotten again.
        have heq := (List.mem_cons.mp hmem).resolve_right hrest
        obtain rfl := CacheKey.page.inj (hd (.page key) (.page key') hk hk' heq)
        exact (hsame hrest).gone (h.gone_of_forgotten hd hk)
    · intro hnot
      have hne : key ≠ key' := fun heq => hnot (heq ▸ List.mem_cons_self)
      exact (same_of_forgotten hd h.typed hk' hk hne).trans
        (hsame fun hrest => hnot (List.mem_cons_of_mem _ hrest))

/-- A purge of one tag takes the pages filed under it. -/
theorem IndexInv.purgedKeys_at (hd : KeysDistinct cache pages)
    (h : IndexInv cache keys pages last) (clock : Nat) (tag : String) (hk : key ∈ pages) :
    (cache.pageKey key ∈ tagSet cache keys tag →
      GoneAt cache (purgedKeys cache clock keys tag) key) ∧
    (cache.pageKey key ∉ tagSet cache keys tag →
      SameAt cache keys (purgedKeys cache clock keys tag) key) := by
  obtain ⟨hgone, hsame⟩ := h.allForgotten_at hd (h.typed.tag_members tag) hk
  have hpage : purgedKeys cache clock keys tag (cache.pageKey key) =
      allForgotten (tagSet cache keys tag) keys (cache.pageKey key) := by
    rw [purgedKeys, Function.update_of_ne (hd.page_ne_purged hk tag),
      Function.update_of_ne (hd.page_ne_tag hk tag), tagSet]
  have hlist : purgedKeys cache clock keys tag (tagListOf (cache.pageKey key)) =
      allForgotten (tagSet cache keys tag) keys (tagListOf (cache.pageKey key)) := by
    rw [purgedKeys, Function.update_of_ne (hd.tagList_ne_purged hk tag),
      Function.update_of_ne (hd.tagList_ne_tag hk tag), tagSet]
  have hsets (tag' : String) : cache.pageKey key ∈
      tagSet cache (purgedKeys cache clock keys tag) tag' ↔ tag' ≠ tag ∧
      cache.pageKey key ∈ tagSet cache (allForgotten (tagSet cache keys tag) keys) tag' := by
    rw [tagSet, purgedKeys, Function.update_of_ne (hd.tag_ne_purged tag' tag)]
    by_cases htag : tag' = tag
    · subst tag'
      simp
    · rw [Function.update_of_ne fun heq => htag (hd.tagKey_inj heq)]
      exact (and_iff_right htag).symm
  constructor
  · intro hmem
    exact ⟨by rw [isStored, hpage]; exact (hgone hmem).page,
      by rw [tagList, hlist]; exact (hgone hmem).list,
      fun tag' hin => (hgone hmem).sets tag' ((hsets tag').mp hin).2⟩
  · intro hnot
    refine ⟨hpage.trans (hsame hnot).page, hlist.trans (hsame hnot).list, fun tag' => ?_⟩
    rw [hsets]
    refine (and_congr_right fun _ => (hsame hnot).sets tag').trans ?_
    exact and_iff_right_of_imp fun hin htag => hnot (htag ▸ hin)

theorem IndexInv.purgedKeys (hd : KeysDistinct cache pages) (h : IndexInv cache keys pages last)
    (clock : Nat) (tag : String) :
    IndexInv cache (purgedKeys cache clock keys tag) pages last where
  typed := h.typed.purgedKeys hd
  at_ key hk := by
    obtain ⟨hgone, hsame⟩ := h.purgedKeys_at hd clock tag hk
    by_cases hmem : cache.pageKey key ∈ tagSet cache keys tag
    · exact .inl (hgone hmem)
    · exact (hsame hmem).index (h.at_ key hk)

/-- **A purge of several tags** takes the pages filed under any of them, whichever of
its tags comes to a page first. -/
theorem IndexInv.purgedAll_at (hd : KeysDistinct cache pages)
    (h : IndexInv cache keys pages last) (clock : Nat) (tags : List String) (hk : key ∈ pages) :
    ((∃ tag ∈ tags, cache.pageKey key ∈ tagSet cache keys tag) →
      GoneAt cache (tags.foldl (PageCache.purgedKeys cache clock) keys) key) ∧
    ((∀ tag ∈ tags, cache.pageKey key ∉ tagSet cache keys tag) →
      SameAt cache keys (tags.foldl (PageCache.purgedKeys cache clock) keys) key) := by
  induction tags generalizing keys with
  | nil => exact ⟨fun ⟨_, hmem, _⟩ => absurd hmem List.not_mem_nil, fun _ => SameAt.refl⟩
  | cons tag rest ih =>
    obtain ⟨hgone, hsame⟩ := h.purgedKeys_at hd clock tag hk
    obtain ⟨hgoneRest, hsameRest⟩ := ih (h.purgedKeys hd clock tag)
    constructor
    · rintro ⟨tag', htag', hmem⟩
      by_cases hfirst : cache.pageKey key ∈ tagSet cache keys tag
      · exact (hsameRest fun tag'' _ => (hgone hfirst).sets tag'').gone (hgone hfirst)
      · rcases List.mem_cons.mp htag' with rfl | hrest
        · exact absurd hmem hfirst
        · exact hgoneRest ⟨tag', hrest, ((hsame hfirst).sets tag').mpr hmem⟩
    · intro hnot
      have hsame' := hsame (hnot tag List.mem_cons_self)
      exact hsame'.trans (hsameRest fun tag' hrest hmem =>
        hnot tag' (List.mem_cons_of_mem _ hrest) ((hsame'.sets tag').mp hmem))

/-! ## A page filed -/

theorem mem_linked_tag {pageKey tagListKey k x : String} {t : Nat} {tagKeys : List String}
    (hne : k ≠ tagListKey) :
    x ∈ Entry.members (linked pageKey tagListKey t tagKeys keys k) ↔
      x ∈ Entry.members (keys k) ∨ k ∈ tagKeys ∧ x = pageKey := by
  induction tagKeys generalizing keys with
  | nil => simp [linked]
  | cons a rest ih =>
    rw [linked, ih, Function.update_of_ne hne, List.mem_cons]
    by_cases hka : k = a
    · subst k
      rw [Function.update_self, Function.update_self, members_expiringAt, mem_withMember]
      grind
    · rw [Function.update_of_ne hka, Function.update_of_ne hka]
      grind

theorem mem_linked_list {pageKey tagListKey x : String} {t : Nat} {tagKeys : List String}
    (hnot : tagListKey ∉ tagKeys) :
    x ∈ Entry.members (linked pageKey tagListKey t tagKeys keys tagListKey) ↔
      x ∈ Entry.members (keys tagListKey) ∨ x ∈ tagKeys := by
  induction tagKeys generalizing keys with
  | nil => simp [linked]
  | cons a rest ih =>
    have hne : tagListKey ≠ a := fun heq => hnot (heq ▸ List.mem_cons_self)
    have hrest : tagListKey ∉ rest := fun hmem => hnot (List.mem_cons_of_mem _ hmem)
    rw [linked, ih hrest, Function.update_self, mem_withMember, Function.update_of_ne hne,
      Function.update_of_ne hne, List.mem_cons]
    grind

theorem KeysDistinct.page_notMem_tags (hd : KeysDistinct cache pages) (hk : key ∈ pages)
    (tags : List String) : cache.pageKey key ∉ tags.map cache.tagKey :=
  hd.notMem_tags (g := .page key) hk (by simp) tags

theorem KeysDistinct.tagList_notMem_tags (hd : KeysDistinct cache pages) (hk : key ∈ pages)
    (tags : List String) : tagListOf (cache.pageKey key) ∉ tags.map cache.tagKey :=
  hd.notMem_tags (g := .tagList key) hk (by simp) tags

theorem KeysDistinct.tag_mem_tags (hd : KeysDistinct cache pages) {tag : String}
    {tags : List String} : cache.tagKey tag ∈ tags.map cache.tagKey ↔ tag ∈ tags := by
  rw [List.mem_map]
  constructor
  · rintro ⟨tag', hmem, heq⟩
    rwa [← hd.tagKey_inj heq]
  · exact fun hmem => ⟨tag, hmem, rfl⟩

section Stored
variable (clock : Nat) (tags : List String) (stored : StoredPage)

/-- A store takes its page out of the old tag sets before it puts it into the new ones. -/
theorem mem_tagSet_storedKeys (hd : KeysDistinct cache pages) (hk : key ∈ pages) (tag x : String) :
    x ∈ tagSet cache (storedKeys clock key tags stored cache keys) tag ↔
      x ∈ tagSet cache keys tag ∧
        (cache.tagKey tag ∈ tagList cache keys key → x ≠ cache.pageKey key) ∨
      tag ∈ tags ∧ x = cache.pageKey key := by
  rw [tagSet, storedKeys, Function.update_of_ne (hd.tagList_ne_tag hk tag).symm,
    mem_linked_tag (hd.tagList_ne_tag hk tag).symm,
    Function.update_of_ne (hd.page_ne_tag hk tag).symm,
    Function.update_of_ne (hd.tagList_ne_tag hk tag).symm, mem_unlinked, hd.tag_mem_tags]
  rfl

theorem IndexInv.filed_of_storedKeys (hd : KeysDistinct cache pages)
    (h : IndexInv cache keys pages last) (hk : key ∈ pages) :
    FiledAt cache (storedKeys clock key tags stored cache keys) tags key where
  page := by
    have hnot := hd.page_notMem_tags hk tags
    rw [isStored, storedKeys, Function.update_of_ne (hd.page_ne_tagList hk hk),
      linked_of_notMem hnot (hd.page_ne_tagList hk hk), Function.update_self]
    rfl
  list x := by
    have hnot := hd.tagList_notMem_tags hk tags
    rw [tagList, storedKeys, Function.update_self, members_expiringAt, mem_linked_list hnot,
      Function.update_of_ne (hd.page_ne_tagList hk hk).symm, Function.update_self]
    simp [eq_comm]
  sets tag := by
    rw [mem_tagSet_storedKeys clock tags stored hd hk]
    constructor
    · rintro (⟨hmem, hne⟩ | ⟨hmem, -⟩)
      · exact absurd rfl (hne ((h.mirrored hd hk tag).mp hmem))
      · exact hmem
    · exact fun hmem => .inr ⟨hmem, rfl⟩

theorem same_of_storedKeys (hd : KeysDistinct cache pages) (ht : Typed cache pages keys)
    {key' : String} (hk : key ∈ pages) (hk' : key' ∈ pages) (hne : key' ≠ key) :
    SameAt cache keys (storedKeys clock key tags stored cache keys) key' where
  page := storedKeys_of_ne hd ht hk (g := .page key') hk' (by simp) (by simp) (by simpa using hne)
  list := storedKeys_of_ne hd ht hk (g := .tagList key') hk' (by simp) (by simpa using hne) (by simp)
  sets tag := by
    rw [mem_tagSet_storedKeys clock tags stored hd hk]
    have hpage := hd.page_ne_page hk' hk hne
    constructor
    · rintro (⟨hmem, -⟩ | ⟨-, heq⟩)
      · exact hmem
      · exact absurd heq hpage
    · exact fun hmem => .inl ⟨hmem, fun _ => hpage⟩

/-- **A store** files the page under its new tags, whatever it was under before. -/
theorem IndexInv.storedKeys (hd : KeysDistinct cache pages) (h : IndexInv cache keys pages last)
    (hk : key ∈ pages) :
    IndexInv cache (storedKeys clock key tags stored cache keys) pages
      (Function.update last key tags) where
  typed := h.typed.storedKeys hd hk
  at_ key' hk' := by
    by_cases hne : key' = key
    · subst key'
      rw [Function.update_self]
      exact .inr (h.filed_of_storedKeys clock tags stored hd hk)
    · rw [Function.update_of_ne hne]
      exact (same_of_storedKeys clock tags stored hd h.typed hk hk' hne).index (h.at_ key' hk')

end Stored

/-! ## Runs -/

theorem IndexInv.congr {last' : String → List String} (h : IndexInv cache keys pages last)
    (htags : ∀ key tag, tag ∈ last' key ↔ tag ∈ last key) : IndexInv cache keys pages last' where
  typed := h.typed
  at_ key hk := (h.at_ key hk).imp_right fun hfiled =>
    { hfiled with
      list := fun x => by simp only [hfiled.list, htags]
      sets := fun tag => by rw [hfiled.sets, htags] }

theorem members_persist (s : Server String Payload) (k : String) :
    Entry.members ((persist s).keys k) = Entry.members (s.keys k) := by
  show Entry.members ((s.keys k).map _) = _
  match s.keys k with
  | some ⟨.set l, x⟩ => rfl
  | some ⟨.str p, x⟩ => rfl
  | none => rfl

/-- Dropping the expiries changes nothing about the index. -/
theorem IndexInv.persist {s : Server String Payload} (h : IndexInv cache s.keys pages last) :
    IndexInv cache (persist s).keys pages last := by
  have hstored (key : String) : isStored cache (PageCache.persist s).keys key =
      isStored cache s.keys key := Option.isSome_map
  have hlist (key : String) : tagList cache (PageCache.persist s).keys key =
      tagList cache s.keys key := members_persist s _
  have hset (tag : String) : tagSet cache (PageCache.persist s).keys tag =
      tagSet cache s.keys tag := members_persist s _
  refine ⟨fun f hf e he => ?_, fun key hk => (h.at_ key hk).imp (fun hgone => ?_) fun hfiled => ?_⟩
  · obtain ⟨e', he', rfl⟩ := Option.map_eq_some_iff.mp he
    exact (h.typed f hf e' he').congr rfl
  · exact ⟨(hstored key).trans hgone.page, (hlist key).trans hgone.list,
      fun tag => by rw [hset]; exact hgone.sets tag⟩
  · exact ⟨(hstored key).trans hfiled.page, fun x => by rw [hlist]; exact hfiled.list x,
      fun tag => by rw [hset]; exact hfiled.sets tag⟩

theorem IndexInv.start : IndexInv cache (fun _ => none) pages last where
  typed := fun _ _ _ he => by cases he
  at_ _ _ := .inl ⟨rfl, rfl, fun _ => List.not_mem_nil⟩

section Calls
variable {s : Server String Payload}

/-- A store keeps the index, with the tags it files its page under if it answers. -/
theorem IndexInv.store (hd : KeysDistinct cache pages) (hlasting : Lasting s)
    (h : IndexInv cache s.keys pages last) (hk : key ∈ pages) (page : CachedPage)
    (tags : List String) (renderedFrom : Nat) :
    IndexInv cache (cache.store key page tags renderedFrom s).2.keys pages
      (lastStored key tags (cache.store key page tags renderedFrom s).1 last) := by
  cases hm : (uniqueSorted tags).mapM assertTag with
  | error e =>
    have he : cache.store key page tags renderedFrom s = (.error e, s) := by
      rw [Cache.store, hm]
    rw [he]
    exact h
  | ok tags' =>
    obtain rfl := mapM_assertTag hm
    rw [h.typed.store hd hk hm, hlasting.expire]
    split
    · exact h
    · refine (h.storedKeys s.clock (uniqueSorted tags) _ hd hk).congr fun key' tag => ?_
      rw [lastStored]
      by_cases hne : key' = key
      · rw [hne, Function.update_self, Function.update_self, mem_uniqueSorted]
      · rw [Function.update_of_ne hne, Function.update_of_ne hne]

/-- A purge keeps the index. -/
theorem IndexInv.purgeTags (hd : KeysDistinct cache pages) (hlasting : Lasting s)
    (h : IndexInv cache s.keys pages last) (tags : List String) :
    IndexInv cache (cache.purgeTags tags s).2.keys pages last := by
  rcases h.typed.purgeTags hd tags with ⟨tag, he⟩ | ⟨-, he⟩ | ⟨removed, -, he⟩
  · rw [he]
    exact h
  · rw [he]
    exact h
  · rw [he, hlasting.expire]
    refine ⟨?_, fun key hk => ?_⟩
    · exact h.typed.purgedAll hd _ _
    · obtain ⟨hgone, hsame⟩ := h.purgedAll_at hd s.clock (uniqueSorted tags) hk
      by_cases hmem : ∃ tag ∈ uniqueSorted tags, cache.pageKey key ∈ tagSet cache s.keys tag
      · exact .inl (hgone hmem)
      · exact (hsame fun tag htag hin => hmem ⟨tag, htag, hin⟩).index (h.at_ key hk)

end Calls

/-- Every server of a run has the index its stores and purges made. -/
theorem Indexed.inv (hd : KeysDistinct cache pages) {s : Server String Payload}
    (h : Indexed cache pages s last) : Lasting s ∧ IndexInv cache s.keys pages last := by
  induction h with
  | start clock =>
    refine ⟨?_, IndexInv.start⟩
    rintro k e ⟨⟩
  | tick ms _ ih => exact ih
  | store page tags renderedFrom _ hk ih =>
    exact ⟨persist_lasting _, (ih.2.store hd ih.1 hk page tags renderedFrom).persist⟩
  | purge tags _ ih => exact ⟨persist_lasting _, (ih.2.purgeTags hd ih.1 tags).persist⟩

/-! ## A purge goes by the index -/

theorem IndexInv.purgesExactly (hd : KeysDistinct cache pages) {s : Server String Payload}
    (hlasting : Lasting s) (h : IndexInv cache s.keys pages last) (tags : List String) :
    PurgesExactly cache pages last s tags := by
  have hmeets (key : String) (hk : key ∈ pages) :
      (∃ tag ∈ uniqueSorted tags, cache.pageKey key ∈ tagSet cache s.keys tag) ↔
        isStored cache s.keys key = true ∧ ∃ tag ∈ tags, tag ∈ last key := by
    simp only [mem_uniqueSorted, h.mem_tagSet hk]
    grind
  rcases h.typed.purgeTags hd tags with ⟨tag, he⟩ | ⟨hnil, he⟩ | ⟨removed, hremoves, he⟩
  · constructor
    · exact fun htags => h.typed.purge_answers hd htags
    · exact fun e _ => by rw [he]
    · intro n hn
      rw [he] at hn
      cases hn
    · intro n hn
      rw [he] at hn
      cases hn
    · intro n hn
      rw [he] at hn
      cases hn
  · -- No tag at all: nothing is sent.
    have hno (key : String) : ¬ ∃ tag ∈ tags, tag ∈ last key := by
      rintro ⟨tag, hmem, -⟩
      rw [← mem_uniqueSorted, hnil] at hmem
      exact List.not_mem_nil hmem
    constructor
    · exact fun htags => h.typed.purge_answers hd htags
    · exact fun e _ => by rw [he]
    · exact fun n _ key _ _ hmeet => absurd hmeet (hno key)
    · intro n _ key _ _
      rw [he]
      exact SameAt.refl
    · intro n hn
      rw [he] at hn
      cases hn
      rw [Nat.cast_zero, Set.encard_eq_zero, Set.eq_empty_iff_forall_notMem]
      exact fun key hmem => hno key hmem.2.2
  · rw [hlasting.expire] at he hremoves
    have hat (key : String) (hk : key ∈ pages) :=
      h.purgedAll_at hd s.clock (uniqueSorted tags) hk
    have hgone (key : String) (hk : key ∈ pages)
        (hmeet : isStored cache s.keys key = true ∧ ∃ tag ∈ tags, tag ∈ last key) :=
      (hat key hk).1 ((hmeets key hk).mpr hmeet)
    have hsame (key : String) (hk : key ∈ pages)
        (hnot : ¬ (isStored cache s.keys key = true ∧ ∃ tag ∈ tags, tag ∈ last key)) :=
      (hat key hk).2 fun tag htag hin => hnot ((hmeets key hk).mp ⟨tag, htag, hin⟩)
    constructor
    · exact fun htags => h.typed.purge_answers hd htags
    · intro e hn
      rw [he] at hn
      cases hn
    · intro n _ key hk hstored hmeet
      rw [he]
      exact hgone key hk ⟨hstored, hmeet⟩
    · intro n _ key hk hnot
      rw [he]
      exact hsame key hk hnot
    · -- The pages that went are those that were there and are not.
      intro n hn
      rw [he] at hn
      obtain rfl := Except.ok.inj hn
      rw [← hremoves.gone]
      congr 1
      ext key
      constructor
      · rintro ⟨hk, hstored, hmeet⟩
        refine ⟨⟨hk, hstored⟩, fun hleft => ?_⟩
        exact Bool.false_ne_true ((hgone key hk ⟨hstored, hmeet⟩).page.symm.trans hleft.2)
      · rintro ⟨⟨hk, hstored⟩, hleft⟩
        refine ⟨hk, ?_⟩
        by_contra hnot
        exact hleft ⟨hk, (hsame key hk hnot).isStored.trans hstored⟩

/-- **The index is exact** after any stores and purges. -/
theorem index_exact (hd : KeysDistinct cache pages) {s : Server String Payload}
    (h : Indexed cache pages s last) :
    (∀ key ∈ pages, ∀ tag, cache.pageKey key ∈ tagSet cache s.keys tag ↔
      cache.tagKey tag ∈ tagList cache s.keys key) ∧
    (∀ key ∈ pages,
      (tagList cache s.keys key ≠ [] ↔ isStored cache s.keys key = true ∧ last key ≠ []) ∧
      (isStored cache s.keys key = true →
        ∀ x, x ∈ tagList cache s.keys key ↔ ∃ tag ∈ last key, x = cache.tagKey tag)) ∧
    ∀ tags, PurgesExactly cache pages last s tags := by
  obtain ⟨hlasting, hinv⟩ := h.inv hd
  refine ⟨fun key hk tag => hinv.mirrored hd hk tag, fun key hk => ?_,
    hinv.purgesExactly hd hlasting⟩
  rcases hinv.at_ key hk with hgone | hfiled
  · refine ⟨iff_of_false (fun hne => hne hgone.list) ?_, ?_⟩
    · rw [hgone.page]
      exact fun hstored => Bool.false_ne_true hstored.1
    · rw [hgone.page]
      exact fun hstored => absurd hstored Bool.false_ne_true
  · refine ⟨?_, fun _ => hfiled.list⟩
    rw [and_iff_right hfiled.page]
    constructor
    · intro hne hnil
      obtain ⟨x, hx⟩ := List.exists_mem_of_ne_nil _ hne
      obtain ⟨tag, htag, -⟩ := (hfiled.list x).mp hx
      rw [hnil] at htag
      exact List.not_mem_nil htag
    · intro hne
      obtain ⟨tag, htag⟩ := List.exists_mem_of_ne_nil _ hne
      exact List.ne_nil_of_mem ((hfiled.list _).mpr ⟨tag, htag, rfl⟩)

/-- The default cache, with a page stored under one tag and then under another. -/
def storedTwice : Server String Payload :=
  persist (cacheOfDefaults.store "/en" ⟨"<html>", 200, []⟩ ["list:post:en"] 2000
    (persist (cacheOfDefaults.store "/en" ⟨"<html>", 200, []⟩ ["content:hello"] 1000
      ⟨1000, fun _ => none⟩).2)).2

/-- The page goes with the second tag, and with the first it does not. -/
theorem index_exact_storedTwice :
    (cacheOfDefaults.pageKey "/en" ∈ tagSet cacheOfDefaults storedTwice.keys "list:post:en" ∧
      cacheOfDefaults.pageKey "/en" ∉ tagSet cacheOfDefaults storedTwice.keys "content:hello") ∧
    GoneAt cacheOfDefaults (cacheOfDefaults.purgeTags ["list:post:en"] storedTwice).2.keys "/en" ∧
    SameAt cacheOfDefaults storedTwice.keys
      (cacheOfDefaults.purgeTags ["content:hello"] storedTwice).2.keys "/en" := by
  have hd : KeysDistinct cacheOfDefaults {"/en"} := by
    refine keysDistinct_of ?_ ?_
    · rintro k rfl k' rfl -
      rfl
    · rintro k rfl k' rfl
      decide
  have hen : "/en" ∈ ({"/en"} : Set String) := rfl
  have hstored : (cacheOfDefaults.store "/en" ⟨"<html>", 200, []⟩ ["list:post:en"] 2000
      (persist (cacheOfDefaults.store "/en" ⟨"<html>", 200, []⟩ ["content:hello"] 1000
        ⟨1000, fun _ => none⟩).2)).1 = .ok true := by
    simp only [Cache.store, uniqueSorted_singleton]
    decide
  have hpurged (tag : String) (htag : tag = "list:post:en" ∨ tag = "content:hello") :
      ∃ n, (cacheOfDefaults.purgeTags [tag] storedTwice).1 = .ok n := by
    rcases htag with rfl | rfl
    · refine ⟨1, ?_⟩
      simp only [Cache.purgeTags, Cache.store, uniqueSorted_singleton, storedTwice]
      decide
    · refine ⟨0, ?_⟩
      simp only [Cache.purgeTags, Cache.store, uniqueSorted_singleton, storedTwice]
      decide
  obtain ⟨last, hlast, hrun⟩ : ∃ last, last "/en" = ["list:post:en"] ∧
      Indexed cacheOfDefaults {"/en"} storedTwice last := by
    have hstart : Indexed cacheOfDefaults {"/en"} ⟨1000, fun _ => none⟩ fun _ => [] :=
      .start 1000
    refine ⟨_, ?_, (hstart.store ⟨"<html>", 200, []⟩ ["content:hello"] 1000 hen).store
      ⟨"<html>", 200, []⟩ ["list:post:en"] 2000 hen⟩
    rw [hstored]
    rfl
  have hthere : isStored cacheOfDefaults storedTwice.keys "/en" = true := by
    simp only [storedTwice, Cache.store, uniqueSorted_singleton]
    decide
  obtain ⟨hmirror, hlist, hpurges⟩ := index_exact hd hrun
  have hlisted := (hlist "/en" hen).2 hthere
  rw [hlast] at hlisted
  refine ⟨⟨?_, ?_⟩, ?_, ?_⟩
  · rw [hmirror "/en" hen, hlisted]
    exact ⟨_, List.mem_singleton_self _, rfl⟩
  · rw [hmirror "/en" hen, hlisted]
    decide
  · obtain ⟨n, hn⟩ := hpurged "list:post:en" (.inl rfl)
    refine (hpurges _).removed n hn "/en" hen hthere ?_
    rw [hlast]
    decide
  · obtain ⟨n, hn⟩ := hpurged "content:hello" (.inr rfl)
    refine (hpurges _).kept n hn "/en" hen (not_and.mpr fun _ => ?_)
    rw [hlast]
    decide

end PressLabz.PageCache
