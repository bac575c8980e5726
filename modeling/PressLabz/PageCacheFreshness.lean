import PressLabz.PageCacheEffects

/-! # No page outlives a purge of its tags

Renders and purges over one Valkey, in any order.  A render begins with a lookup
that misses, at some clock, and may later store what it rendered from the
database, saying that clock; a purge runs whenever a write was announced.  The
site waits for neither and nothing orders them but the server, which runs one
script at a time on a clock that does not go back.

`Inv` ties the four key families together across their three expiries: a page
that is still there was put there by the last store of its key, every tag of
that store still lists it (a tag set outlives the page), and no purge of one of
its tags has run since its render began.  The last part is what the stamps are
for: a purge leaves a stamp that outlives every render that began before it, so
the store of an overtaken render finds it.
-/
namespace PressLabz.PageCache
open Valkey

/-- A lookup that missed, and the clock it returned. -/
structure Render where
  key : String
  renderedFrom : Nat
  deriving DecidableEq

/-- What a store put under a key: the page, its tags, and the clock of its render. -/
structure StoreRecord where
  page : CachedPage
  tags : List String
  renderedFrom : Nat
  deriving DecidableEq

/-- The server, the renders under way, and the history so far: the last store of
each key, and every purge of a tag with the clock it ran at. -/
structure System where
  server : Server String Payload
  renders : List Render
  stored : String → Option StoreRecord
  purges : List (String × Nat)

namespace System

/-- An empty server at some clock. -/
def start (clock : Nat) : System := ⟨⟨clock, fun _ => none⟩, [], fun _ => none, []⟩

def tick (s : System) (ms : Nat) : System :=
  { s with server := { s.server with clock := s.server.clock + ms } }

variable (cache : Cache)

/-- A request for a page; a miss begins a render. -/
def lookup (s : System) (key : String) : System :=
  let (result, server) := cache.lookup key s.server
  { s with
    server := server
    renders := match result with
      | .ok (.miss at_) => ⟨key, at_⟩ :: s.renders
      | _ => s.renders }

/-- A render stores its page. -/
def store (s : System) (render : Render) (page : CachedPage) (tags : List String) : System :=
  let (result, server) := cache.store render.key page tags render.renderedFrom s.server
  { s with
    server := server
    renders := s.renders.erase render
    stored := match result with
      | .ok true => Function.update s.stored render.key (some ⟨page, tags, render.renderedFrom⟩)
      | _ => s.stored }

/-- A purge of a list of tags. -/
def purge (s : System) (tags : List String) : System :=
  let (result, server) := cache.purgeTags tags s.server
  { s with
    server := server
    purges := match result with
      | .ok _ => (uniqueSorted tags).map (·, s.server.clock) ++ s.purges
      | .error _ => s.purges }

end System

/-- One step of the site, the API or the clock.  A render stores less than
`purgeStampTtlSeconds` after its lookup, or not at all. -/
inductive Step (cache : Cache) (pages : Set String) : System → System → Prop
  | tick (s : System) (ms : Nat) : Step cache pages s (s.tick ms)
  | lookup (s : System) (key : String) (hk : key ∈ pages) :
      Step cache pages s (s.lookup cache key)
  | store (s : System) (render : Render) (page : CachedPage) (tags : List String)
      (hr : render ∈ s.renders) (deadline : s.server.clock <
        render.renderedFrom + cache.options.purgeStampTtlSeconds * 1000) :
      Step cache pages s (s.store cache render page tags)
  | purge (s : System) (tags : List String) : Step cache pages s (s.purge cache tags)

/-- The states a cache reaches from an empty server. -/
inductive Reachable (cache : Cache) (pages : Set String) : System → Prop
  | start (clock : Nat) : Reachable cache pages (System.start clock)
  | step {s s' : System} : Reachable cache pages s → Step cache pages s s' →
      Reachable cache pages s'

/-! ## The invariant -/

variable {cache : Cache} {pages : Set String}

/-- A page that is still there: the record of its store, and when it was made. -/
structure Holds (cache : Cache) (clock : Nat) (keys : Keyspace String Payload)
    (purges : List (String × Nat)) (key : String) (e : Entry String Payload)
    (record : StoreRecord) (madeAt : Nat) : Prop where
  entry : e = ⟨.str (.page { record.page with storedAt := record.renderedFrom }),
    some (madeAt + cache.options.ttlSeconds * 1000)⟩
  renderedFrom_le : record.renderedFrom ≤ madeAt
  madeAt_le : madeAt ≤ clock
  /-- Every tag lists the page, for longer than the page lives. -/
  listed : ∀ tag ∈ record.tags,
    HasMember keys (cache.tagKey tag) (cache.pageKey key) (madeAt + cache.setTtl * 1000)
  fresh : ∀ tag ∈ record.tags, ∀ c, (tag, c) ∈ purges → c < record.renderedFrom

/-- The invariant of the cache. -/
structure Inv (cache : Cache) (pages : Set String) (clock : Nat)
    (keys : Keyspace String Payload) (stored : String → Option StoreRecord)
    (purges : List (String × Nat)) : Prop where
  typed : Typed cache pages keys
  page : ∀ key ∈ pages, ∀ e, keys (cache.pageKey key) = some e →
    ∃ record madeAt, stored key = some record ∧
      Holds cache clock keys purges key e record madeAt
  /-- A purge is in the past, and its stamp is there while it can matter. -/
  purged : ∀ tag c, (tag, c) ∈ purges → c ≤ clock ∧
    (clock < c + cache.options.purgeStampTtlSeconds * 1000 → ∃ ms x,
      keys (cache.stampKey tag) = some ⟨.str (.stamp ms), some x⟩ ∧ c ≤ ms ∧
        c + cache.options.purgeStampTtlSeconds * 1000 ≤ x)

section Invariant
variable {clock : Nat} {keys : Keyspace String Payload} {stored : String → Option StoreRecord}
  {purges : List (String × Nat)}

/-- The invariant survives the passing of time. -/
theorem Inv.later (h : Inv cache pages clock keys stored purges) {clock' : Nat}
    (hc : clock ≤ clock') : Inv cache pages clock' keys stored purges where
  typed := h.typed
  page key hk e he := by
    obtain ⟨record, madeAt, hs, hh⟩ := h.page key hk e he
    exact ⟨record, madeAt, hs, { hh with madeAt_le := Nat.le_trans hh.madeAt_le hc }⟩
  purged tag c hm := by
    obtain ⟨hle, halive⟩ := h.purged tag c hm
    exact ⟨Nat.le_trans hle hc, fun hlt => halive (by omega)⟩

/-- The invariant survives the loss of the keys that have expired. -/
theorem Inv.expire {s : Server String Payload}
    (h : Inv cache pages s.clock s.keys stored purges) :
    Inv cache pages s.clock s.expire.keys stored purges where
  typed f hf e he := h.typed f hf e (s.expire_keys.mp he).1
  page key hk e he := by
    obtain ⟨he, halive⟩ := s.expire_keys.mp he
    obtain ⟨record, madeAt, hs, hh⟩ := h.page key hk e he
    have hlt : s.clock < madeAt + cache.options.ttlSeconds * 1000 := by
      rw [hh.entry] at halive
      exact of_decide_eq_true halive
    refine ⟨record, madeAt, hs, { hh with listed := fun tag ht => ?_ }⟩
    obtain ⟨l, x, hkey, hmem, hx⟩ := hh.listed tag ht
    refine ⟨l, x, s.expire_keys.mpr ⟨hkey, decide_eq_true ?_⟩, hmem, hx⟩
    have : cache.setTtl = cache.options.ttlSeconds + cache.options.purgeStampTtlSeconds := rfl
    omega
  purged tag c hm := by
    obtain ⟨hle, halive⟩ := h.purged tag c hm
    refine ⟨hle, fun hlt => ?_⟩
    obtain ⟨ms, x, hkey, hms, hx⟩ := halive hlt
    exact ⟨ms, x, s.expire_keys.mpr ⟨hkey, decide_eq_true (by omega)⟩, hms, hx⟩

/-- Forgetting a page leaves every other page as it was. -/
theorem Inv.forgotten (hd : KeysDistinct cache pages)
    (h : Inv cache pages clock keys stored purges) {key : String} (hk : key ∈ pages) :
    Inv cache pages clock (forgotten keys (cache.pageKey key)) stored purges where
  typed := h.typed.forgotten hd hk
  page key' hk' e he := by
    have hkeep : ∀ g, InUse pages g → g ≠ .page key → g ≠ .tagList key →
        PageCache.forgotten keys (cache.pageKey key) (cache.keyOf g) =
          unlinked (cache.pageKey key)
            (Entry.members (keys (tagListOf (cache.pageKey key)))) keys (cache.keyOf g) := by
      intro g hg h1 h2
      have n1 : cache.keyOf g ≠ cache.pageKey key := fun heq => h1 (hd g (.page key) hg hk heq)
      have n2 : cache.keyOf g ≠ tagListOf (cache.pageKey key) :=
        fun heq => h2 (hd g (.tagList key) hg hk heq)
      rw [PageCache.forgotten, Function.update_of_ne n1, Function.update_of_ne n2]
    by_cases hkk : key' = key
    · subst key'
      rw [PageCache.forgotten, Function.update_self] at he
      cases he
    · have hne : CacheKey.page key' ≠ .page key := fun heq => hkk (CacheKey.page.inj heq)
      have hfree := h.typed.page_notMem_tagList hd hk hk'
      have hsame := hkeep (.page key') hk' hne (by simp)
      rw [show cache.keyOf (.page key') = cache.pageKey key' from rfl,
        unlinked_of_notMem hfree] at hsame
      obtain ⟨record, madeAt, hs, hh⟩ := h.page key' hk' e (hsame ▸ he)
      refine ⟨record, madeAt, hs, { hh with listed := fun tag ht => ?_ }⟩
      exact (hasMember_unlinked (hh.listed tag ht) (hd.page_ne_page hk' hk hkk)).congr
        (hkeep (.tag tag) trivial (by simp) (by simp))
  purged tag c hm := by
    obtain ⟨hle, halive⟩ := h.purged tag c hm
    refine ⟨hle, fun hlt => ?_⟩
    obtain ⟨ms, x, hkey, hms, hx⟩ := halive hlt
    refine ⟨ms, x, ?_, hms, hx⟩
    rw [PageCache.forgotten, Function.update_of_ne (hd.page_ne_purged hk tag).symm,
      Function.update_of_ne (hd.tagList_ne_purged hk tag).symm,
      unlinked_of_notMem (h.typed.purged_notMem_tagList hd hk tag), hkey]

theorem Inv.allForgotten (hd : KeysDistinct cache pages) {pageKeys : List String}
    (hp : ∀ x ∈ pageKeys, ∃ key ∈ pages, x = cache.pageKey key)
    (h : Inv cache pages clock keys stored purges) :
    Inv cache pages clock (allForgotten pageKeys keys) stored purges := by
  induction pageKeys generalizing keys with
  | nil => exact h
  | cons a rest ih =>
    obtain ⟨key, hk, rfl⟩ := hp a List.mem_cons_self
    exact ih (fun x hx => hp x (List.mem_cons_of_mem _ hx)) (h.forgotten hd hk)

/-- A key that is gone stays gone while pages are forgotten. -/
theorem allForgotten_none (hd : KeysDistinct cache pages) {pageKeys : List String} {key : String}
    (hk : key ∈ pages) (hp : ∀ x ∈ pageKeys, ∃ key ∈ pages, x = cache.pageKey key)
    (ht : Typed cache pages keys)
    (h : keys (cache.pageKey key) = none ∨ cache.pageKey key ∈ pageKeys) :
    allForgotten pageKeys keys (cache.pageKey key) = none := by
  induction pageKeys generalizing keys with
  | nil => exact h.resolve_right List.not_mem_nil
  | cons a rest ih =>
    obtain ⟨key', hk', rfl⟩ := hp a List.mem_cons_self
    refine ih (fun x hx => hp x (List.mem_cons_of_mem _ hx)) (ht.forgotten hd hk') ?_
    rw [forgotten_page hd ht hk' hk]
    by_cases hkk : key = key'
    · exact .inl (if_pos hkk)
    · rcases h with h | h
      · exact .inl ((if_neg hkk).trans h)
      · exact .inr ((List.mem_cons.mp h).resolve_left (hd.page_ne_page hk hk' hkk))

/-- **A purge of one tag.**  Every page that carries the tag is in its set, so
it goes; the pages that stay do not carry it. -/
theorem Inv.purgedKeys (hd : KeysDistinct cache pages)
    (h : Inv cache pages clock keys stored purges) (tag : String) :
    Inv cache pages clock (purgedKeys cache clock keys tag) stored ((tag, clock) :: purges) := by
  have hp := h.typed.tag_members tag
  have hall := h.allForgotten hd hp
  refine ⟨h.typed.purgedKeys hd, ?_, ?_⟩
  · intro key hk e he
    have hkept : PageCache.purgedKeys cache clock keys tag (cache.pageKey key) =
        PageCache.allForgotten (Entry.members (keys (cache.tagKey tag))) keys (cache.pageKey key) :=
      purgedKeys_of_ne hd (g := .page key) hk (by simp) (by simp)
    rw [hkept] at he
    obtain ⟨record, madeAt, hs, hh⟩ := hall.page key hk e he
    -- The page would have been a member of the tag's set before the purge.
    have hnot : tag ∉ record.tags := by
      intro ht
      have hbefore : ∃ e', keys (cache.pageKey key) = some e' := by
        cases hb : keys (cache.pageKey key) with
        | none =>
          rw [allForgotten_none hd hk hp h.typed (.inl hb)] at he
          cases he
        | some e' => exact ⟨e', rfl⟩
      obtain ⟨e', he'⟩ := hbefore
      obtain ⟨record', madeAt', hs', hh'⟩ := h.page key hk e' he'
      obtain rfl : record' = record := Option.some.inj (hs'.symm.trans hs)
      rw [allForgotten_none hd hk hp h.typed (.inr (hh'.listed tag ht).mem)] at he
      cases he
    refine ⟨record, madeAt, hs, { hh with listed := fun t ht => ?_, fresh := fun t ht c hc => ?_ }⟩
    · have hne : t ≠ tag := fun heq => hnot (heq ▸ ht)
      exact (hh.listed t ht).congr
        (purgedKeys_of_ne hd (g := .tag t) trivial (by simpa using hne) (by simp))
    · rcases List.mem_cons.mp hc with hc | hc
      · exact absurd ((Prod.mk.inj hc).1 ▸ ht) hnot
      · exact hh.fresh t ht c hc
  · intro t c hc
    by_cases htag : t = tag
    · subst t
      have hle : c ≤ clock := by
        rcases List.mem_cons.mp hc with hc | hc
        · exact Nat.le_of_eq (Prod.mk.inj hc).2
        · exact (h.purged tag c hc).1
      exact ⟨hle, fun _ => ⟨clock, _, by rw [PageCache.purgedKeys, Function.update_self], hle,
        by omega⟩⟩
    · have hc : (t, c) ∈ purges :=
        (List.mem_cons.mp hc).resolve_left (fun heq => htag (Prod.mk.inj heq).1)
      obtain ⟨hle, halive⟩ := hall.purged t c hc
      refine ⟨hle, fun hlt => ?_⟩
      obtain ⟨ms, x, hkey, hms, hx⟩ := halive hlt
      exact ⟨ms, x, (purgedKeys_of_ne hd (g := .purged t) trivial (by simp)
        (by simpa using htag)).trans hkey, hms, hx⟩

/-- The invariant survives a purge of a list of tags, which is one more purge of each. -/
theorem Inv.purgedAll (hd : KeysDistinct cache pages) (tags : List String)
    (h : Inv cache pages clock keys stored purges) :
    Inv cache pages clock (tags.foldl (PageCache.purgedKeys cache clock) keys) stored
      (tags.reverse.map (·, clock) ++ purges) := by
  induction tags generalizing keys purges with
  | nil => exact h
  | cons tag rest ih =>
    have := ih (h.purgedKeys hd tag)
    simpa using this

/-- **A store that was not overtaken.**  A purge of one of the tags at or after
the render began would have left a stamp that is still there. -/
theorem Inv.storedKeys (hd : KeysDistinct cache pages)
    (h : Inv cache pages clock keys stored purges) {key : String} (hk : key ∈ pages)
    {page : CachedPage} {tags recorded : List String} {renderedFrom : Nat}
    (hrec : ∀ tag, tag ∈ recorded ↔ tag ∈ tags)
    (hpast : renderedFrom ≤ clock)
    (deadline : clock < renderedFrom + cache.options.purgeStampTtlSeconds * 1000)
    (hok : (tags.any fun tag => stampedSince keys renderedFrom (cache.stampKey tag)) = false) :
    Inv cache pages clock
      (storedKeys clock key tags { page with storedAt := renderedFrom } cache keys)
      (Function.update stored key (some ⟨page, recorded, renderedFrom⟩)) purges := by
  have htyped := h.typed
  have hw := htyped.written hd hk { page with storedAt := renderedFrom }
    (some (clock + cache.options.ttlSeconds * 1000))
  refine ⟨htyped.storedKeys hd hk, ?_, ?_⟩
  · intro key' hk' e he
    by_cases hkk : key' = key
    · subst key'
      -- the page that is stored: its entry, its tags, and no purge since its render
      refine ⟨_, clock, Function.update_self .., ?_, hpast, Nat.le_refl clock, ?_, ?_⟩
      · have hneList := hd.page_ne_tagList hk hk
        have hnot : cache.pageKey key ∉ tags.map cache.tagKey :=
          hd.notMem_tags (g := .page key) hk (by simp) tags
        rw [PageCache.storedKeys, Function.update_of_ne hneList, linked_of_notMem hnot hneList,
          Function.update_self] at he
        exact (Option.some.inj he).symm
      · intro tag ht
        have hmem : cache.tagKey tag ∈ tags.map cache.tagKey :=
          List.mem_map_of_mem ((hrec tag).mp ht)
        have hne := (hd.tagList_ne_tag hk tag).symm
        refine (linked_joins (t := clock + cache.setTtl * 1000) hmem ?_ hne
          (hw.holdsSet_tagList hk)).congr (Function.update_of_ne hne _ _)
        intro k hkm
        obtain ⟨t, -, rfl⟩ := List.mem_map.mp hkm
        exact hw.holdsSet_tag t
      · intro tag ht c hc
        obtain ⟨-, halive⟩ := h.purged tag c hc
        show c < renderedFrom
        -- a purge since then would have left a stamp, and the script has found none
        by_contra hge
        obtain ⟨ms, x, hkey, hms, -⟩ := halive (by omega)
        have hnone := List.any_eq_false.mp hok tag ((hrec tag).mp ht)
        simp only [stampedSince, hkey, Entry.payload_str, decide_eq_true_eq] at hnone
        omega
    -- another page: its entry is untouched, and the sets of its tags only grow
    · have hsame : PageCache.storedKeys clock key tags { page with storedAt := renderedFrom } cache
          keys (cache.pageKey key') = keys (cache.pageKey key') :=
        storedKeys_of_ne hd htyped hk (g := .page key') hk' (by simp) (by simp) (by simpa using hkk)
      obtain ⟨record, madeAt, hs, hh⟩ := h.page key' hk' e (hsame ▸ he)
      refine ⟨record, madeAt, by rw [Function.update_of_ne hkk, hs],
        { hh with listed := fun tag ht => ?_ }⟩
      have hpk := hd.page_ne_page hk' hk hkk
      have htl := (hd.tagList_ne_tag hk tag).symm
      have htp := (hd.page_ne_tag hk tag).symm
      have hwritten : HasMember (Function.update (Function.update (unlinked (cache.pageKey key)
            (Entry.members (keys (tagListOf (cache.pageKey key)))) keys)
            (tagListOf (cache.pageKey key)) none) (cache.pageKey key)
          (some ⟨.str (.page { page with storedAt := renderedFrom }),
            some (clock + cache.options.ttlSeconds * 1000)⟩)) (cache.tagKey tag) _ _ :=
        (hasMember_unlinked (hh.listed tag ht) hpk).congr
          (by rw [Function.update_of_ne htp, Function.update_of_ne htl])
      have hle : madeAt + cache.setTtl * 1000 ≤ clock + cache.setTtl * 1000 :=
        Nat.add_le_add_right hh.madeAt_le _
      exact (hasMember_linked hwritten hle htl).congr (Function.update_of_ne htl _ _)
  -- the stamps of purges are other keys
  · intro tag c hc
    obtain ⟨hle, halive⟩ := h.purged tag c hc
    refine ⟨hle, fun hlt => ?_⟩
    obtain ⟨ms, x, hkey, hms, hx⟩ := halive hlt
    exact ⟨ms, x, (storedKeys_of_ne hd htyped hk (g := .purged tag) trivial (by simp) (by simp)
      (by simp)).trans hkey, hms, hx⟩

end Invariant

/-! ## Runs -/

/-- The invariant of a system: its renders began with a lookup of a page. -/
structure SystemInv (cache : Cache) (pages : Set String) (s : System) : Prop where
  keys : Inv cache pages s.server.clock s.server.keys s.stored s.purges
  render : ∀ r ∈ s.renders, r.key ∈ pages ∧ r.renderedFrom ≤ s.server.clock

theorem SystemInv.start (clock : Nat) : SystemInv cache pages (System.start clock) where
  keys := ⟨fun _ _ _ h => (Option.some_ne_none _ h.symm).elim,
    fun _ _ _ h => (Option.some_ne_none _ h.symm).elim, fun _ _ h => absurd h List.not_mem_nil⟩
  render _ h := absurd h List.not_mem_nil

theorem SystemInv.step (hd : KeysDistinct cache pages) {s s' : System}
    (h : SystemInv cache pages s) (hs : Step cache pages s s') : SystemInv cache pages s' := by
  have hex : Inv cache pages s.server.clock s.server.expire.keys s.stored s.purges :=
    h.keys.expire
  cases hs with
  | tick ms =>
    exact ⟨h.keys.later (Nat.le_add_right _ ms), fun r hr =>
      ⟨(h.render r hr).1, Nat.le_trans (h.render r hr).2 (Nat.le_add_right _ ms)⟩⟩
  | lookup key hk =>
    simp only [System.lookup, h.keys.typed.lookup hk]
    refine ⟨hex, fun r hr => ?_⟩
    dsimp only at hr
    split at hr
    · rename_i at_ heq
      rcases List.mem_cons.mp hr with rfl | hr
      · refine ⟨hk, ?_⟩
        split at heq
        · cases heq
        · cases heq; exact Nat.le_refl _
      · exact h.render r hr
    · exact h.render r hr
  | store render page tags hr deadline =>
    obtain ⟨hk, hpast⟩ := h.render render hr
    have hrest : ∀ r ∈ s.renders.erase render, r.key ∈ pages ∧ r.renderedFrom ≤ s.server.clock :=
      fun r hm => h.render r (List.mem_of_mem_erase hm)
    -- a tag that is refused stops the store before anything is written
    cases hm : (uniqueSorted tags).mapM assertTag with
    | error e =>
      have : cache.store render.key page tags render.renderedFrom s.server =
          (.error e, s.server) := by rw [Cache.store, hm]
      simp only [System.store, this]
      exact ⟨h.keys, hrest⟩
    | ok tags' =>
      obtain rfl := mapM_assertTag hm
      simp only [System.store, h.keys.typed.store hd hk hm]
      -- a store that was overtaken writes nothing
      by_cases hover : (uniqueSorted tags).any fun tag =>
          stampedSince s.server.expire.keys render.renderedFrom (cache.stampKey tag)
      · simp only [hover, if_true]
        exact ⟨hex, hrest⟩
      · simp only [hover]
        exact ⟨hex.storedKeys hd hk (fun _ => mem_uniqueSorted.symm) hpast deadline
          (by simpa using hover), hrest⟩
  | purge tags =>
    rcases h.keys.typed.purgeTags hd tags with ⟨tag', he⟩ | ⟨hnil, he⟩ | ⟨removed, -, he⟩
    · simp only [System.purge, he]
      exact h
    · simp only [System.purge, he, hnil]
      exact h
    · simp only [System.purge, he]
      have hp := hex.purgedAll hd (uniqueSorted tags)
      refine ⟨⟨hp.typed, ?_, ?_⟩, h.render⟩
      · intro key hk e hkey
        obtain ⟨record, madeAt, hrec, hh⟩ := hp.page key hk e hkey
        exact ⟨record, madeAt, hrec, { hh with
          fresh := fun tag ht c hc => hh.fresh tag ht c (by simpa using hc) }⟩
      · intro tag c hc
        exact hp.purged tag c (by simpa using hc)

theorem Reachable.inv (hd : KeysDistinct cache pages) {s : System}
    (hr : Reachable cache pages s) : SystemInv cache pages s := by
  induction hr with
  | start clock => exact SystemInv.start clock
  | step _ hs ih => exact ih.step hd hs

/-! ## Freshness -/

/-- What a lookup returns was rendered after the last purge of its tags. -/
theorem SystemInv.hit_fresh {s : System} (h : SystemInv cache pages s) {key : String}
    (hk : key ∈ pages) {page : CachedPage} {at_ : Nat} {server : Server String Payload}
    (hit : cache.lookup key s.server = (.ok (.hit page at_), server)) :
    ∃ record, s.stored key = some record ∧ record.page = page ∧
      ∀ tag ∈ record.tags, ∀ c, (tag, c) ∈ s.purges → c < record.renderedFrom := by
  rw [h.keys.typed.lookup hk] at hit
  have hres := Except.ok.inj (Prod.mk.inj hit).1
  cases he : s.server.expire.keys (cache.pageKey key) with
  | none => rw [he] at hres; cases hres
  | some e =>
    obtain ⟨record, madeAt, hs, hh⟩ := h.keys.expire.page key hk e he
    rw [he, hh.entry, Entry.payload_str] at hres
    exact ⟨record, hs, (PageLookup.hit.inj hres).1, hh.fresh⟩

/-- A purge that answers leaves no page that carries one of its tags. -/
theorem SystemInv.purge_removes (hd : KeysDistinct cache pages) {s : System}
    (h : SystemInv cache pages s) {tags : List String} {removed : Nat}
    {server : Server String Payload} (hp : cache.purgeTags tags s.server = (.ok removed, server))
    {key : String} (hk : key ∈ pages) {record : StoreRecord} (hs : s.stored key = some record)
    {tag : String} (ht : tag ∈ tags) (hrec : tag ∈ record.tags) :
    server.keys (cache.pageKey key) = none := by
  have hm : tag ∈ uniqueSorted tags := mem_uniqueSorted.mpr ht
  rcases h.keys.typed.purgeTags hd tags with ⟨tag', he⟩ | ⟨hnil, -⟩ | ⟨removed', -, he⟩
  · rw [he] at hp
    cases hp
  · rw [hnil] at hm
    exact absurd hm List.not_mem_nil
  · rw [he] at hp
    obtain rfl := (Prod.mk.inj hp).2
    have hall := h.keys.expire.purgedAll hd (uniqueSorted tags)
    cases hkey : (uniqueSorted tags).foldl (PageCache.purgedKeys cache s.server.clock)
        s.server.expire.keys (cache.pageKey key) with
    | none => exact hkey
    | some e =>
      obtain ⟨record', madeAt, hs', hh⟩ := hall.page key hk e hkey
      obtain rfl : record' = record := Option.some.inj (hs'.symm.trans hs)
      -- The purge itself is one of the purges the page must have outlived.
      have hlt := hh.fresh tag hrec s.server.clock
        (List.mem_append_left _ (List.mem_map_of_mem (List.mem_reverse.mpr hm)))
      have hle := hh.renderedFrom_le
      have hle' := hh.madeAt_le
      omega

/-- A store that a purge of one of its tags overtook answers false and writes nothing. -/
theorem SystemInv.store_overtaken (hd : KeysDistinct cache pages) {s : System}
    (h : SystemInv cache pages s) {render : Render} (hr : render ∈ s.renders)
    (deadline : s.server.clock <
      render.renderedFrom + cache.options.purgeStampTtlSeconds * 1000)
    {page : CachedPage} {tags : List String}
    (hm : (uniqueSorted tags).mapM assertTag = .ok (uniqueSorted tags))
    {tag : String} (ht : tag ∈ tags) {c : Nat} (hc : (tag, c) ∈ s.purges)
    (hle : render.renderedFrom ≤ c) :
    cache.store render.key page tags render.renderedFrom s.server =
      (.ok false, s.server.expire) := by
  rw [h.keys.typed.store hd (h.render render hr).1 hm, if_pos]
  refine List.any_eq_true.mpr ⟨tag, mem_uniqueSorted.mpr ht, ?_⟩
  obtain ⟨-, halive⟩ := h.keys.expire.purged tag c hc
  obtain ⟨ms, x, hkey, hms, -⟩ := halive (by omega)
  rw [stampedSince, hkey, Entry.payload_str]
  exact decide_eq_true (Nat.le_trans hle hms)

/-- **Freshness.**  In every reachable state: a page a lookup returns was
rendered after the last purge of each of its tags; a purge leaves no page with
one of its tags; a render that a purge overtook is not stored. -/
theorem page_cache_fresh (hd : KeysDistinct cache pages) {s : System}
    (hr : Reachable cache pages s) :
    (∀ key ∈ pages, ∀ page at_ server,
      cache.lookup key s.server = (.ok (.hit page at_), server) →
      ∃ record, s.stored key = some record ∧ record.page = page ∧
        ∀ tag ∈ record.tags, ∀ c, (tag, c) ∈ s.purges → c < record.renderedFrom) ∧
    (∀ tags, ((∀ tag ∈ tags, isTag tag = true) →
        ∃ removed, (cache.purgeTags tags s.server).1 = .ok removed) ∧
      ∀ removed server, cache.purgeTags tags s.server = (.ok removed, server) →
        ∀ key ∈ pages, ∀ record, s.stored key = some record → ∀ tag ∈ tags,
          tag ∈ record.tags → server.keys (cache.pageKey key) = none) ∧
    (∀ render ∈ s.renders,
      s.server.clock < render.renderedFrom + cache.options.purgeStampTtlSeconds * 1000 →
      ∀ page tags, ∀ tag ∈ tags, ∀ c, (tag, c) ∈ s.purges → render.renderedFrom ≤ c →
        (cache.store render.key page tags render.renderedFrom s.server).2.expire =
            s.server.expire ∧
          ((∀ tag ∈ tags, isTag tag = true) →
            (cache.store render.key page tags render.renderedFrom s.server).1 = .ok false)) := by
  have h := hr.inv hd
  refine ⟨fun key hk page at_ server hit => h.hit_fresh hk hit,
    fun tags => ⟨fun ht => h.keys.typed.purge_answers hd ht,
      fun removed server hp key hk record hs tag ht hrec =>
        h.purge_removes hd hp hk hs ht hrec⟩, ?_⟩
  intro render hrender deadline page tags tag ht c hc hle
  cases hm : (uniqueSorted tags).mapM assertTag with
  | error e =>
    refine ⟨by rw [Cache.store, hm], fun hlegal => ?_⟩
    rw [mapM_assertTag_of_isTag fun t ht => hlegal t (mem_uniqueSorted.mp ht)] at hm
    cases hm
  | ok tags' =>
    obtain rfl := mapM_assertTag hm
    rw [h.store_overtaken hd hrender deadline hm ht hc hle]
    exact ⟨s.server.expire_expire, fun _ => rfl⟩

/-- A purge that lands between the lookup and the store of a render: the render
is not stored. -/
theorem page_cache_fresh_overtaken :
    (cacheOfDefaults.store "/en" ⟨"<html>", 200, []⟩ ["list:post:en"] 1000
      (((System.start 1000).lookup cacheOfDefaults "/en").purge cacheOfDefaults
        ["list:post:en"]).server).1 = .ok false := by
  have hd : KeysDistinct cacheOfDefaults {"/en"} := by
    refine keysDistinct_of ?_ ?_
    · rintro k rfl k' rfl -
      rfl
    · rintro k rfl k' rfl
      decide
  have hr : Reachable cacheOfDefaults {"/en"}
      (((System.start 1000).lookup cacheOfDefaults "/en").purge cacheOfDefaults
        ["list:post:en"]) :=
    (Reachable.step (.start 1000)
      (.lookup _ "/en" (show "/en" ∈ ({"/en"} : Set String) from rfl))).step (.purge _ _)
  have hp : ("list:post:en", 1000) ∈ (((System.start 1000).lookup cacheOfDefaults "/en").purge
      cacheOfDefaults ["list:post:en"]).purges := by
    simp only [System.purge, Cache.purgeTags, uniqueSorted_singleton]
    exact List.mem_cons_self
  have hrender : (⟨"/en", 1000⟩ : Render) ∈ (((System.start 1000).lookup cacheOfDefaults
      "/en").purge cacheOfDefaults ["list:post:en"]).renders := List.mem_cons_self
  have hclock : (((System.start 1000).lookup cacheOfDefaults "/en").purge cacheOfDefaults
      ["list:post:en"]).server.clock < 1000 + 900 * 1000 := by
    simp only [System.purge, Cache.purgeTags, uniqueSorted_singleton]
    decide
  exact ((page_cache_fresh hd hr).2.2 _ hrender hclock _ _ "list:post:en" List.mem_cons_self 1000
    hp (Nat.le_refl _)).2 (by decide)

end PressLabz.PageCache
