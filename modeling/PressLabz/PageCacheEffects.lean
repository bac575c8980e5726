import Mathlib.Data.Set.Card
import PressLabz.PageCache

/-! # What the page-cache scripts do to the keys

Each script of `PageCache`, read off once as a function of the keys.  The
functions are stated on whole keyspaces, so that what they leave alone is as
visible as what they change; every invariant of the cache is proved about them
and never about a script.

`Typed` is what makes the scripts run to their end: a key of one family holds
what that family stores, as long as no two keys of the families in use coincide
(`KeysDistinct`).
-/
namespace PressLabz.PageCache
open Valkey

variable (cache : Cache) (pages : Set String)

/-! ## The key families -/

/-- The keys an installation with these page keys uses; every tag is one. -/
def InUse : CacheKey → Prop
  | .page key => key ∈ pages
  | .tagList key => key ∈ pages
  | .tag _ => True
  | .purged _ => True

/-- No two keys in use are the same Valkey key. -/
def KeysDistinct : Prop :=
  ∀ f g, InUse pages f → InUse pages g → cache.keyOf f = cache.keyOf g → f = g

/-- The families cannot meet; so the keys are distinct as soon as the page keys
are, and none of them is another's tag list. -/
theorem keysDistinct_of {cache : Cache} {pages : Set String}
    (hinj : ∀ k ∈ pages, ∀ k' ∈ pages,
      pageKeyFor cache.sha256 k = pageKeyFor cache.sha256 k' → k = k')
    (hlist : ∀ k ∈ pages, ∀ k' ∈ pages,
      pageKeyFor cache.sha256 k ≠ tagListOf (pageKeyFor cache.sha256 k')) :
    KeysDistinct cache pages := by
  intro f g hf hg heq
  cases f <;> cases g <;>
    simp only [Cache.keyOf, Cache.pageKey, Cache.tagKey, Cache.stampKey, tagListOf,
      String.append_assoc, String.append_right_inj] at heq
  case page.page k k' => rw [hinj k hf k' hg heq]
  case tag.tag => rw [heq]
  case purged.purged => rw [heq]
  case page.tagList k k' => exact absurd heq (hlist k hf k' hg)
  case tagList.page k k' => exact absurd heq.symm (hlist k' hg k hf)
  case tagList.tagList k k' => rw [hinj k hf k' hg ((String.append_left_inj _).mp heq)]
  -- Two families: their prefixes differ in one of the first two letters.
  all_goals
    have hchars := congrArg String.toList heq
    simp [String.toList_append] at hchars

section Distinct
variable {cache : Cache} {pages : Set String} {key key' : String}

theorem KeysDistinct.page_ne_page (hd : KeysDistinct cache pages) (hk : key ∈ pages)
    (hk' : key' ∈ pages) (hne : key ≠ key') : cache.pageKey key ≠ cache.pageKey key' :=
  fun h => hne (CacheKey.page.inj (hd (.page key) (.page key') hk hk' h))

theorem KeysDistinct.tagList_ne_tagList (hd : KeysDistinct cache pages) (hk : key ∈ pages)
    (hk' : key' ∈ pages) (hne : key ≠ key') :
    tagListOf (cache.pageKey key) ≠ tagListOf (cache.pageKey key') :=
  fun h => hne (CacheKey.tagList.inj (hd (.tagList key) (.tagList key') hk hk' h))

theorem KeysDistinct.page_ne_tagList (hd : KeysDistinct cache pages) (hk : key ∈ pages)
    (hk' : key' ∈ pages) : cache.pageKey key ≠ tagListOf (cache.pageKey key') :=
  fun h => by cases hd (.page key) (.tagList key') hk hk' h

theorem KeysDistinct.page_ne_tag (hd : KeysDistinct cache pages) (hk : key ∈ pages)
    (tag : String) : cache.pageKey key ≠ cache.tagKey tag :=
  fun h => by cases hd (.page key) (.tag tag) hk trivial h

theorem KeysDistinct.page_ne_purged (hd : KeysDistinct cache pages) (hk : key ∈ pages)
    (tag : String) : cache.pageKey key ≠ cache.stampKey tag :=
  fun h => by cases hd (.page key) (.purged tag) hk trivial h

theorem KeysDistinct.tagList_ne_tag (hd : KeysDistinct cache pages) (hk : key ∈ pages)
    (tag : String) : tagListOf (cache.pageKey key) ≠ cache.tagKey tag :=
  fun h => by cases hd (.tagList key) (.tag tag) hk trivial h

theorem KeysDistinct.tagList_ne_purged (hd : KeysDistinct cache pages) (hk : key ∈ pages)
    (tag : String) : tagListOf (cache.pageKey key) ≠ cache.stampKey tag :=
  fun h => by cases hd (.tagList key) (.purged tag) hk trivial h

theorem KeysDistinct.tag_ne_purged (hd : KeysDistinct cache pages) (tag tag' : String) :
    cache.tagKey tag ≠ cache.stampKey tag' :=
  fun h => by cases hd (.tag tag) (.purged tag') trivial trivial h

/-- A key that is no tag set is in no list of tag sets. -/
theorem KeysDistinct.notMem_tags (hd : KeysDistinct cache pages) {g : CacheKey}
    (hg : InUse pages g) (hnot : ∀ tag, g ≠ .tag tag) (tags : List String) :
    cache.keyOf g ∉ tags.map cache.tagKey := by
  intro hmem
  obtain ⟨tag, -, heq⟩ := List.mem_map.mp hmem
  exact hnot tag (hd g (.tag tag) hg trivial heq.symm)

theorem KeysDistinct.tagKey_inj (hd : KeysDistinct cache pages) {tag tag' : String}
    (h : cache.tagKey tag = cache.tagKey tag') : tag = tag' :=
  CacheKey.tag.inj (hd (.tag tag) (.tag tag') trivial trivial h)

end Distinct

/-- What an entry of each family looks like. -/
def Fits : CacheKey → Entry String Payload → Prop
  | .page _, e => ∃ stored t, e = ⟨.str (.page stored), t⟩
  | .tagList _, e => ∃ l t, e = ⟨.set l, t⟩ ∧ ∀ x ∈ l, ∃ tag, x = cache.tagKey tag
  | .tag _, e => ∃ l t, e = ⟨.set l, t⟩ ∧ ∀ x ∈ l, ∃ key ∈ pages, x = cache.pageKey key
  | .purged _, e => ∃ ms t, e = ⟨.str (.stamp ms), t⟩

/-- Every key in use holds what its family stores. -/
def Typed (keys : Keyspace String Payload) : Prop :=
  ∀ f, InUse pages f → ∀ e, keys (cache.keyOf f) = some e → Fits cache pages f e

variable {cache pages} {keys : Keyspace String Payload}

theorem Typed.update (hd : KeysDistinct cache pages) (ht : Typed cache pages keys) {g : CacheKey}
    (hg : InUse pages g) {o : Option (Entry String Payload)}
    (ho : ∀ e, o = some e → Fits cache pages g e) :
    Typed cache pages (Function.update keys (cache.keyOf g) o) := by
  intro f hf e he
  by_cases hfg : f = g
  · subst f
    rw [Function.update_self] at he
    exact ho e he
  · rw [Function.update_of_ne (fun h => hfg (hd f g hf hg h))] at he
    exact ht f hf e he

theorem Typed.holdsSet_tag (ht : Typed cache pages keys) (tag : String) :
    HoldsSet keys (cache.tagKey tag) := by
  intro e he
  obtain ⟨l, t, rfl, -⟩ := ht (.tag tag) trivial e he
  exact ⟨l, rfl⟩

theorem Typed.holdsSet_tagList (ht : Typed cache pages keys) {key : String} (hk : key ∈ pages) :
    HoldsSet keys (tagListOf (cache.pageKey key)) := by
  intro e he
  obtain ⟨l, t, rfl, -⟩ := ht (.tagList key) hk e he
  exact ⟨l, rfl⟩

theorem Typed.holdsStr_page (ht : Typed cache pages keys) {key : String} (hk : key ∈ pages) :
    HoldsStr keys (cache.pageKey key) := by
  intro e he
  obtain ⟨stored, t, rfl⟩ := ht (.page key) hk e he
  exact ⟨_, rfl⟩

theorem Typed.holdsStr_purged (ht : Typed cache pages keys) (tag : String) :
    HoldsStr keys (cache.stampKey tag) := by
  intro e he
  obtain ⟨ms, t, rfl⟩ := ht (.purged tag) trivial e he
  exact ⟨_, rfl⟩

/-- The members of a page's tag list are tag sets. -/
theorem Typed.tagList_members (ht : Typed cache pages keys) {key : String} (hk : key ∈ pages) :
    ∀ x ∈ Entry.members (keys (tagListOf (cache.pageKey key))), ∃ tag, x = cache.tagKey tag := by
  intro x hx
  obtain ⟨l, t, he, hl⟩ := exists_set_of_mem hx
  obtain ⟨l', t', h, hall⟩ := ht (.tagList key) hk _ he
  cases h
  exact hall x hl

/-- None of the members of a tag list is a page, another tag list or a stamp. -/
theorem Typed.notMem_tagList (hd : KeysDistinct cache pages) (ht : Typed cache pages keys)
    {key : String} (hk : key ∈ pages) {g : CacheKey} (hg : InUse pages g)
    (hnot : ∀ tag, g ≠ .tag tag) :
    cache.keyOf g ∉ Entry.members (keys (tagListOf (cache.pageKey key))) := by
  intro hmem
  obtain ⟨tag, heq⟩ := ht.tagList_members hk _ hmem
  exact hnot tag (hd g (.tag tag) hg trivial heq)

theorem Typed.page_notMem_tagList (hd : KeysDistinct cache pages) (ht : Typed cache pages keys)
    {key key' : String} (hk : key ∈ pages) (hk' : key' ∈ pages) :
    cache.pageKey key' ∉ Entry.members (keys (tagListOf (cache.pageKey key))) :=
  ht.notMem_tagList hd hk (g := .page key') hk' (by simp)

theorem Typed.tagList_notMem_tagList (hd : KeysDistinct cache pages) (ht : Typed cache pages keys)
    {key key' : String} (hk : key ∈ pages) (hk' : key' ∈ pages) :
    tagListOf (cache.pageKey key') ∉ Entry.members (keys (tagListOf (cache.pageKey key))) :=
  ht.notMem_tagList hd hk (g := .tagList key') hk' (by simp)

theorem Typed.purged_notMem_tagList (hd : KeysDistinct cache pages) (ht : Typed cache pages keys)
    {key : String} (hk : key ∈ pages) (tag : String) :
    cache.stampKey tag ∉ Entry.members (keys (tagListOf (cache.pageKey key))) :=
  ht.notMem_tagList hd hk (g := .purged tag) trivial (by simp)

/-- The members of a tag set are pages. -/
theorem Typed.tag_members (ht : Typed cache pages keys) (tag : String) :
    ∀ x ∈ Entry.members (keys (cache.tagKey tag)), ∃ key ∈ pages, x = cache.pageKey key := by
  intro x hx
  obtain ⟨l, t, he, hl⟩ := exists_set_of_mem hx
  obtain ⟨l', t', h, hall⟩ := ht (.tag tag) trivial _ he
  cases h
  exact hall x hl

/-- A set that loses a member still fits. -/
theorem fits_withoutMember {m tag : String} {o : Option (Entry String Payload)}
    (h : ∀ e, o = some e → Fits cache pages (.tag tag) e) :
    ∀ e, withoutMember m o = some e → Fits cache pages (.tag tag) e := by
  intro e he
  match o with
  | none => cases he
  | some o' =>
    obtain ⟨l, t, rfl, hl⟩ := h o' rfl
    simp only [withoutMember] at he
    split at he
    · cases he
    · cases he
      exact ⟨_, t, rfl, fun x hx => hl x (List.mem_of_mem_filter hx)⟩

/-! ## A page out of its tag sets -/

/-- The keys once `pageKey` is out of the sets listed. -/
def unlinked (pageKey : String) (tagKeys : List String) (keys : Keyspace String Payload) :
    Keyspace String Payload :=
  fun k => if k ∈ tagKeys then withoutMember pageKey (keys k) else keys k

theorem unlinked_of_notMem {pageKey k : String} {tagKeys : List String} (h : k ∉ tagKeys) :
    unlinked pageKey tagKeys keys k = keys k := if_neg h

theorem unlinked_cons (pageKey a : String) (rest : List String) :
    unlinked pageKey (a :: rest) keys =
      unlinked pageKey rest (Function.update keys a (withoutMember pageKey (keys a))) := by
  funext k
  by_cases hka : k = a
  · subst k
    by_cases har : a ∈ rest
    · simp [unlinked, har, withoutMember_idem]
    · simp [unlinked, har]
  · by_cases hkr : k ∈ rest
    · simp [unlinked, hkr, hka]
    · simp [unlinked, hkr, hka]

theorem unlink_yields {s : Server String Payload} {pageKey : String} {tagKeys : List String}
    (h : ∀ k ∈ tagKeys, HoldsSet s.keys k) :
    Yields (tagKeys.forM fun tagKey => setRemove tagKey pageKey) s ()
      { s with keys := unlinked pageKey tagKeys s.keys } := by
  induction tagKeys generalizing s with
  | nil => exact Yields.pure () s
  | cons a rest ih =>
    rw [unlinked_cons]
    refine Yields.bind (f := fun _ => rest.forM fun tagKey => setRemove tagKey pageKey)
      (setRemove_yields (h a List.mem_cons_self)) ?_
    exact ih (s := s.put a (withoutMember pageKey (s.keys a)))
      (fun k hk => holdsSet_withoutMember (h k (List.mem_cons_of_mem _ hk)))

theorem Typed.unlinked (hd : KeysDistinct cache pages) (ht : Typed cache pages keys)
    (pageKey : String) {tagKeys : List String} (hl : ∀ x ∈ tagKeys, ∃ tag, x = cache.tagKey tag) :
    Typed cache pages (unlinked pageKey tagKeys keys) := by
  induction tagKeys generalizing keys with
  | nil =>
    intro f hf e he
    exact ht f hf e (by rwa [unlinked_of_notMem List.not_mem_nil] at he)
  | cons a rest ih =>
    obtain ⟨tag, rfl⟩ := hl a List.mem_cons_self
    rw [unlinked_cons]
    refine ih ?_ (fun x hx => hl x (List.mem_cons_of_mem _ hx))
    exact ht.update hd (g := .tag tag) trivial
      (fits_withoutMember (fun e he => ht (.tag tag) trivial e he))

/-- Unlinking a page leaves the other members of every set where they were. -/
theorem hasMember_unlinked {k m pageKey : String} {tagKeys : List String} {t : Nat}
    (h : HasMember keys k m t) (hne : m ≠ pageKey) :
    HasMember (unlinked pageKey tagKeys keys) k m t := by
  by_cases hk : k ∈ tagKeys
  · exact h.withoutMember hne (if_pos hk)
  · exact h.congr (if_neg hk)

/-! ## A page into its tag sets -/

/-- The keys after the second loop of `STORE_LUA`. -/
def linked (pageKey tagListKey : String) (t : Nat) :
    List String → Keyspace String Payload → Keyspace String Payload
  | [], keys => keys
  | a :: rest, keys =>
    let added := Function.update keys a (withMember pageKey (keys a))
    let timed := Function.update added a (expiringAt t (added a))
    linked pageKey tagListKey t rest
      (Function.update timed tagListKey (withMember a (timed tagListKey)))

theorem linked_of_notMem {pageKey tagListKey k : String} {t : Nat} {tagKeys : List String}
    (hk : k ∉ tagKeys) (hne : k ≠ tagListKey) :
    linked pageKey tagListKey t tagKeys keys k = keys k := by
  induction tagKeys generalizing keys with
  | nil => rfl
  | cons a rest ih =>
    have hka : k ≠ a := fun h => hk (h ▸ List.mem_cons_self)
    rw [linked, ih (fun h => hk (List.mem_cons_of_mem _ h)), Function.update_of_ne hne,
      Function.update_of_ne hka, Function.update_of_ne hka]

theorem holdsSet_expiringAt {k j : String} {t : Nat} (h : HoldsSet keys j) :
    HoldsSet (Function.update keys k (expiringAt t (keys k))) j := by
  intro e he
  by_cases hjk : j = k
  · subst j
    rw [Function.update_self] at he
    obtain ⟨e', he', rfl⟩ := Option.map_eq_some_iff.mp he
    exact h e' he'
  · rw [Function.update_of_ne hjk] at he
    exact h e he

theorem link_yields {s : Server String Payload} {pageKey tagListKey : String} {setTtl : Nat}
    {pairs : List (String × String)} (h : ∀ p ∈ pairs, HoldsSet s.keys p.1)
    (hl : HoldsSet s.keys tagListKey) :
    Yields (pairs.forM fun pair => do
        setAdd pair.1 pageKey
        expire pair.1 setTtl
        setAdd tagListKey pair.1) s ()
      { s with
        keys := linked pageKey tagListKey (s.clock + setTtl * 1000) (pairs.map Prod.fst)
          s.keys } := by
  induction pairs generalizing s with
  | nil => exact Yields.pure () s
  | cons pair rest ih =>
    have keep : ∀ k, HoldsSet s.keys k → HoldsSet (Function.update
        (Function.update s.keys pair.1 (withMember pageKey (s.keys pair.1))) pair.1
        (expiringAt (s.clock + setTtl * 1000) (Function.update s.keys pair.1
          (withMember pageKey (s.keys pair.1)) pair.1))) k :=
      fun k hk => holdsSet_expiringAt (holdsSet_withMember hk)
    refine Yields.bind (f := fun _ => rest.forM fun pair => do
        setAdd pair.1 pageKey
        expire pair.1 setTtl
        setAdd tagListKey pair.1)
      ((setAdd_yields (h pair List.mem_cons_self)).bind
        (expire_yields.bind (setAdd_yields (keep _ hl)))) ?_
    exact ih (fun p hp => holdsSet_withMember (keep _ (h p (List.mem_cons_of_mem _ hp))))
      (holdsSet_withMember (keep _ hl))

/-- A set that gains a page still fits; so does a tag list that gains a tag. -/
theorem fits_withMember {f : CacheKey} {m : String} {o : Option (Entry String Payload)}
    (h : ∀ e, o = some e → Fits cache pages f e)
    (hf : (∃ tag key, f = .tag tag ∧ key ∈ pages ∧ m = cache.pageKey key) ∨
      ∃ key tag, f = .tagList key ∧ m = cache.tagKey tag) :
    ∀ e, withMember m o = some e → Fits cache pages f e := by
  intro e he
  rcases hf with ⟨tag, key, rfl, hkey, rfl⟩ | ⟨key, tag, rfl, rfl⟩
  · match o with
    | none => cases he; exact ⟨_, _, rfl, fun x hx => ⟨key, hkey, List.mem_singleton.mp hx⟩⟩
    | some o' =>
      obtain ⟨l, t, rfl, hl⟩ := h o' rfl
      cases he
      refine ⟨_, t, rfl, fun x hx => ?_⟩
      split at hx
      · exact hl x hx
      · rcases List.mem_cons.mp hx with rfl | hx
        · exact ⟨key, hkey, rfl⟩
        · exact hl x hx
  · match o with
    | none => cases he; exact ⟨_, _, rfl, fun x hx => ⟨tag, List.mem_singleton.mp hx⟩⟩
    | some o' =>
      obtain ⟨l, t, rfl, hl⟩ := h o' rfl
      cases he
      refine ⟨_, t, rfl, fun x hx => ?_⟩
      split at hx
      · exact hl x hx
      · rcases List.mem_cons.mp hx with rfl | hx
        · exact ⟨tag, rfl⟩
        · exact hl x hx

/-- Whether an entry fits has nothing to do with its expiry. -/
theorem Fits.congr {f : CacheKey} {e e' : Entry String Payload} (h : Fits cache pages f e)
    (hvalue : e'.value = e.value) : Fits cache pages f e' := by
  obtain ⟨value, t⟩ := e'
  subst hvalue
  cases f with
  | page key => obtain ⟨stored, x, rfl⟩ := h; exact ⟨stored, t, rfl⟩
  | tagList key => obtain ⟨l, x, rfl, hl⟩ := h; exact ⟨l, t, rfl, hl⟩
  | tag tag => obtain ⟨l, x, rfl, hl⟩ := h; exact ⟨l, t, rfl, hl⟩
  | purged tag => obtain ⟨ms, x, rfl⟩ := h; exact ⟨ms, t, rfl⟩

theorem fits_expiringAt {f : CacheKey} {t : Nat} {o : Option (Entry String Payload)}
    (h : ∀ e, o = some e → Fits cache pages f e) :
    ∀ e, expiringAt t o = some e → Fits cache pages f e := by
  intro e he
  obtain ⟨e', rfl, rfl⟩ := Option.map_eq_some_iff.mp he
  exact (h e' rfl).congr rfl

theorem Typed.linked (hd : KeysDistinct cache pages) (ht : Typed cache pages keys) {key : String}
    (hk : key ∈ pages) (t : Nat) (tags : List String) :
    Typed cache pages (linked (cache.pageKey key) (tagListOf (cache.pageKey key)) t
      (tags.map cache.tagKey) keys) := by
  induction tags generalizing keys with
  | nil => exact ht
  | cons tag rest ih =>
    refine @ih (Function.update _ _ _) ?_
    have h1 := ht.update hd (g := .tag tag) trivial
      (fits_withMember (m := cache.pageKey key) (fun e he => ht (.tag tag) trivial e he)
        (.inl ⟨tag, key, rfl, hk, rfl⟩))
    have h2 := h1.update hd (g := .tag tag) trivial
      (fits_expiringAt (t := t) (fun e he => h1 (.tag tag) trivial e he))
    exact h2.update hd (g := .tagList key) hk
      (fits_withMember (m := cache.tagKey tag) (fun e he => h2 (.tagList key) hk e he)
        (.inr ⟨key, tag, rfl, rfl⟩))

/-- Linking keeps every member of every set, at least as long as before. -/
theorem hasMember_linked {k m pageKey tagListKey : String} {t t' : Nat} {tagKeys : List String}
    (h : HasMember keys k m t) (ht : t ≤ t') (hne : k ≠ tagListKey) :
    HasMember (linked pageKey tagListKey t' tagKeys keys) k m t := by
  induction tagKeys generalizing keys with
  | nil => exact h
  | cons a rest ih =>
    refine ih ?_
    by_cases hka : k = a
    · subst k
      exact h.withMember pageKey ht (by simp [Function.update_of_ne hne])
    · exact h.congr (by
        rw [Function.update_of_ne hne, Function.update_of_ne hka, Function.update_of_ne hka])

/-- Linking puts the page into every set listed. -/
theorem linked_joins {pageKey tagListKey k : String} {t : Nat} {tagKeys : List String}
    (hk : k ∈ tagKeys) (hset : ∀ k ∈ tagKeys, HoldsSet keys k) (hne : k ≠ tagListKey)
    (hl : HoldsSet keys tagListKey) :
    HasMember (linked pageKey tagListKey t tagKeys keys) k pageKey t := by
  induction tagKeys generalizing keys with
  | nil => exact absurd hk List.not_mem_nil
  | cons a rest ih =>
    by_cases hka : k = a
    · subst k
      rw [linked]
      refine hasMember_linked ?_ (Nat.le_refl t) hne
      exact HasMember.joined (hset a List.mem_cons_self)
        (by rw [Function.update_of_ne hne, Function.update_self, Function.update_self])
    · refine ih ((List.mem_cons.mp hk).resolve_left hka) ?_ ?_
      · exact fun j hj => holdsSet_withMember (holdsSet_expiringAt
          (holdsSet_withMember (hset j (List.mem_cons_of_mem _ hj))))
      · exact holdsSet_withMember (holdsSet_expiringAt (holdsSet_withMember hl))

/-! ## The scripts -/

/-- Whether the tag's stamp is at or after `renderedFrom`. -/
def stampedSince (keys : Keyspace String Payload) (renderedFrom : Nat) (stampKey : String) :
    Bool :=
  match Entry.payload (keys stampKey) with
  | some (.stamp ms) => decide (renderedFrom ≤ ms)
  | _ => false

theorem overtaken_yields {s : Server String Payload} (renderedFrom : Nat)
    {pairs : List (String × String)} (h : ∀ p ∈ pairs, HoldsStr s.keys p.2) :
    Yields (overtaken renderedFrom pairs) s
      (pairs.any fun p => stampedSince s.keys renderedFrom p.2) s := by
  induction pairs with
  | nil => exact Yields.pure false s
  | cons pair rest ih =>
    have ih := ih (fun p hp => h p (List.mem_cons_of_mem _ hp))
    rw [overtaken]
    refine (strGet_yields (h pair List.mem_cons_self)).bind ?_
    rw [List.any_cons, stampedSince]
    match Entry.payload (s.keys pair.2) with
    | some (.stamp ms) =>
      by_cases hms : renderedFrom ≤ ms
      · simp only [hms, if_true, decide_true, Bool.true_or]
        exact Yields.pure true s
      · simpa [hms] using ih
    | some (.page stored) => simpa using ih
    | none => simpa using ih

/-- The keys after a store that was not overtaken. -/
def storedKeys (clock : Nat) (key : String) (tags : List String) (stored : StoredPage)
    (cache : Cache) (keys : Keyspace String Payload) : Keyspace String Payload :=
  let pageKey := cache.pageKey key
  let listKey := tagListOf pageKey
  let free := Function.update (unlinked pageKey (Entry.members (keys listKey)) keys) listKey none
  let written := Function.update free pageKey
    (some ⟨.str (.page stored), some (clock + cache.options.ttlSeconds * 1000)⟩)
  let indexed := linked pageKey listKey (clock + cache.setTtl * 1000)
    (tags.map cache.tagKey) written
  Function.update indexed listKey
    (expiringAt (clock + cache.setTtl * 1000) (indexed listKey))

theorem tagPairs_fst (cache : Cache) (tags : List String) :
    (cache.tagPairs tags).map Prod.fst = tags.map cache.tagKey := by
  simp [Cache.tagPairs]

/-- The keys are typed just before a store links its page. -/
theorem Typed.written (hd : KeysDistinct cache pages) (ht : Typed cache pages keys) {key : String}
    (hk : key ∈ pages) (stored : StoredPage) (t : Option Nat) :
    Typed cache pages (Function.update (Function.update (PageCache.unlinked (cache.pageKey key)
        (Entry.members (keys (tagListOf (cache.pageKey key)))) keys)
        (tagListOf (cache.pageKey key)) none)
      (cache.pageKey key) (some ⟨.str (.page stored), t⟩)) := by
  have h1 := (ht.unlinked hd (cache.pageKey key) (ht.tagList_members hk)).update hd
    (g := .tagList key) hk (o := none) (fun e he => by cases he)
  exact h1.update hd (g := .page key) hk (fun e he => by cases he; exact ⟨stored, t, rfl⟩)

theorem Typed.storedKeys (hd : KeysDistinct cache pages) (ht : Typed cache pages keys)
    {key : String} (hk : key ∈ pages) {clock : Nat} {tags : List String} {stored : StoredPage} :
    Typed cache pages (storedKeys clock key tags stored cache keys) := by
  have h := (ht.written hd hk stored (some (clock + cache.options.ttlSeconds * 1000))).linked hd hk
    (clock + cache.setTtl * 1000) tags
  exact h.update hd (g := .tagList key) hk
    (fits_expiringAt (fun e he => h (.tagList key) hk e he))

/-- **What a store leaves alone**: every key but the page, its tag list and the tag
sets. -/
theorem storedKeys_of_ne (hd : KeysDistinct cache pages) (ht : Typed cache pages keys)
    {key : String} (hk : key ∈ pages) {clock : Nat} {tags : List String} {stored : StoredPage}
    {g : CacheKey} (hg : InUse pages g) (htag : ∀ tag, g ≠ .tag tag) (hlist : g ≠ .tagList key)
    (hpage : g ≠ .page key) :
    storedKeys clock key tags stored cache keys (cache.keyOf g) = keys (cache.keyOf g) := by
  have hneList : cache.keyOf g ≠ tagListOf (cache.pageKey key) :=
    fun heq => hlist (hd g (.tagList key) hg hk heq)
  have hnePage : cache.keyOf g ≠ cache.pageKey key :=
    fun heq => hpage (hd g (.page key) hg hk heq)
  rw [storedKeys, Function.update_of_ne hneList,
    linked_of_notMem (hd.notMem_tags hg htag tags) hneList, Function.update_of_ne hnePage,
    Function.update_of_ne hneList, unlinked_of_notMem (ht.notMem_tagList hd hk hg htag)]

/-- Every tag that a page is filed under has a set. -/
theorem Typed.holdsSet_members (ht : Typed cache pages keys) {key : String} (hk : key ∈ pages) :
    ∀ k ∈ Entry.members (keys (tagListOf (cache.pageKey key))), HoldsSet keys k := by
  intro k hm
  obtain ⟨tag, rfl⟩ := ht.tagList_members hk k hm
  exact ht.holdsSet_tag tag

theorem storeScript_yields (hd : KeysDistinct cache pages) {s : Server String Payload}
    (ht : Typed cache pages s.keys) {key : String} (hk : key ∈ pages) (tags : List String)
    (stored : StoredPage) (renderedFrom : Nat) :
    Yields (storeScript (cache.pageKey key) (tagListOf (cache.pageKey key)) (cache.tagPairs tags)
        (.page stored) cache.options.ttlSeconds renderedFrom cache.setTtl) s
      (if tags.any fun tag => stampedSince s.keys renderedFrom (cache.stampKey tag) then 0 else 1)
      (if tags.any fun tag => stampedSince s.keys renderedFrom (cache.stampKey tag) then s
        else { s with keys := storedKeys s.clock key tags stored cache s.keys }) := by
  have hstamps : ∀ p ∈ cache.tagPairs tags, HoldsStr s.keys p.2 := by
    intro p hp
    obtain ⟨tag, -, rfl⟩ := List.mem_map.mp hp
    exact ht.holdsStr_purged tag
  have hany : ((cache.tagPairs tags).any fun p => stampedSince s.keys renderedFrom p.2) =
      tags.any fun tag => stampedSince s.keys renderedFrom (cache.stampKey tag) := by
    simp [Cache.tagPairs, Function.comp_def]
  have hover := overtaken_yields renderedFrom hstamps
  rw [hany] at hover
  refine hover.bind ?_
  cases tags.any fun tag => stampedSince s.keys renderedFrom (cache.stampKey tag) with
  | true => exact Yields.pure 0 s
  | false =>
    have hw := ht.written hd hk stored (some (s.clock + cache.options.ttlSeconds * 1000))
    have hsets : ∀ p ∈ cache.tagPairs tags, HoldsSet (Function.update (Function.update
        (PageCache.unlinked (cache.pageKey key)
          (Entry.members (s.keys (tagListOf (cache.pageKey key)))) s.keys)
        (tagListOf (cache.pageKey key)) none) (cache.pageKey key)
        (some ⟨.str (.page stored), some (s.clock + cache.options.ttlSeconds * 1000)⟩)) p.1 := by
      intro p hp
      obtain ⟨tag, -, rfl⟩ := List.mem_map.mp hp
      exact hw.holdsSet_tag tag
    refine (setMembers_yields (ht.holdsSet_tagList hk)).bind
      ((unlink_yields (ht.holdsSet_members hk)).bind (del_yields.bind
        ((strSet_yields cache.options.ttl_pos).bind
          ((link_yields hsets (hw.holdsSet_tagList hk)).bind
            (expire_yields.bind ?_)))))
    rw [tagPairs_fst]
    exact Yields.pure 1 _

/-- The keys once a page is gone, its own tag list with it. -/
def forgotten (keys : Keyspace String Payload) (pageKey : String) : Keyspace String Payload :=
  Function.update (Function.update
    (unlinked pageKey (Entry.members (keys (tagListOf pageKey))) keys)
    (tagListOf pageKey) none) pageKey none

theorem Typed.forgotten (hd : KeysDistinct cache pages) (ht : Typed cache pages keys)
    {key : String} (hk : key ∈ pages) : Typed cache pages (forgotten keys (cache.pageKey key)) := by
  have h1 := (ht.unlinked hd (cache.pageKey key) (ht.tagList_members hk)).update hd
    (g := .tagList key) hk (o := none) (fun e he => by cases he)
  exact h1.update hd (g := .page key) hk (fun e he => by cases he)

/-- The pages of which there is an entry. -/
def storedPages (cache : Cache) (pages : Set String) (keys : Keyspace String Payload) :
    Set String := {key | key ∈ pages ∧ (keys (cache.pageKey key)).isSome = true}

/-- Between two keyspaces `n` pages go, and none comes. -/
structure Removes (cache : Cache) (pages : Set String) (n : Nat)
    (keys keys' : Keyspace String Payload) : Prop where
  left : storedPages cache pages keys' ⊆ storedPages cache pages keys
  gone : (storedPages cache pages keys \ storedPages cache pages keys').encard = n

theorem Removes.none {keys' : Keyspace String Payload}
    (h : storedPages cache pages keys' = storedPages cache pages keys) :
    Removes cache pages 0 keys keys' where
  left := h.subset
  gone := by simp [h]

theorem Removes.trans {a b : Nat} {keys' keys'' : Keyspace String Payload}
    (h : Removes cache pages a keys keys') (h' : Removes cache pages b keys' keys'') :
    Removes cache pages (a + b) keys keys'' where
  left := h'.left.trans h.left
  gone := by
    have hunion := Set.sdiff_union_sdiff_cancel h.left h'.left
    have hdisjoint : Disjoint (storedPages cache pages keys \ storedPages cache pages keys')
        (storedPages cache pages keys' \ storedPages cache pages keys'') :=
      Set.disjoint_left.mpr fun _ hx hx' => hx.2 hx'.1
    rw [← hunion, Set.encard_union_eq hdisjoint, h.gone, h'.gone, Nat.cast_add]

/-- The page keys once a page is gone. -/
theorem forgotten_page (hd : KeysDistinct cache pages) (ht : Typed cache pages keys)
    {key key' : String} (hk : key ∈ pages) (hk' : key' ∈ pages) :
    forgotten keys (cache.pageKey key) (cache.pageKey key') =
      if key' = key then none else keys (cache.pageKey key') := by
  rw [forgotten]
  by_cases hkey : key' = key
  · rw [if_pos hkey, hkey, Function.update_self]
  · rw [if_neg hkey, Function.update_of_ne (hd.page_ne_page hk' hk hkey),
      Function.update_of_ne (hd.page_ne_tagList hk' hk),
      unlinked_of_notMem (ht.page_notMem_tagList hd hk hk')]

theorem forgotten_removes (hd : KeysDistinct cache pages) (ht : Typed cache pages keys)
    {key : String} (hk : key ∈ pages) :
    Removes cache pages (if (keys (cache.pageKey key)).isSome then 1 else 0) keys
      (forgotten keys (cache.pageKey key)) := by
  have hstored : storedPages cache pages (forgotten keys (cache.pageKey key)) =
      storedPages cache pages keys \ {key} := by
    ext key'
    simp only [storedPages, Set.mem_ofPred_eq, Set.mem_sdiff, Set.mem_singleton_iff]
    constructor
    · rintro ⟨hk', hsome⟩
      rw [forgotten_page hd ht hk hk'] at hsome
      by_cases hkey : key' = key
      · simp [hkey] at hsome
      · exact ⟨⟨hk', by rwa [if_neg hkey] at hsome⟩, hkey⟩
    · rintro ⟨⟨hk', hsome⟩, hkey⟩
      exact ⟨hk', by rwa [forgotten_page hd ht hk hk', if_neg hkey]⟩
  refine ⟨hstored ▸ Set.sdiff_subset, ?_⟩
  rw [hstored]
  split
  · rename_i hsome
    have hmem : {key} ⊆ storedPages cache pages keys :=
      Set.singleton_subset_iff.mpr ⟨hk, hsome⟩
    rw [Set.sdiff_sdiff_cancel_left hmem, Set.encard_singleton, Nat.cast_one]
  · rename_i hnone
    have hmem : key ∉ storedPages cache pages keys := fun h => hnone h.2
    rw [Set.sdiff_singleton_eq_self hmem, Set.sdiff_self, Set.encard_empty, Nat.cast_zero]

theorem purgeMember_yields (hd : KeysDistinct cache pages) {s : Server String Payload}
    (ht : Typed cache pages s.keys) {key : String} (hk : key ∈ pages) (removed : Nat) :
    Yields (purgeMember removed (cache.pageKey key)) s
      (removed + if (s.keys (cache.pageKey key)).isSome then 1 else 0)
      { s with keys := forgotten s.keys (cache.pageKey key) } := by
  have hpage : Function.update (unlinked (cache.pageKey key)
      (Entry.members (s.keys (tagListOf (cache.pageKey key)))) s.keys)
      (tagListOf (cache.pageKey key)) none (cache.pageKey key) = s.keys (cache.pageKey key) := by
    rw [Function.update_of_ne (hd.page_ne_tagList hk hk),
      unlinked_of_notMem (ht.page_notMem_tagList hd hk hk)]
  rw [← hpage]
  exact (setMembers_yields (ht.holdsSet_tagList hk)).bind
    ((unlink_yields (ht.holdsSet_members hk)).bind (del_yields.bind (del_yields.bind (Yields.pure _ _))))

/-- The keys once every page of a list of keys is gone. -/
def allForgotten (pageKeys : List String) (keys : Keyspace String Payload) :
    Keyspace String Payload := pageKeys.foldl forgotten keys

theorem purgeMembers_yields (hd : KeysDistinct cache pages) {s : Server String Payload}
    (ht : Typed cache pages s.keys) {pageKeys : List String}
    (hp : ∀ x ∈ pageKeys, ∃ key ∈ pages, x = cache.pageKey key) (removed : Nat) :
    ∃ n, Removes cache pages n s.keys (allForgotten pageKeys s.keys) ∧
      Yields (pageKeys.foldlM purgeMember removed) s (removed + n)
        { s with keys := allForgotten pageKeys s.keys } := by
  induction pageKeys generalizing s removed with
  | nil => exact ⟨0, Removes.none rfl, Yields.pure removed s⟩
  | cons a rest ih =>
    obtain ⟨key, hk, rfl⟩ := hp a List.mem_cons_self
    have h1 := purgeMember_yields hd ht hk removed
    obtain ⟨n, hn, h2⟩ := ih
      (s := { s with keys := PageCache.forgotten s.keys (cache.pageKey key) })
      (ht.forgotten hd hk) (fun x hx => hp x (List.mem_cons_of_mem _ hx)) _
    refine ⟨_, (forgotten_removes hd ht hk).trans hn, ?_⟩
    rw [← Nat.add_assoc]
    exact h1.bind h2

theorem Typed.allForgotten (hd : KeysDistinct cache pages) {pageKeys : List String}
    (hp : ∀ x ∈ pageKeys, ∃ key ∈ pages, x = cache.pageKey key) (ht : Typed cache pages keys) :
    Typed cache pages (allForgotten pageKeys keys) := by
  induction pageKeys generalizing keys with
  | nil => exact ht
  | cons a rest ih =>
    obtain ⟨key, hk, rfl⟩ := hp a List.mem_cons_self
    exact ih (fun x hx => hp x (List.mem_cons_of_mem _ hx)) (ht.forgotten hd hk)

/-- The keys after a purge of one tag. -/
def purgedKeys (cache : Cache) (clock : Nat) (keys : Keyspace String Payload) (tag : String) :
    Keyspace String Payload :=
  Function.update (Function.update
    (allForgotten (Entry.members (keys (cache.tagKey tag))) keys) (cache.tagKey tag) none)
    (cache.stampKey tag)
    (some ⟨.str (.stamp clock), some (clock + cache.options.purgeStampTtlSeconds * 1000)⟩)

theorem Typed.purgedKeys (hd : KeysDistinct cache pages) (ht : Typed cache pages keys)
    {clock : Nat} {tag : String} : Typed cache pages (purgedKeys cache clock keys tag) := by
  have h1 := (ht.allForgotten hd (ht.tag_members tag)).update hd (g := .tag tag) trivial
    (o := none) (fun e he => by cases he)
  exact h1.update hd (g := .purged tag) trivial (fun e he => by cases he; exact ⟨clock, _, rfl⟩)

/-- A purge of one tag changes, once its pages are gone, no key but the tag's set and its stamp. -/
theorem purgedKeys_of_ne (hd : KeysDistinct cache pages) {clock : Nat} {tag : String}
    {g : CacheKey} (hg : InUse pages g) (htag : g ≠ .tag tag) (hstamp : g ≠ .purged tag) :
    purgedKeys cache clock keys tag (cache.keyOf g) =
      allForgotten (Entry.members (keys (cache.tagKey tag))) keys (cache.keyOf g) := by
  have hneStamp : cache.keyOf g ≠ cache.stampKey tag :=
    fun heq => hstamp (hd g (.purged tag) hg trivial heq)
  have hneTag : cache.keyOf g ≠ cache.tagKey tag := fun heq => htag (hd g (.tag tag) hg trivial heq)
  rw [purgedKeys, Function.update_of_ne hneStamp, Function.update_of_ne hneTag]

/-- A purge of every tag of a list keeps the families. -/
theorem Typed.purgedAll (hd : KeysDistinct cache pages) (ht : Typed cache pages keys)
    (clock : Nat) (tags : List String) :
    Typed cache pages (tags.foldl (PageCache.purgedKeys cache clock) keys) := by
  induction tags generalizing keys with
  | nil => exact ht
  | cons tag rest ih => exact ih (ht.purgedKeys hd)

theorem purgedKeys_removes (hd : KeysDistinct cache pages) {n clock : Nat} {tag : String}
    (h : Removes cache pages n keys (allForgotten (Entry.members (keys (cache.tagKey tag))) keys)) :
    Removes cache pages n keys (purgedKeys cache clock keys tag) := by
  refine h.trans (Removes.none ?_)
  ext key
  refine and_congr_right fun hk => ?_
  have hkept : purgedKeys cache clock keys tag (cache.pageKey key) =
      allForgotten (Entry.members (keys (cache.tagKey tag))) keys (cache.pageKey key) :=
    purgedKeys_of_ne hd (g := .page key) hk (by simp) (by simp)
  rw [hkept]

theorem purgeTags_yields (hd : KeysDistinct cache pages) {s : Server String Payload}
    (ht : Typed cache pages s.keys) (tags : List String) (removed : Nat) :
    ∃ n, Removes cache pages n s.keys (tags.foldl (purgedKeys cache s.clock) s.keys) ∧
      Yields ((cache.tagPairs tags).foldlM
        (purgeTag s.clock cache.options.purgeStampTtlSeconds) removed) s (removed + n)
        { s with keys := tags.foldl (purgedKeys cache s.clock) s.keys } := by
  induction tags generalizing s removed with
  | nil => exact ⟨0, Removes.none rfl, Yields.pure removed s⟩
  | cons tag rest ih =>
    obtain ⟨n, hn, h1⟩ := purgeMembers_yields hd ht (ht.tag_members tag) removed
    obtain ⟨m, hm, h2⟩ := ih
      (s := { s with keys := PageCache.purgedKeys cache s.clock s.keys tag })
      (ht.purgedKeys hd) (removed + n)
    refine ⟨n + m, (purgedKeys_removes hd hn).trans hm, ?_⟩
    rw [← Nat.add_assoc]
    exact ((setMembers_yields (ht.holdsSet_tag tag)).bind (h1.bind (del_yields.bind
      (Yields.bind (f := fun _ => pure (removed + n)) (strSet_yields cache.options.stamp_pos)
        (Yields.pure (removed + n) _))))).bind h2

theorem purgeScript_yields (hd : KeysDistinct cache pages) {s : Server String Payload}
    (ht : Typed cache pages s.keys) (tags : List String) :
    ∃ removed, Removes cache pages removed s.keys (tags.foldl (purgedKeys cache s.clock) s.keys) ∧
      Yields (purgeScript cache.options.purgeStampTtlSeconds (cache.tagPairs tags)) s
        removed { s with keys := tags.foldl (purgedKeys cache s.clock) s.keys } := by
  obtain ⟨removed, hremoves, h⟩ := purgeTags_yields hd ht tags 0
  rw [Nat.zero_add] at h
  exact ⟨removed, hremoves, time_yields.bind h⟩

theorem lookupScript_yields {s : Server String Payload} (ht : Typed cache pages s.keys)
    {key : String} (hk : key ∈ pages) :
    Yields (lookupScript (cache.pageKey key)) s
      (s.clock, Entry.payload (s.keys (cache.pageKey key))) s :=
  (strGet_yields (ht.holdsStr_page hk)).bind (time_yields.bind (Yields.pure _ s))

/-! ## The calls -/

section Calls
variable {s : Server String Payload}

/-- The keys stay typed when the expired ones go. -/
theorem Typed.expire (ht : Typed cache pages s.keys) : Typed cache pages s.expire.keys :=
  fun f hf e he => ht f hf e (s.expire_keys.mp he).1

/-- What a lookup answers, with the keys as they are once expired ones are gone. -/
theorem Typed.lookup (ht : Typed cache pages s.keys) {key : String} (hk : key ∈ pages) :
    cache.lookup key s =
      (.ok (match Entry.payload (s.expire.keys (cache.pageKey key)) with
        | some (.page stored) => .hit stored.toCachedPage s.clock
        | _ => .miss s.clock), s.expire) := by
  have hy := (lookupScript_yields ht.expire hk).eval
  unfold Cache.lookup
  rw [hy]
  cases hp : Entry.payload (s.expire.keys (cache.pageKey key)) with
  | none => rfl
  | some p => cases p <;> rfl

/-- A store whose tags are tags answers false and leaves the keys alone where it was
overtaken, and else answers true and writes. -/
theorem Typed.store (hd : KeysDistinct cache pages) (ht : Typed cache pages s.keys)
    {key : String} (hk : key ∈ pages) {page : CachedPage} {tags : List String}
    {renderedFrom : Nat} (htags : (uniqueSorted tags).mapM assertTag = .ok (uniqueSorted tags)) :
    cache.store key page tags renderedFrom s =
      if (uniqueSorted tags).any fun tag =>
          stampedSince s.expire.keys renderedFrom (cache.stampKey tag)
      then (.ok false, s.expire)
      else (.ok true, { s.expire with
        keys := PageCache.storedKeys s.clock key (uniqueSorted tags)
          { page with storedAt := renderedFrom } cache s.expire.keys }) := by
  have hy := (storeScript_yields hd ht.expire hk (uniqueSorted tags)
    { page with storedAt := renderedFrom } renderedFrom).eval
  unfold Cache.store
  rw [htags]
  simp only [hy]
  split <;> rfl

/-- A purge either throws, leaving the keys alone, or purges every tag in turn. -/
theorem Typed.purgeTags (hd : KeysDistinct cache pages) (ht : Typed cache pages s.keys)
    (tags : List String) :
    (∃ tag, cache.purgeTags tags s = (.error (.notATag tag), s)) ∨
    (uniqueSorted tags = [] ∧ cache.purgeTags tags s = (.ok 0, s)) ∨
    ∃ removed, Removes cache pages removed s.expire.keys
        ((uniqueSorted tags).foldl (PageCache.purgedKeys cache s.clock) s.expire.keys) ∧
      cache.purgeTags tags s = (.ok removed, { s.expire with
        keys := (uniqueSorted tags).foldl (PageCache.purgedKeys cache s.clock) s.expire.keys }) := by
  by_cases hnil : uniqueSorted tags = []
  · exact .inr (.inl ⟨hnil, by rw [Cache.purgeTags, if_pos hnil]⟩)
  · cases hm : (uniqueSorted tags).mapM assertTag with
    | error e =>
      obtain ⟨tag, rfl⟩ := mapM_assertTag_error hm
      exact .inl ⟨tag, by rw [Cache.purgeTags, if_neg hnil, hm]⟩
    | ok tags' =>
      obtain rfl := mapM_assertTag hm
      obtain ⟨removed, hremoves, hy⟩ := purgeScript_yields hd ht.expire (uniqueSorted tags)
      refine .inr (.inr ⟨removed, hremoves, ?_⟩)
      rw [Cache.purgeTags, if_neg hnil, hm]
      simp only [hy.eval]
      rfl

/-- A purge of legal tags answers. -/
theorem Typed.purge_answers (hd : KeysDistinct cache pages) (ht : Typed cache pages s.keys)
    {tags : List String} (htags : ∀ tag ∈ tags, isTag tag = true) :
    ∃ removed, (cache.purgeTags tags s).1 = .ok removed := by
  by_cases hnil : uniqueSorted tags = []
  · exact ⟨0, by rw [Cache.purgeTags, if_pos hnil]⟩
  · have hm := mapM_assertTag_of_isTag fun tag hm => htags tag (mem_uniqueSorted.mp hm)
    obtain ⟨removed, -, hy⟩ := purgeScript_yields hd ht.expire (uniqueSorted tags)
    refine ⟨removed, ?_⟩
    rw [Cache.purgeTags, if_neg hnil, hm]
    simp only [hy.eval]
    rfl

end Calls
end PressLabz.PageCache
