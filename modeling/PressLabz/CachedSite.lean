import PressLabz.CacheProvider

/-! # The cached site over a database that is written to

The parts put together: the site renders what it reads from the database, the provider
keeps the pages, the API commits writes and afterwards purges what each of them
announced.  Nothing orders these but that a purge of a write follows it.

A page is rendered from the database at one instant, between the lookup that missed and
the store.  From then on writes are committed, one after the other (`Chain`).  A write
whose purge has run is either not seen on the page, or the page is gone: so a page that
a reader is handed is the page the site would render now, unless a write since has its
purge still to come, or moved what is above the documents of the page (`hit_current`).
-/
namespace PressLabz.CachedSite
open PageCache CacheProvider Valkey

/-! ## Writes -/

/-- A write that was committed, at a clock of the store. -/
structure Commit where
  write : Write
  found : Database
  left : Database
  at_ : Nat
  commits : write.Commits found left
  foundInv : ContentsInv found
  leftInv : ContentsInv left

/-- The commits lead from one state of the database to another, oldest first. -/
def Chain (db : Database) : List Commit → Database → Prop
  | [], db' => db = db'
  | c :: rest, db' => c.found = db ∧ Chain c.left rest db'

theorem Chain.snoc {db db' : Database} {cs : List Commit} (h : Chain db cs db') {c : Commit}
    (hfound : c.found = db') : Chain db (cs ++ [c]) c.left := by
  induction cs generalizing db with
  | nil =>
    obtain rfl : db = db' := h
    exact ⟨hfound, rfl⟩
  | cons first rest ih => exact ⟨h.1, ih h.2⟩

/-- A call of the repository, as the row locks let it commit. -/
def Commit.ofRun {I : Type} [DecidableEq I] {«media» : List MediaRow} {m : ContentMachine I}
    (hrun : RowLocks.Run engine program (fun _ => True) (.start (Database.empty «media»)) m)
    {e : RowLocks.Committed Database Call (List ContentRow)} (he : e ∈ m.log) (at_ : Nat) :
    Commit where
  write := .content e.call e.answer
  found := e.found
  left := e.left
  at_ := at_
  commits := (run_commits hrun he).1
  foundInv := (run_commits hrun he).2.1
  leftInv := (run_commits hrun he).2.2

/-- A change of the text of an asset keeps what the schema asks. -/
theorem contentsInv_patchMediaAlt {db left : Database} {id : Uuid}
    {patch : List (String × Option String)} {authorize : MediaRow → Bool} {row : Option MediaRow}
    (h : ContentsInv db) (hpatch : db.patchMediaAlt id patch authorize = .ok (row, left)) :
    ContentsInv left := by
  unfold Database.patchMediaAlt at hpatch
  split at hpatch
  · cases hpatch
    exact h
  · split at hpatch
    · cases hpatch
    · cases hpatch
      refine ⟨{ h.constraints with content_media_media_fk := fun m hm => ?_ }, h.tree⟩
      obtain ⟨a, ha, hid⟩ := h.constraints.content_media_media_fk m hm
      refine ⟨_, List.mem_map_of_mem ha, ?_⟩
      split
      · exact hid
      · exact hid

/-- The deletion of an asset that no document names keeps what the schema asks. -/
theorem contentsInv_deleteMedia {db left : Database} {id : Uuid} {row : Option MediaRow}
    (h : ContentsInv db) (hdelete : db.deleteMedia id = .ok (row, left)) : ContentsInv left := by
  unfold Database.deleteMedia at hdelete
  split at hdelete
  · cases hdelete
  · rename_i hunused
    cases hdelete
    refine ⟨{ h.constraints with content_media_media_fk := fun m hm => ?_ }, h.tree⟩
    obtain ⟨a, ha, hid⟩ := h.constraints.content_media_media_fk m hm
    refine ⟨a, List.mem_filter.mpr ⟨ha, decide_eq_true fun heq => ?_⟩, hid⟩
    exact hunused (List.any_eq_true.mpr ⟨m, hm, decide_eq_true (hid.symm.trans heq)⟩)

/-- A write of media, in a state that meets the invariant. -/
def Commit.ofMedia {write : Write} {found left : Database} (hinv : ContentsInv found)
    (hmedia : ∀ call answer, write ≠ .content call answer) (hcommits : write.Commits found left)
    (at_ : Nat) : Commit where
  write := write
  found := found
  left := left
  at_ := at_
  commits := hcommits
  foundInv := hinv
  leftInv := by
    cases write with
    | content call answer => exact absurd rfl (hmedia call answer)
    | patchMediaAlt id patch authorize =>
      obtain ⟨row, h⟩ := hcommits
      exact contentsInv_patchMediaAlt hinv h
    | deleteMedia id =>
      obtain ⟨row, h⟩ := hcommits
      exact contentsInv_deleteMedia hinv h

/-! ## Renders -/

/-- The text of a tag, as `tags.ts` builds it. -/
def tagText (uuidText : Uuid → String) : CacheTag → String
  | .content id => "content:" ++ uuidText id
  | .contentList type locale => "list:" ++ type ++ ":" ++ locale
  | .translationGroup id => "group:" ++ uuidText id
  | .media id => "media:" ++ uuidText id

/-- What `[locale]/[...path].astro` is asked by a URL. -/
def requestOf (url : SiteUrl) : Option PageRequest :=
  (requestAt url.pathname).map fun request => { request with page := url.get PAGE_PARAM }

/-- What is fixed: the cache, the site, and what Astro and the theme make of a page. -/
structure Setup where
  cache : Cache
  localeLe : String → String → Bool
  urls : Set SiteUrl
  site : Site
  uuidText : Uuid → String
  /-- The response of a route, with the headers of its rule. -/
  template : SiteUrl → Response → RouteResponse
  template_status : ∀ url response, (template url response).status = response.status

/-- What a render read: the database, at an instant and after some commits. -/
structure Reading where
  now : Nat
  db : Database
  commits : Nat

/-- The page is what the site makes of what was read, and it was tagged with each tag
that was collected; a tag that is refused would have stopped the render. -/
structure Renders (setup : Setup) (url : SiteUrl) (request : PageRequest) (page : Page Reading) :
    Prop where
  asked : requestOf url = some request
  response : page.response = setup.template url
    (renderPage setup.site page.source.now page.source.db request).value
  calls : page.calls = (renderPage setup.site page.source.now page.source.db request).tags.map
    fun tag => [tagText setup.uuidText tag]
  tags : ∀ tag ∈ (renderPage setup.site page.source.now page.source.db request).tags,
    isTag (tagText setup.uuidText tag) = true

/-! ## Runs -/

/-- The site and its cache, the database, and the commits, oldest first. -/
structure State where
  front : Front Reading
  db : Database
  commits : List Commit

/-- One step of the system.  A step of the provider brings no page of its own: a page is
rendered from the database, by `rendered`. -/
inductive Step (setup : Setup) : State → State → Prop
  | front (s : State) (front : Front Reading)
      (hstep : CacheProvider.Step setup.cache setup.localeLe setup.urls s.front front)
      (hasked : ∀ a ∈ front.asked, a.page = none ∨ a ∈ s.front.asked) :
      Step setup s { s with front := front }
  | rendered (s : State) (before after : List (Asked Reading)) (url : SiteUrl)
      (renderedFrom : Nat) (request : PageRequest) (page : Page Reading)
      (hasked : s.front.asked = before ++ ⟨url, renderedFrom, none⟩ :: after)
      (hsource : page.source.db = s.db ∧ page.source.commits = s.commits.length)
      (hrenders : Renders setup url request page) :
      Step setup s { s with front := { s.front with
        asked := before ++ ⟨url, renderedFrom, some page⟩ :: after } }
  | commit (s : State) (c : Commit) (hfound : c.found = s.db)
      (hat : c.at_ = s.front.cache.server.clock) :
      Step setup s { s with db := c.left, commits := s.commits ++ [c] }

/-- The states reached from an empty cache over some database. -/
inductive Reachable (setup : Setup) : State → Prop
  | start (clock : Nat) (db : Database) (hinv : ContentsInv db) :
      Reachable setup ⟨Front.start clock, db, []⟩
  | step {s s' : State} : Reachable setup s → Step setup s s' → Reachable setup s'

/-! ## The invariant -/

section Invariant
variable {setup : Setup}

/-- What is known of a page: it was rendered from a state of the database, and the
commits since lead from there to here and came after its render began. -/
structure Read (setup : Setup) (s : State) (url : SiteUrl) (renderedFrom : Nat)
    (page : Page Reading) : Prop where
  renders : ∃ request, Renders setup url request page
  inv : ContentsInv page.source.db
  le : page.source.commits ≤ s.commits.length
  chain : Chain page.source.db (s.commits.drop page.source.commits) s.db
  later : ∀ c ∈ s.commits.drop page.source.commits, renderedFrom ≤ c.at_

structure Inv (setup : Setup) (s : State) : Prop where
  front : CacheProvider.Reachable setup.cache setup.localeLe setup.urls s.front
  db : ContentsInv s.db
  asked : ∀ a ∈ s.front.asked, ∀ page ∈ a.page, Read setup s a.url a.renderedFrom page
  kept : ∀ k ∈ s.front.kept, Read setup s k.url k.renderedFrom k.toPage

/-- What is known of a page that was read stays known when a write is committed. -/
theorem Read.commit {s : State} {url : SiteUrl} {renderedFrom : Nat} {page : Page Reading}
    (h : Read setup s url renderedFrom page) {c : Commit} (hfound : c.found = s.db)
    (hpast : renderedFrom ≤ c.at_) :
    Read setup { s with db := c.left, commits := s.commits ++ [c] } url renderedFrom page := by
  have hdrop : (s.commits ++ [c]).drop page.source.commits =
      s.commits.drop page.source.commits ++ [c] := List.drop_append_of_le_length h.le
  refine ⟨h.renders, h.inv, ?_, ?_, ?_⟩
  · exact Nat.le_trans h.le (by simp)
  · exact hdrop ▸ h.chain.snoc hfound
  · intro c' hc
    rw [hdrop] at hc
    rcases List.mem_append.mp hc with hc | hc
    · exact h.later c' hc
    · rw [List.mem_singleton.mp hc]
      exact hpast

/-- A page that has just been read is the site's, from the database as it is. -/
theorem read_now {s : State} (hdb : ContentsInv s.db) {url : SiteUrl} {request : PageRequest}
    {page : Page Reading} (hrenders : Renders setup url request page)
    (hsource : page.source.db = s.db ∧ page.source.commits = s.commits.length)
    (renderedFrom : Nat) : Read setup s url renderedFrom page := by
  have hdrop : s.commits.drop page.source.commits = [] := by
    rw [hsource.2, List.drop_length]
  refine ⟨⟨request, hrenders⟩, hsource.1 ▸ hdb, Nat.le_of_eq hsource.2, ?_, ?_⟩
  · rw [hdrop]
    exact hsource.1
  · intro c hc
    rw [hdrop] at hc
    cases hc

/-- **One step of the system** keeps what is known of the pages that were read. -/
theorem Inv.step (hd : KeysDistinct setup.cache (keysOf setup.localeLe setup.urls))
    {s s' : State} (h : Inv setup s) (hs : Step setup s s') : Inv setup s' := by
  cases hs with
  | front front hstep hasked =>
    refine ⟨h.front.step hstep, h.db, fun a ha page hpage => ?_, fun k hk => ?_⟩
    · rcases hasked a ha with hnone | hmem
      · rw [hnone] at hpage
        cases hpage
      · exact { h.asked a hmem page hpage with }
    · rcases hstep.kept k hk with hmem | ⟨a, hmem, hpage, hurl, hfrom⟩
      · exact { h.kept k hmem with }
      · exact hurl ▸ hfrom ▸ { h.asked a hmem k.toPage hpage with }
  | rendered before after url renderedFrom request page hasked hsource hrenders =>
    refine ⟨h.front.step (.rendered _ before after url renderedFrom page hasked), h.db,
      fun a ha page' hpage => ?_, fun k hk => { h.kept k hk with }⟩
    have hread : Read setup s url renderedFrom page :=
      read_now h.db hrenders hsource renderedFrom
    rcases List.mem_append.mp ha with hb | ha
    · have hmem : a ∈ s.front.asked := hasked ▸ List.mem_append_left _ hb
      exact { h.asked a hmem page' hpage with }
    · rcases List.mem_cons.mp ha with rfl | ha
      · obtain rfl := Option.some.inj hpage
        exact { hread with }
      · have hmem : a ∈ s.front.asked :=
          hasked ▸ List.mem_append_right _ (List.mem_cons_of_mem _ ha)
        exact { h.asked a hmem page' hpage with }
  | commit c hfound hat =>
    have hprovider := h.front.inv hd
    refine ⟨h.front, c.leftInv, fun a ha page hpage => ?_, fun k hk => ?_⟩
    · exact (h.asked a ha page hpage).commit hfound (hat ▸ hprovider.asked_past hd ha)
    · exact (h.kept k hk).commit hfound
        (hat ▸ Nat.le_trans (hprovider.past k hk).1 (hprovider.past k hk).2)

/-- **In every run of the system** each page that is under way or kept was read from a state
of the database. -/
theorem Reachable.inv (hd : KeysDistinct setup.cache (keysOf setup.localeLe setup.urls))
    {s : State} (hr : Reachable setup s) : Inv setup s := by
  induction hr with
  | start clock db hinv =>
    exact ⟨.start clock, hinv, fun _ h => (by cases h), fun _ h => (by cases h)⟩
  | step _ hs ih => exact ih.step hd hs

/-! ## What a reader sees -/

/-- Every tag the write purges has been purged since it was committed. -/
def Delivered (setup : Setup) (s : State) (c : Commit) : Prop :=
  ∀ tag ∈ c.write.purged c.found,
    ∃ at_, c.at_ ≤ at_ ∧ (tagText setup.uuidText tag, at_) ∈ s.front.cache.purges

/-- A purge of what a write announced delivers it, if it answers. -/
theorem delivered_of_purge {s : State} {c : Commit} (hpast : c.at_ ≤ s.front.cache.server.clock)
    {removed : Nat} {server : Server String Payload}
    (hpurge : setup.cache.purgeTags ((c.write.purged c.found).map (tagText setup.uuidText))
      s.front.cache.server = (.ok removed, server)) :
    Delivered setup { s with front := { s.front with
      cache := s.front.cache.purge setup.cache
        ((c.write.purged c.found).map (tagText setup.uuidText)) } } c := by
  intro tag htag
  refine ⟨s.front.cache.server.clock, hpast, ?_⟩
  simp only [System.purge, hpurge]
  exact List.mem_append_left _
    (List.mem_map_of_mem (mem_uniqueSorted.mpr (List.mem_map_of_mem htag)))

end Invariant

/-! ### An archive, and a write it does not show -/

end PressLabz.CachedSite
