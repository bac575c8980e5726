import PressLabz.CacheInvalidation

/-! # Which writes reach the pages they change

A page is tagged with the documents it shows, the group of the document, the
media it names, or the list it is cut from.  A write purges the tags of the
documents and media it announces.  So a page that a write changes is purged,
unless what changed is above a document in the page tree: the path of a URL is
made of the slugs of the ancestors, which are read and not tagged.

`tag_coverage` says that this is the only exception: a write is seen by every
page it changes exactly when it leaves the ancestors of the documents on the page
where they are (`PathsKept`).
-/
namespace PressLabz
open Forest RowLocks

variable {site : Site} {now : Nat} {found left : Database} {request : PageRequest}
  {answer : List ContentRow} {f : ContentRow → ContentRow} {moved : Option Uuid}
  {type : AnyContentType} {locale slug : String} {row : ContentRow}

/-! ## What a write leaves of a query -/

section Queries

/-- A row that only lost its parent looks the same to a view that does not show the parent. -/
theorem Touches.looks (h : Touches answer f found left) {β : Type} (view : ContentRow → β)
    (hview : ∀ r, view (r.put r.detached) = view r) (r : ContentRow) : view (f r) = view r := by
  rcases h.detached r with hr | hr
  · rw [hr]
  · rw [hr, hview]

theorem Touches.same (h : Touches answer f found left) (r : ContentRow) : SameDocument r (f r) := by
  rcases h.detached r with hr | hr
  · rw [hr]
    exact .refl r
  · rw [hr]
    exact .put r _

/-- A row that a write announced is one it announced truly. -/
theorem Touches.announced (h : Touches answer f found left) (hc : found.Constraints)
    (hc' : left.Constraints) {r : ContentRow} (hr : r ∈ found.contents ∨ r ∈ left.contents)
    (hid : r.id ∈ answer.map (·.id)) : ∃ a ∈ answer, SameDocument r a := by
  obtain ⟨a, ha, haid⟩ := List.mem_map.mp hid
  refine ⟨a, ha, h.told a ha r ?_⟩
  rw [haid]
  rcases hr with hr | hr
  · exact .inl (Database.content_of_mem hc hr)
  · exact .inr (Database.content_of_mem hc' hr)

/-- **A query that asks for no row the write announced** finds the rows it found. -/
theorem Touches.filter (h : Touches answer f found left) (hc : found.Constraints)
    (hc' : left.Constraints) {p : ContentRow → Bool} (hp : ∀ r, p (r.put r.detached) = p r)
    (hnot : ∀ a ∈ answer, ∀ r, SameDocument r a → p r = false) :
    left.contents.filter p = (found.contents.filter p).map f := by
  have hrest : ∀ db : Database, (∀ r ∈ db.contents, r.id ∈ answer.map (·.id) → p r = false) →
      db.contents.filter p = (db.contents.filter fun r => r.id ∉ answer.map (·.id)).filter p := by
    intro db hdb
    rw [List.filter_filter]
    refine List.filter_congr fun r hr => ?_
    by_cases hid : r.id ∈ answer.map (·.id)
    · rw [hdb r hr hid]
      rfl
    · simp only [hid, not_false_eq_true, decide_true, Bool.and_true]
  rw [hrest left, hrest found, h.rest, List.filter_map]
  · congr 1
    exact List.filter_congr fun r _ => h.looks p hp r
  · intro r hr hid
    obtain ⟨a, ha, hsame⟩ := h.announced hc hc' (.inl hr) hid
    exact hnot a ha r hsame
  · intro r hr hid
    obtain ⟨a, ha, hsame⟩ := h.announced hc hc' (.inr hr) hid
    exact hnot a ha r hsame

/-- A row that the write did not announce is still there. -/
theorem Touches.mem (h : Touches answer f found left) {r : ContentRow} (hr : r ∈ found.contents)
    (hid : r.id ∉ answer.map (·.id)) : f r ∈ left.contents := by
  have hmem : r ∈ found.contents.filter fun r => r.id ∉ answer.map (·.id) :=
    List.mem_filter.mpr ⟨hr, by simpa using hid⟩
  have hmap := List.mem_map_of_mem (f := f) hmem
  rw [← h.rest] at hmap
  exact (List.mem_filter.mp hmap).1

end Queries

/-! ## Archives -/

section Archives

theorem isListed_detached (now : Nat) (r : ContentRow) :
    isListed type.name locale now (r.put r.detached) = isListed type.name locale now r := rfl

/-- **An archive** is the same after a write of other lists. -/
theorem renderArchive_same (h : Touches answer f found left) (hc : found.Constraints)
    (hc' : left.Constraints)
    (hnot : ∀ a ∈ answer, ¬ (a.type = type.name ∧ a.locale = locale)) :
    renderArchive site now left request locale type =
      renderArchive site now found request locale type := by
  have hfilter : left.contents.filter (isListed type.name locale now) =
      (found.contents.filter (isListed type.name locale now)).map f := by
    refine h.filter hc hc' (isListed_detached now) fun a ha r hsame => ?_
    rw [Bool.eq_false_iff]
    intro hlisted
    obtain ⟨htype, hlocale, -⟩ := isListed_iff.mp hlisted
    exact hnot a ha ⟨hsame.type.trans htype, hsame.locale.trans hlocale⟩
  have hlist : ∀ limit offset, left.listPublished ⟨type.name, locale, now, limit, offset⟩ =
      (found.listPublished ⟨type.name, locale, now, limit, offset⟩).map f := by
    intro limit offset
    unfold Database.listPublished
    rw [hfilter, ← List.map_insertionSort (r := fun a b : ContentRow =>
      b.publishedPlace ≤ a.publishedPlace), List.map_take, List.map_drop]
    intro a _ b _
    have hplace : ∀ r, (f r).publishedPlace = r.publishedPlace :=
      h.looks (·.publishedPlace) fun _ => rfl
    rw [hplace, hplace]
  have hcount : left.countPublished type.name locale now =
      found.countPublished type.name locale now := by
    unfold Database.countPublished
    rw [hfilter, List.length_map]
  -- The entries do not show where a row is in the tree.
  have hview : ∀ archive : Archive, archiveView site locale type
      { archive with rows := archive.rows.map f } = archiveView site locale type archive := by
    intro archive
    unfold archiveView
    rw [List.map_map]
    congr 1
    refine List.map_congr_left fun r _ => ?_
    exact h.looks (fun row => entryOf site row type locale) (fun _ => rfl) r
  have hvalue : ∀ page, (loadArchive left now type locale page).value =
      { (loadArchive found now type locale page).value with
        rows := (loadArchive found now type locale page).value.rows.map f } := by
    intro page
    show Archive.mk _ _ _ _ = Archive.mk _ _ _ _
    rw [hlist, hcount]
    rfl
  unfold renderArchive
  cases parsePageNumber request.page with
  | none => rfl
  | some page =>
    refine Collected.bind_congr ?_ ?_
    · show _ :: (List.map _ _ ++ []) = _ :: (List.map _ _ ++ [])
      rw [hlist, List.map_map]
      congr 2
      refine List.map_congr_left fun r _ => ?_
      exact h.looks (fun row => CacheTag.content row.id) (fun _ => rfl) r
    · rw [hvalue, hview]

end Archives

/-! ## Paths -/

/-- Where a document is in the tree, and how the path calls it. -/
def Database.placeOf (db : Database) (id : Uuid) : Option (String × Option Uuid) :=
  (db.content id).map fun r => (r.slug, r.parentId)

/-- No document above this one was renamed, moved or deleted. -/
def AncestorsKept (found left : Database) (id : Uuid) : Prop :=
  ∀ a d, Under found.parents a (d + 1) id → left.placeOf a = found.placeOf a

section Paths
variable {id : Uuid} {l l' : List Uuid}

theorem placeOf_slug {a : Uuid} (h : left.placeOf a = found.placeOf a) :
    left.slugOf a = found.slugOf a := by
  have hslug := congrArg (Option.map Prod.fst) h
  unfold Database.placeOf at hslug
  rw [Option.map_map, Option.map_map] at hslug
  exact congrArg (·.getD "") hslug

theorem placeOf_parents {a : Uuid} (h : left.placeOf a = found.placeOf a) :
    left.parents a = found.parents a := by
  have hparent := congrArg (Option.map Prod.snd) h
  unfold Database.placeOf at hparent
  rwa [Option.map_map, Option.map_map] at hparent

/-- Where the ancestors of a document are kept, and the document was not the one
that moved, its path is kept. -/
theorem path_kept (hc : found.Constraints) (hmoves : Moves moved answer found left)
    (hid : moved ≠ some id) (hkept : AncestorsKept found left id) (hp : Path found.parents id l) :
    Path left.parents id l ∧ l.map left.slugOf = l.map found.slugOf := by
  have hself : left.slugOf id = found.slugOf id := congrArg (·.getD "") (hmoves.slug id hid)
  have hparent : left.parents id = found.parents id := by
    rcases hmoves.parent id hid with h | ⟨parent, -, hgone, hup⟩
    · exact h
    · -- A parent that is gone is an ancestor that was not kept.
      obtain ⟨r, hr, hrp⟩ := Database.parents_eq_some.mp hup
      obtain ⟨q, hq, rfl, -⟩ := hc.contents_parent_fk r (Database.mem_of_content hr) parent hrp
      have hplace := hkept q.id 0 (.step hup .here)
      unfold Database.placeOf at hplace
      rw [hgone, Database.content_of_mem hc hq] at hplace
      cases hplace
  constructor
  · refine hp.congr fun x hx => ?_
    rcases hp.above hx with rfl | ⟨d, hd⟩
    · exact hparent
    · exact placeOf_parents (hkept x d hd)
  · refine List.map_congr_left fun x hx => ?_
    rcases hp.above hx with rfl | ⟨d, hd⟩
    · exact hself
    · exact placeOf_slug (hkept x d hd)

/-- A document after the write and one before it that share a type, a language and
a slug are one. -/
theorem slug_names (hc : found.Constraints) (hc' : left.Constraints)
    (hmoves : Moves moved answer found left) {p p' : Uuid} {q q' : ContentRow}
    (hq : found.content p = some q) (hq' : left.content p' = some q') (htype : q.type = q'.type)
    (hlocale : q.locale = q'.locale) (hslug : q.slug = q'.slug) : p = p' := by
  by_cases hp' : moved = some p'
  · by_cases hp : moved = some p
    · exact Option.some.inj (hp.symm.trans hp')
    · -- The one before is there after, with its slug.
      have hkept := hmoves.slug p hp
      rw [hq, Option.map_some] at hkept
      obtain ⟨r, hr, hrslug⟩ := Option.map_eq_some_iff.mp hkept
      have hsame := hmoves.always.same hc' hq hr
      have heq := slug_unique hc' (Database.mem_of_content hr) (Database.mem_of_content hq')
        (hsame.type.trans htype) (hsame.locale.trans hlocale) (hrslug.trans hslug)
      rw [← Database.id_of_content hr, heq, Database.id_of_content hq']
  · -- The one after was there before, with its slug.
    have hkept := hmoves.slug p' hp'
    rw [hq', Option.map_some] at hkept
    obtain ⟨r, hr, hrslug⟩ := Option.map_eq_some_iff.mp hkept.symm
    have hsame := hmoves.always.same hc' hr hq'
    have heq := slug_unique hc (Database.mem_of_content hq) (Database.mem_of_content hr)
      (htype.trans hsame.type) (hlocale.trans hsame.locale) (hslug.trans hrslug.symm)
    rw [← Database.id_of_content hq, heq, Database.id_of_content hr]

/-- **Equal paths are paths of the same documents.** -/
theorem path_slugs (hc : found.Constraints) (hc' : left.Constraints)
    (hmoves : Moves moved answer found left) (hp : Path found.parents id l)
    (hp' : Path left.parents id l') (hslugs : l'.map left.slugOf = l.map found.slugOf) :
    l' = l := by
  induction hp generalizing l' with
  | root hid =>
    cases hp' with
    | root _ => rfl
    | step _ hrest =>
      obtain ⟨rest, rfl⟩ := hrest.head
      simp at hslugs
  | @step id p l hup hrest ih =>
    cases hp' with
    | root _ =>
      obtain ⟨rest, rfl⟩ := hrest.head
      simp at hslugs
    | @step _ p' l' hup' hrest' =>
      have htail := (List.cons.inj hslugs).2
      -- The parents have the same slug, and so are the same.
      have hhead : left.slugOf p' = found.slugOf p := by
        obtain ⟨rest, rfl⟩ := hrest.head
        obtain ⟨rest', rfl⟩ := hrest'.head
        exact (List.cons.inj htail).1
      obtain ⟨r, hr, hrp⟩ := Database.parents_eq_some.mp hup
      obtain ⟨r', hr', hrp'⟩ := Database.parents_eq_some.mp hup'
      obtain ⟨q, hq, rfl, hqtype, hqlocale⟩ :=
        hc.contents_parent_fk r (Database.mem_of_content hr) p hrp
      obtain ⟨q', hq', rfl, hqtype', hqlocale'⟩ :=
        hc'.contents_parent_fk r' (Database.mem_of_content hr') p' hrp'
      have hcontent := Database.content_of_mem hc hq
      have hcontent' := Database.content_of_mem hc' hq'
      have hsame := hmoves.always.same hc' hr hr'
      rw [Database.slugOf_content hcontent, Database.slugOf_content hcontent'] at hhead
      have heq : q.id = q'.id := slug_names hc hc' hmoves hcontent hcontent'
        (hqtype.trans (hsame.type.symm.trans hqtype'.symm))
        (hqlocale.trans (hsame.locale.symm.trans hqlocale'.symm)) hhead.symm
      rw [← heq] at hrest'
      rw [ih hrest' htail]

/-- A path that is kept keeps the ancestors. -/
theorem ancestorsKept_of_path (hc : found.Constraints) (hc' : left.Constraints)
    (hmoves : Moves moved answer found left) (hp : Path found.parents id l)
    (hp' : Path left.parents id l') (hslugs : l'.map left.slugOf = l.map found.slugOf) :
    AncestorsKept found left id := by
  intro a d ha
  obtain rfl := path_slugs hc hc' hmoves hp hp' hslugs
  have hmem := ha.mem_path hp
  have hslug := (List.map_inj_left.mp hslugs) a hmem
  have hparent := hp.agree hp' hmem
  obtain ⟨r, hr⟩ := Database.parents_ne_none.mp (hp.present hmem)
  obtain ⟨r', hr'⟩ := Database.parents_ne_none.mp (hp'.present hmem)
  rw [Database.slugOf_content hr, Database.slugOf_content hr'] at hslug
  unfold Database.parents at hparent
  rw [hr, hr', Option.map_some, Option.map_some] at hparent
  unfold Database.placeOf
  rw [hr, hr', Option.map_some, Option.map_some, hslug, Option.some.inj hparent]

theorem placeOf_eq {a : Uuid}
    (hslug : (left.content a).map (·.slug) = (found.content a).map (·.slug))
    (hparent : left.parents a = found.parents a) : left.placeOf a = found.placeOf a := by
  unfold Database.parents at hparent
  unfold Database.placeOf
  cases hleft : left.content a with
  | none =>
    rw [hleft, Option.map_none] at hslug
    rw [Option.map_eq_none_iff.mp hslug.symm]
  | some r =>
    rw [hleft] at hslug hparent
    obtain ⟨r', hr', hslug⟩ := Option.map_eq_some_iff.mp hslug.symm
    rw [hr', Option.map_some, Option.map_some] at hparent
    rw [hr', Option.map_some, Option.map_some, hslug, Option.some.inj hparent]

/-- Whoever's ancestors were not kept is under the document that moved. -/
theorem moved_above (hmoves : Moves moved answer found left)
    (hnot : ¬ AncestorsKept found left id) :
    ∃ w d, moved = some w ∧ Under found.parents w (d + 1) id := by
  unfold AncestorsKept at hnot
  push Not at hnot
  obtain ⟨a, d, ha, hne⟩ := hnot
  by_cases hmoved : moved = some a
  · exact ⟨a, d, hmoved, ha⟩
  · rcases hmoves.parent a hmoved with hparent | ⟨w, hw, -, hup⟩
    · exact absurd (placeOf_eq (hmoves.slug a hmoved) hparent) hne
    · exact ⟨w, d + 1, hw, ha.above hup⟩

end Paths

/-! ## Documents -/

section Documents
variable {s : ContentRow} {g : Uuid} {path : List String}

theorem siblingPath_flat (db : Database) (h : type.hierarchical = false) :
    siblingPath db type s = some [s.slug] := by
  unfold siblingPath
  rw [h]
  rfl

theorem siblingPath_path {db : Database} (hinv : ContentsInv db) (hs : db.content s.id = some s)
    (htype : s.type = type.name) (h : type.hierarchical = true) {l : List Uuid}
    (hp : Path db.parents s.id l) :
    siblingPath db type s = some (l.map db.slugOf).reverse := by
  unfold siblingPath
  rw [h, ← htype, resolveAncestry_path hinv hs hp]
  rfl

/-- Every document has a path. -/
theorem siblingPath_some {db : Database} (hinv : ContentsInv db) (hs : db.content s.id = some s)
    (htype : s.type = type.name) : ∃ path, siblingPath db type s = some path := by
  cases h : type.hierarchical with
  | false => exact ⟨_, siblingPath_flat db h⟩
  | true =>
    obtain ⟨l, hp, -⟩ := hinv.tree s.id (Database.parents_ne_none.mpr ⟨s, hs⟩)
    exact ⟨_, siblingPath_path hinv hs htype h hp⟩

theorem Touches.content (h : Touches answer f found left) (hc' : left.Constraints)
    (hs : s ∈ found.contents) (hid : s.id ∉ answer.map (·.id)) :
    left.content s.id = some (f s) := by
  rw [← (h.same s).id]
  exact Database.content_of_mem hc' (h.mem hs hid)

theorem Moves.not_moved (h : Moves moved answer found left) {id : Uuid}
    (hid : id ∉ answer.map (·.id)) : moved ≠ some id := by
  intro hmoved
  rw [h.announced id hmoved] at hid
  exact hid (List.mem_singleton_self id)

/-- A document that was not announced is advertised where it was, if its ancestors
were kept. -/
theorem siblingPath_kept (hinv : ContentsInv found) (hinv' : ContentsInv left)
    (h : Touches answer f found left) (hmoves : Moves moved answer found left)
    (hs : s ∈ found.contents) (hid : s.id ∉ answer.map (·.id)) (htype : s.type = type.name)
    (hkept : type.hierarchical = true → AncestorsKept found left s.id) :
    siblingPath left type (f s) = siblingPath found type s := by
  have hfid : (f s).id = s.id := (h.same s).id
  cases hflat : type.hierarchical with
  | false =>
    rw [siblingPath_flat _ hflat, siblingPath_flat _ hflat, h.looks (·.slug) fun _ => rfl]
  | true =>
    have hcontent := Database.content_of_mem hinv.constraints hs
    obtain ⟨l, hp, -⟩ := hinv.tree s.id (Database.parents_ne_none.mpr ⟨s, hcontent⟩)
    obtain ⟨hp', hslugs⟩ :=
      path_kept hinv.constraints hmoves (hmoves.not_moved hid) (hkept hflat) hp
    have hcontent' := h.content hinv'.constraints hs hid
    rw [siblingPath_path hinv hcontent htype hflat hp,
      siblingPath_path hinv' (hfid.symm ▸ hcontent') ((h.same s).type.trans htype) hflat
        (hfid.symm ▸ hp'), hslugs]

/-- A document of a group of which the write announces nothing is not announced itself. -/
theorem not_announced (h : Touches answer f found left) (hc : found.Constraints)
    (hc' : left.Constraints) (hgroup : ∀ a ∈ answer, a.translationGroupId ≠ g)
    (hs : s ∈ found.contents) (hsg : s.translationGroupId = g) : s.id ∉ answer.map (·.id) := by
  intro hid
  obtain ⟨a, ha, hsame⟩ := h.announced hc hc' (.inl hs) hid
  exact hgroup a ha (hsame.group.trans hsg)

/-- The translations of a group stay its translations after a write that announces nothing of it. -/
theorem translations_same (h : Touches answer f found left) (hc : found.Constraints)
    (hc' : left.Constraints) (hgroup : ∀ a ∈ answer, a.translationGroupId ≠ g) :
    left.listPublishedTranslations g now = (found.listPublishedTranslations g now).map f := by
  have hfilter : left.contents.filter (fun row => row.translationGroupId = g &&
      publiclyVisible now row) = (found.contents.filter fun row => row.translationGroupId = g &&
        publiclyVisible now row).map f := by
    refine h.filter hc hc' (fun _ => rfl) fun a ha r hsame => ?_
    have hne : r.translationGroupId ≠ g := fun heq => hgroup a ha (hsame.group.trans heq)
    simp [hne]
  unfold Database.listPublishedTranslations
  rw [hfilter, ← List.map_insertionSort (r := fun a b : ContentRow => a.locale ≤ b.locale)]
  intro a _ b _
  rw [(h.same a).locale, (h.same b).locale]

/-- A slug finds the document it found, after a write that announces nothing of the
document's group. -/
theorem findPublishedBySlug_same (h : Touches answer f found left) (hc : found.Constraints)
    (hc' : left.Constraints)
    (hrow : found.findPublishedBySlug type.name locale slug now = some row)
    (hgroup : ∀ a ∈ answer, a.translationGroupId ≠ row.translationGroupId) :
    left.findPublishedBySlug type.name locale slug now = some (f row) := by
  obtain ⟨hmem, htype, hlocale, hslug, hvisible⟩ := findPublishedBySlug_some hrow
  have hid := not_announced h hc hc' hgroup hmem rfl
  have hvisible' : publiclyVisible now (f row) = true := by
    rw [h.looks (publiclyVisible now) (fun _ => rfl)]
    exact hvisible
  have hfind := findPublishedBySlug_of_mem hc' (h.mem hmem hid) hvisible'
  have hslug' : (f row).slug = slug := (h.looks (·.slug) (fun _ => rfl) row).trans hslug
  rwa [(h.same row).type, (h.same row).locale, htype, hlocale, hslug'] at hfind

theorem pathOf_eq (db : Database) : pathOf db row type = siblingPath db type row := by
  unfold pathOf siblingPath loadAncestry
  cases type.hierarchical with
  | false => rfl
  | true => rfl

/-- The siblings a page is handed. -/
def siblingsOf (db : Database) (now : Nat) (type : AnyContentType) (g : Uuid) : List Sibling :=
  (db.listPublishedTranslations g now).map fun s => ⟨s, siblingPath db type s⟩

theorem loadTranslations_eq (db : Database) : loadTranslations db now row type =
    ⟨siblingsOf db now type row.translationGroupId, .translationGroup row.translationGroupId ::
      (db.listPublishedTranslations row.translationGroupId now).map fun s =>
        CacheTag.content s.id⟩ := by
  unfold loadTranslations siblingsOf
  show Collected.mk _ _ = _
  congr 1
  · show List.map _ (List.map _ _) = _
    rw [List.map_map]
    rfl
  · show _ :: List.flatMap _ (List.map _ _) = _
    rw [List.flatMap_map, List.map_eq_flatMap]
    rfl

/-- What is loaded is tagged with itself and its group. -/
theorem loadDocument_some {db : Database}
    (hrow : db.findPublishedBySlug type.name locale slug now = some row) :
    loadDocument db now type locale slug =
      ⟨some row, [.content row.id, .translationGroup row.translationGroupId]⟩ := by
  unfold loadDocument
  rw [hrow]
  rfl

theorem loadDocument_none {db : Database}
    (hrow : db.findPublishedBySlug type.name locale slug now = none) :
    loadDocument db now type locale slug = ⟨none, []⟩ := by
  unfold loadDocument
  rw [hrow]
  rfl

/-- A document that has a path is answered with itself at its own URL, and with a redirect
to it elsewhere. -/
theorem renderDocument_eq {db : Database}
    (hrow : db.findPublishedBySlug type.name locale slug now = some row)
    (hpath : siblingPath db type row = some path) :
    renderDocument site now db request locale type slug =
      if documentPath locale type path = request.pathname then
        ⟨documentPage site request locale type row path
            (siblingsOf db now type row.translationGroupId) (loadMedia site db row locale).value,
          .content row.id :: .translationGroup row.translationGroupId ::
            .translationGroup row.translationGroupId ::
              ((db.listPublishedTranslations row.translationGroupId now).map fun s =>
                CacheTag.content s.id) ++ (loadMedia site db row locale).tags⟩
      else ⟨.redirect (documentPath locale type path),
        [.content row.id, .translationGroup row.translationGroupId]⟩ := by
  unfold renderDocument
  rw [loadDocument_some hrow]
  show Collected.mk _ _ = _
  dsimp only
  rw [pathOf_eq, hpath]
  dsimp only
  by_cases hurl : documentPath locale type path = request.pathname
  · rw [if_neg (not_not.mpr hurl), if_pos hurl, loadTranslations_eq]
    show Collected.mk _ (_ :: _ :: _ :: (_ ++ (_ ++ []))) = _
    rw [List.append_nil]
    rfl
  · rw [if_pos hurl, if_neg hurl]
    rfl

/-- A document that was answered with 200 was found, with a path, at its own URL. -/
theorem renderDocument_ok {db : Database}
    (hok : (renderDocument site now db request locale type slug).value.status = 200) :
    ∃ row path, db.findPublishedBySlug type.name locale slug now = some row ∧
      siblingPath db type row = some path ∧ documentPath locale type path = request.pathname := by
  cases hrow : db.findPublishedBySlug type.name locale slug now with
  | none =>
    unfold renderDocument at hok
    rw [loadDocument_none hrow] at hok
    cases hok
  | some row =>
    cases hpath : siblingPath db type row with
    | none =>
      simp only [renderDocument, loadDocument_some hrow, Collected.bind_value, pathOf_eq, hpath] at hok
      cases hok
    | some path =>
      rw [renderDocument_eq hrow hpath] at hok
      split at hok
      · rename_i hurl
        exact ⟨row, path, rfl, hpath, hurl⟩
      · cases hok

/-- Siblings that only lost their parents are linked to as before. -/
theorem documentPage_same (h : Touches answer f found left) (siblings : List Sibling)
    («media» : List (UuidText × ResolvedMedia)) :
    documentPage site request locale type (f row) path
        (siblings.map fun sibling => ⟨f sibling.row, sibling.path⟩) «media» =
      documentPage site request locale type row path siblings «media» := by
  have hhead : documentHead site locale type path (f row).meta
      (siblings.map fun sibling => ⟨f sibling.row, sibling.path⟩) =
        documentHead site locale type path row.meta siblings := by
    have hlocale : ∀ r, (f r).locale = r.locale := fun r => (h.same r).locale
    have halternates : alternatesOf site type
        (siblings.map fun sibling => ⟨f sibling.row, sibling.path⟩) =
          alternatesOf site type siblings := by
      unfold alternatesOf
      rw [List.filterMap_map]
      simp only [Function.comp_def, hlocale]
    unfold documentHead
    rw [h.looks (·.meta) (fun _ => rfl), halternates]
  have hlinks : translationLinks site (siblings.map fun sibling => ⟨f sibling.row, sibling.path⟩)
      type locale = translationLinks site siblings type locale := by
    have hlocale : ∀ r, (f r).locale = r.locale := fun r => (h.same r).locale
    have htitle : ∀ r, (f r).title = r.title := h.looks (·.title) fun _ => rfl
    unfold translationLinks
    simp only [List.filter_map, ← List.map_reverse, List.find?_map, Function.comp_def, hlocale]
    refine List.map_congr_left fun other _ => ?_
    cases (siblings.filter fun sibling =>
        sibling.path.isSome && decide (sibling.row.locale ≠ locale)).reverse.find? fun sibling =>
          decide (sibling.row.locale = other) with
    | none => rfl
    | some sibling => simp only [Option.map_some, htitle]
  unfold documentPage
  rw [hhead, hlinks, h.looks (fun row => documentView site row type path «media») fun _ => rfl]

theorem siblingsOf_same (hinv : ContentsInv found) (hinv' : ContentsInv left)
    (h : Touches answer f found left) (hmoves : Moves moved answer found left)
    (hgroup : ∀ a ∈ answer, a.translationGroupId ≠ g)
    (htype : ∀ s ∈ found.listPublishedTranslations g now, s.type = type.name)
    (hkept : type.hierarchical = true →
      ∀ s ∈ found.listPublishedTranslations g now, AncestorsKept found left s.id) :
    siblingsOf left now type g =
      (siblingsOf found now type g).map fun sibling => ⟨f sibling.row, sibling.path⟩ := by
  unfold siblingsOf
  rw [translations_same h hinv.constraints hinv'.constraints hgroup, List.map_map, List.map_map]
  refine List.map_congr_left fun s hs => ?_
  obtain ⟨hmem, hsg, -⟩ := mem_translations.mp hs
  have hid := not_announced h hinv.constraints hinv'.constraints hgroup hmem hsg
  show Sibling.mk _ _ = Sibling.mk _ _
  rw [siblingPath_kept hinv hinv' h hmoves hmem hid (htype s hs) fun hflat => hkept hflat s hs]

/-- **A document** is the same after a write that announces nothing of its group,
keeps the ancestors of all that is linked to and leaves the media. -/
theorem renderDocument_same (hinv : ContentsInv found) (hinv' : ContentsInv left)
    (h : Touches answer f found left) (hmoves : Moves moved answer found left)
    (hrow : found.findPublishedBySlug type.name locale slug now = some row)
    (hgroup : ∀ a ∈ answer, a.translationGroupId ≠ row.translationGroupId)
    (hkept : type.hierarchical = true → ∀ s ∈ found.listPublishedTranslations
      row.translationGroupId now, AncestorsKept found left s.id)
    (hmedia : loadMedia site left row locale = loadMedia site found row locale) :
    renderDocument site now left request locale type slug =
      renderDocument site now found request locale type slug := by
  obtain ⟨hmem, hrtype, -, -, hvisible⟩ := findPublishedBySlug_some hrow
  have hc := hinv.constraints
  have hrow' := findPublishedBySlug_same h hc hinv'.constraints hrow hgroup
  have htype : ∀ s ∈ found.listPublishedTranslations row.translationGroupId now,
      s.type = type.name := by
    intro s hs
    obtain ⟨hs, hsg, -⟩ := mem_translations.mp hs
    exact (Database.translation_type hc hs hmem hsg).trans hrtype
  have hself : row ∈ found.listPublishedTranslations row.translationGroupId now :=
    mem_translations.mpr ⟨hmem, rfl, hvisible⟩
  obtain ⟨path, hpath⟩ := siblingPath_some hinv (Database.content_of_mem hc hmem) hrtype
  have hid := not_announced h hc hinv'.constraints hgroup hmem rfl
  have hpath' : siblingPath left type (f row) = some path :=
    (siblingPath_kept hinv hinv' h hmoves hmem hid hrtype fun hflat =>
      hkept hflat row hself).trans hpath
  have hgroup' : (f row).translationGroupId = row.translationGroupId := (h.same row).group
  have hids : ∀ s : ContentRow, CacheTag.content (f s).id = .content s.id := fun s =>
    congrArg CacheTag.content (h.same s).id
  have hmedia' : loadMedia site left (f row) locale = loadMedia site found row locale :=
    (h.looks (fun row => loadMedia site left row locale) (fun _ => rfl) row).trans hmedia
  rw [renderDocument_eq hrow hpath, renderDocument_eq hrow' hpath', hgroup', hmedia', hids row,
    siblingsOf_same hinv hinv' h hmoves hgroup htype hkept, documentPage_same h,
    translations_same h hc hinv'.constraints hgroup, List.map_map]
  simp only [Function.comp_def, hids]

end Documents

/-! ## What a write changes -/

/-- A write as its announcements and its changes. -/
structure Write.Effects (write : Write) (answer : List ContentRow)
    (f : ContentRow → ContentRow) (moved : Option Uuid) (found left : Database) : Prop where
  touches : Touches answer f found left
  moves : Moves moved answer found left
  purged : ∀ tag, tag ∈ write.purged found →
    (∃ a ∈ answer, tag ∈ purgeContent (contentEventOf a)) ∨ answer = [] ∧ ∃ id, tag = .media id
  rows : ∀ a ∈ answer, ∀ tag ∈ purgeContent (contentEventOf a), tag ∈ write.purged found
  /-- Media that are not announced are what they were. -/
  media : ∀ ids, (∀ m ∈ found.findMediaByIds ids, .media m.id ∉ write.purged found) →
    left.findMediaByIds ids = found.findMediaByIds ids

section Effects
variable {write : Write}

theorem media_published (stamps : Stamps) (claimed : List ContentRow) (db : Database) :
    (claimed.foldl (·.published stamps) db).media = db.media := by
  induction claimed generalizing db with
  | nil => rfl
  | cons current rest ih =>
    rw [List.foldl_cons, ih]
    rfl

/-- A write of documents leaves the media. -/
theorem Post.media {call : Call} (h : Post call answer found left) : left.media = found.media := by
  cases call with
  | createContent input fresh =>
    obtain ⟨-, -, -, rfl⟩ := h
    rw [Database.created, Database.opened]
    split
    · rfl
    · rfl
  | updateContent type id patch options stamps =>
    rcases h with ⟨-, rfl⟩ | ⟨current, next, -, -, -, rfl⟩
    · rfl
    · rfl
  | deleteContent id authorize =>
    rcases h with ⟨-, rfl⟩ | ⟨current, -, -, -, rfl⟩
    · rfl
    · rw [Database.removed]
      split
      · rfl
      · rfl
  | publishDueContent now stamps =>
    obtain ⟨claimed, -, -, -, rfl⟩ := h
    exact media_published stamps claimed found

/-- A write of media leaves the documents. -/
theorem effects_media (ms : List MediaRow) {row : Option MediaRow}
    (hleft : left = { found with «media» := ms })
    (hpurged : ∀ tag, tag ∈ write.purged found ↔ ∃ m ∈ row, tag = .media m.id)
    (hmedia : ∀ ids, (∀ m ∈ found.findMediaByIds ids, ∀ m' ∈ row, m.id ≠ m'.id) →
      (ms.filter fun row => ids.any (·.uuid = row.id)) = found.findMediaByIds ids) :
    write.Effects [] (fun r => r) none found left := by
  subst hleft
  refine ⟨⟨fun _ => .inl rfl, ?_, ?_⟩, ⟨?_, fun _ _ => rfl, fun _ _ => .inl rfl,
    ⟨fun _ r hr => .inl ⟨r, hr, .refl r⟩, fun _ h => h⟩⟩, fun tag htag => ?_, ?_,
    fun ids hids => hmedia ids fun m hm m' hm' heq => ?_⟩
  · simp
  · intro a ha
    cases ha
  · intro id hid
    cases hid
  · obtain ⟨m, -, rfl⟩ := (hpurged tag).mp htag
    exact .inr ⟨rfl, m.id, rfl⟩
  · intro a ha
    cases ha
  · exact hids m hm ((hpurged _).mpr ⟨m', hm', congrArg CacheTag.media heq⟩)

/-- Whoever asks for an asset that is there, and for none of this id, does not ask
for this id. -/
theorem not_asked {assetId : Uuid} {ids : List UuidText} {m : MediaRow}
    (hrow : found.mediaRow assetId = some m)
    (hids : ∀ x ∈ found.findMediaByIds ids, x.id ≠ m.id) :
    (ids.any fun t => t.uuid = assetId) = false := by
  rw [Bool.eq_false_iff]
  intro hany
  have hid : m.id = assetId := Rows.key_of_find hrow
  exact hids m (List.mem_filter.mpr ⟨Rows.mem_of_find hrow, hid ▸ hany⟩) rfl

/-- **What a committed write changes**, and what it announces of that. -/
theorem Write.Commits.effects (h : write.Commits found left) :
    ∃ answer f moved, write.Effects answer f moved found left := by
  cases write with
  | content call answer =>
    have hpost : Post call answer found left := h
    obtain ⟨f, moved, htouches, hmoves⟩ := hpost.effects
    refine ⟨answer, f, moved, htouches, hmoves, fun tag htag => ?_, fun a ha tag htag => ?_,
      fun ids _ => ?_⟩
    · exact .inl (mem_purged_content.mp htag)
    · exact mem_purged_content.mpr ⟨a, ha, htag⟩
    · unfold Database.findMediaByIds
      rw [hpost.media]
  | patchMediaAlt assetId patch authorize =>
    obtain ⟨row, hrow⟩ := h
    have hpurged := mem_purged_patchMediaAlt hrow
    unfold Database.patchMediaAlt at hrow
    split at hrow
    · cases hrow
      exact ⟨_, _, _, effects_media found.media rfl hpurged fun _ _ => rfl⟩
    · rename_i current hcurrent
      split at hrow
      · cases hrow
      · cases hrow
        refine ⟨_, _, _, effects_media _ rfl hpurged fun ids hids => ?_⟩
        have hnot : (ids.any fun t => t.uuid = assetId) = false :=
          not_asked hcurrent fun x hx =>
            hids x hx { current with alt := mergeAlt current.alt patch } rfl
        have hsame : (found.media.filter ((fun row => ids.any fun t => t.uuid = row.id) ∘
            fun row => if row.id = assetId then
              { row with alt := mergeAlt row.alt patch } else row)) =
              found.findMediaByIds ids := by
          refine List.filter_congr fun m _ => ?_
          by_cases hid : m.id = assetId
          · simp only [Function.comp_apply, if_pos hid]
          · simp only [Function.comp_apply, if_neg hid]
        rw [List.filter_map, hsame]
        refine (List.map_congr_left fun m hm => ?_).trans (List.map_id _)
        -- The row that was written is not among the rows asked for.
        refine if_neg fun hid => ?_
        have hasked := (List.mem_filter.mp hm).2
        rw [hid, hnot] at hasked
        cases hasked
  | deleteMedia assetId =>
    obtain ⟨row, hrow⟩ := h
    have hpurged := mem_purged_deleteMedia hrow
    unfold Database.deleteMedia at hrow
    split at hrow
    · cases hrow
    · cases hrow
      refine ⟨_, _, _, effects_media _ rfl hpurged fun ids hids => ?_⟩
      rw [List.filter_filter]
      refine List.filter_congr fun m hm => ?_
      by_cases hid : m.id = assetId
      · cases hrow : found.mediaRow assetId with
        | none => exact absurd hid (Rows.find_eq_none.mp hrow m hm)
        | some current =>
          rw [hid, not_asked hrow fun x hx => hids x hx current hrow]
          rfl
      · simp [hid]

end Effects

/-! ## Coverage -/

/-- The document a request is about. -/
def Site.documentAt (site : Site) (now : Nat) (db : Database) (request : PageRequest) :
    Option (AnyContentType × ContentRow) :=
  match site.routeOf request with
  | some (locale, .document type slug _) =>
    (db.findPublishedBySlug type.name locale slug now).map fun row => (type, row)
  | _ => none

/-- The write leaves whatever is above the document of the page, and above the
translations the page links to, where it is. -/
def PathsKept (site : Site) (now : Nat) (request : PageRequest) (found left : Database) : Prop :=
  ∀ type row, site.documentAt now found request = some (type, row) → type.hierarchical = true →
    ∀ s ∈ found.listPublishedTranslations row.translationGroupId now,
      AncestorsKept found left s.id

/-- If the page is another one after the write, the write purges a tag of it. -/
def Covered (site : Site) (now : Nat) (request : PageRequest) (write : Write)
    (found left : Database) : Prop :=
  (renderPage site now left request).value ≠ (renderPage site now found request).value →
    ∃ tag ∈ write.purged found, tag ∈ (renderPage site now found request).tags

section Coverage
variable {write : Write} {path : List String}

theorem documentAt_iff {db : Database} :
    site.documentAt now db request = some (type, row) ↔ ∃ locale slug path,
      site.routeOf request = some (locale, .document type slug path) ∧
      db.findPublishedBySlug type.name locale slug now = some row := by
  unfold Site.documentAt
  split
  · rename_i locale type' slug path hroute
    rw [hroute, Option.map_eq_some_iff]
    constructor
    · rintro ⟨row', hrow, heq⟩
      obtain ⟨rfl, rfl⟩ := Prod.mk.inj heq
      exact ⟨locale, slug, path, rfl, hrow⟩
    · rintro ⟨_, _, _, heq, hrow⟩
      obtain ⟨rfl, hroute⟩ := Prod.mk.inj (Option.some.inj heq)
      obtain ⟨rfl, rfl, -⟩ := ResolvedRoute.document.inj hroute
      exact ⟨row, hrow, rfl⟩
  · rename_i hno
    refine iff_of_false (by simp) ?_
    rintro ⟨locale, slug, path, hroute, -⟩
    exact hno locale type slug path hroute

/-- An archive that was answered with 200 carries the tag of its list. -/
theorem archive_tag {db : Database}
    (hok : (renderArchive site now db request locale type).value.status = 200) :
    .contentList type.name locale ∈ (renderArchive site now db request locale type).tags := by
  unfold renderArchive at hok ⊢
  cases hpage : parsePageNumber request.page with
  | none =>
    rw [hpage] at hok
    cases hok
  | some page =>
    refine List.mem_append_left _ ?_
    show _ ∈ _ :: _
    exact List.mem_cons_self

/-- A document at its own URL is tagged with its group, the translations that are public and
its media, and with nothing else. -/
theorem mem_document_tags {db : Database}
    (hrow : db.findPublishedBySlug type.name locale slug now = some row)
    (hpath : siblingPath db type row = some path)
    (hurl : documentPath locale type path = request.pathname) (tag : CacheTag) :
    tag ∈ (renderDocument site now db request locale type slug).tags ↔
      tag = .translationGroup row.translationGroupId ∨
      (∃ s ∈ db.listPublishedTranslations row.translationGroupId now, tag = .content s.id) ∨
      tag ∈ (loadMedia site db row locale).tags := by
  obtain ⟨hmem, -, -, -, hvisible⟩ := findPublishedBySlug_some hrow
  have hself : row ∈ db.listPublishedTranslations row.translationGroupId now :=
    mem_translations.mpr ⟨hmem, rfl, hvisible⟩
  rw [renderDocument_eq hrow hpath, if_pos hurl]
  simp only [List.cons_append, List.mem_cons, List.mem_append, List.mem_map]
  constructor
  · rintro (rfl | rfl | rfl | ⟨s, hs, rfl⟩ | hmedia)
    · exact .inr (.inl ⟨row, hself, rfl⟩)
    · exact .inl rfl
    · exact .inl rfl
    · exact .inr (.inl ⟨s, hs, rfl⟩)
    · exact .inr (.inr hmedia)
  · rintro (rfl | ⟨s, hs, rfl⟩ | hmedia)
    · exact .inr (.inl rfl)
    · exact .inr (.inr (.inr (.inl ⟨s, hs, rfl⟩)))
    · exact .inr (.inr (.inr (.inr hmedia)))

/-- The tags of the media of a page are those of the rows it read. -/
theorem mem_loadMedia_tags {db : Database} {tag : CacheTag} :
    tag ∈ (loadMedia site db row locale).tags ↔
      ∃ m ∈ db.findMediaByIds (mediaIdsIn row.blocks), tag = .media m.id := by
  unfold loadMedia
  by_cases hids : (mediaIdsIn row.blocks).length = 0
  · rw [if_pos hids, List.length_eq_zero_iff.mp hids]
    simp [Database.findMediaByIds]
  · rw [if_neg hids]
    simp [collectTags, eq_comm]

/-- **A page that a write purges nothing of** is the page it was, tags and all, if
the ancestors are kept. -/
theorem renderPage_same (hinv : ContentsInv found) (hinv' : ContentsInv left)
    (hcommits : write.Commits found left)
    (hok : (renderPage site now found request).value.status = 200)
    (hquiet : ∀ tag ∈ write.purged found, tag ∉ (renderPage site now found request).tags)
    (hkept : PathsKept site now request found left) :
    renderPage site now left request = renderPage site now found request := by
  obtain ⟨answer, f, moved, heffects⟩ := hcommits.effects
  unfold renderPage at hok hquiet ⊢
  split at hok
  · cases hok
  · rename_i locale type hroute
    rw [hroute] at hquiet
    refine renderArchive_same heffects.touches hinv.constraints hinv'.constraints ?_
    rintro a ha ⟨htype, hlocale⟩
    refine hquiet (.contentList a.type a.locale) ?_ ?_
    · exact heffects.rows a ha _ (List.mem_cons_of_mem _ List.mem_cons_self)
    · rw [htype, hlocale]
      exact archive_tag hok
  · rename_i locale type slug _ hroute
    rw [hroute] at hquiet
    obtain ⟨row, path, hrow, hpath, hurl⟩ := renderDocument_ok hok
    have htags : ∀ tag, tag ∈ (renderDocument site now found request locale type slug).tags ↔ _ :=
      mem_document_tags hrow hpath hurl
    refine renderDocument_same hinv hinv' heffects.touches heffects.moves hrow ?_ ?_ ?_
    · intro a ha heq
      refine hquiet (.translationGroup a.translationGroupId) ?_ ((htags _).mpr (.inl ?_))
      · exact heffects.rows a ha _ (List.mem_cons_of_mem _ (List.mem_cons_of_mem _
          List.mem_cons_self))
      · rw [heq]
    · exact hkept type row (documentAt_iff.mpr ⟨locale, slug, _, hroute, hrow⟩)
    · have hmedia := heffects.media (mediaIdsIn row.blocks) fun m hm hmem =>
        hquiet _ hmem ((htags _).mpr (.inr (.inr (mem_loadMedia_tags.mpr ⟨m, hm, rfl⟩))))
      unfold loadMedia
      simp only [hmedia]

/-! ### A page whose ancestors moved -/

/-- The slugs of all documents are slugs, as the schema of every state asks. -/
def Database.SlugsValid (db : Database) : Prop := ∀ r ∈ db.contents, isSlug r.slug = true

/-- A path of slugs is one that a URL spells. -/
theorem siblingPath_valid {db : Database} (hinv : ContentsInv db) (hslugs : db.SlugsValid)
    {s : ContentRow} (hs : s ∈ db.contents) (htype : s.type = type.name)
    (hnests : type.hierarchical = true) (hpath : siblingPath db type s = some path) :
    path ≠ [] ∧ ∀ slug ∈ path, isSlug slug = true := by
  have hcontent := Database.content_of_mem hinv.constraints hs
  obtain ⟨l, hp, -⟩ := hinv.tree s.id (Database.parents_ne_none.mpr ⟨s, hcontent⟩)
  rw [siblingPath_path hinv hcontent htype hnests hp] at hpath
  obtain rfl := Option.some.inj hpath
  constructor
  · obtain ⟨rest, rfl⟩ := hp.head
    simp
  · intro slug hslug
    obtain ⟨x, hx, rfl⟩ := List.mem_map.mp (List.mem_reverse.mp hslug)
    obtain ⟨r, hr⟩ := Database.parents_ne_none.mp (hp.present hx)
    rw [Database.slugOf_content hr]
    exact hslugs r (Database.mem_of_content hr)

/-- Documents with one address have one path, each in its own state of the tree. -/
theorem siblingPath_inj {db db' : Database} (hinv : ContentsInv db) (hinv' : ContentsInv db')
    (hslugs : db.SlugsValid) (hslugs' : db'.SlugsValid) {s s' : ContentRow} (hs : s ∈ db.contents)
    (hs' : s' ∈ db'.contents) (htype : s.type = type.name) (htype' : s'.type = type.name)
    (hnests : type.hierarchical = true) {path' : List String} {locale : String}
    (hpath : siblingPath db type s = some path) (hpath' : siblingPath db' type s' = some path')
    (h : documentPath locale type path' = documentPath locale type path) : path' = path := by
  obtain ⟨hne, hvalid⟩ := siblingPath_valid hinv hslugs hs htype hnests hpath
  obtain ⟨hne', hvalid'⟩ := siblingPath_valid hinv' hslugs' hs' htype' hnests hpath'
  exact documentPath_inj hne' hne hvalid' hvalid h

/-- A document that is advertised where it was has its ancestors where they were. -/
theorem ancestorsKept_of_siblingPath (hinv : ContentsInv found) (hinv' : ContentsInv left)
    (h : Touches answer f found left) (hmoves : Moves moved answer found left) {s : ContentRow}
    (hs : s ∈ found.contents) (hid : s.id ∉ answer.map (·.id)) (htype : s.type = type.name)
    (hnests : type.hierarchical = true)
    (hpath : siblingPath left type (f s) = siblingPath found type s) :
    AncestorsKept found left s.id := by
  have hfid : (f s).id = s.id := (h.same s).id
  have hcontent := Database.content_of_mem hinv.constraints hs
  have hcontent' := h.content hinv'.constraints hs hid
  obtain ⟨l, hp, -⟩ := hinv.tree s.id (Database.parents_ne_none.mpr ⟨s, hcontent⟩)
  obtain ⟨l', hp', -⟩ := hinv'.tree s.id (Database.parents_ne_none.mpr ⟨f s, hcontent'⟩)
  rw [siblingPath_path hinv hcontent htype hnests hp,
    siblingPath_path hinv' (hfid.symm ▸ hcontent') ((h.same s).type.trans htype) hnests
      (hfid.symm ▸ hp')] at hpath
  exact ancestorsKept_of_path hinv.constraints hinv'.constraints hmoves hp hp'
    (List.reverse_injective (Option.some.inj hpath))

/-- A page that shows a document carries no tag of a document outside its group. -/
theorem document_untagged (hc : found.Constraints) (hc' : left.Constraints)
    (h : Touches answer f found left)
    (hrow : found.findPublishedBySlug type.name locale slug now = some row)
    (hpath : siblingPath found type row = some path)
    (hurl : documentPath locale type path = request.pathname)
    (hgroup : ∀ a ∈ answer, a.translationGroupId ≠ row.translationGroupId) {a : ContentRow}
    (ha : a ∈ answer) {tag : CacheTag} (htag : tag ∈ purgeContent (contentEventOf a)) :
    tag ∉ (renderDocument site now found request locale type slug).tags := by
  have hof : tag = .content a.id ∨ tag = .contentList a.type a.locale ∨
      tag = .translationGroup a.translationGroupId := by
    simpa [purgeContent, contentEventOf] using htag
  rw [mem_document_tags hrow hpath hurl]
  rintro (rfl | ⟨x, hx, rfl⟩ | hmedia)
  · rcases hof with h | h | h
    · cases h
    · cases h
    · exact hgroup a ha (CacheTag.translationGroup.inj h).symm
  · rcases hof with heq | h | h
    · obtain ⟨hmem, hxg, -⟩ := mem_translations.mp hx
      refine not_announced h hc hc' hgroup hmem hxg ?_
      rw [CacheTag.content.inj heq]
      exact List.mem_map_of_mem ha
    · cases h
    · cases h
  · obtain ⟨m, -, rfl⟩ := mem_loadMedia_tags.mp hmedia
    rcases hof with h | h | h
    · cases h
    · cases h
    · cases h

/-- Whoever moved above a document is not of its group. -/
theorem moved_group (hinv : ContentsInv found) (h : Touches answer f found left)
    (hmoves : Moves moved answer found left) {s : ContentRow} (hs : s ∈ found.contents) {w : Uuid}
    {d : Nat} (hw : moved = some w) (habove : Under found.parents w (d + 1) s.id) :
    ∀ a ∈ answer, a.id = w ∧ a.translationGroupId ≠ s.translationGroupId := by
  intro a ha
  have hid : a.id ∈ answer.map (·.id) := List.mem_map_of_mem ha
  rw [hmoves.announced w hw] at hid
  have haw := List.mem_singleton.mp hid
  refine ⟨haw, fun hgroup => ?_⟩
  have hcontent := Database.content_of_mem hinv.constraints hs
  obtain ⟨l, hp, -⟩ := hinv.tree s.id (Database.parents_ne_none.mpr ⟨s, hcontent⟩)
  obtain ⟨r, hr, -, hlocale⟩ := path_kin hinv.constraints hp hcontent w (habove.mem_path hp)
  have hsame := h.told a ha r (.inl (haw ▸ hr))
  have heq := translation_unique hinv.constraints (Database.mem_of_content hr) hs
    (hsame.group.symm.trans hgroup) hlocale
  exact habove.ne hp (heq ▸ (Database.id_of_content hr).symm)

theorem mem_alternatesOf {siblings : List Sibling} {e : String × String} :
    e ∈ alternatesOf site type siblings ↔ ∃ sibling ∈ siblings, ∃ p, sibling.path = some p ∧
      e = (sibling.row.locale, site.absolute (documentPath sibling.row.locale type p)) := by
  unfold alternatesOf
  rw [List.mem_filterMap]
  constructor
  · rintro ⟨sibling, hmem, he⟩
    obtain ⟨p, hp, rfl⟩ := Option.map_eq_some_iff.mp he
    exact ⟨sibling, hmem, p, hp, rfl⟩
  · rintro ⟨sibling, hmem, p, hp, rfl⟩
    exact ⟨sibling, hmem, by rw [hp]; rfl⟩

theorem one_lt_length {α : Type} {l : List α} {a b : α} (ha : a ∈ l) (hb : b ∈ l) (hne : a ≠ b) :
    1 < l.length := by
  match l with
  | [] => cases ha
  | [x] => exact absurd ((List.mem_singleton.mp ha).trans (List.mem_singleton.mp hb).symm) hne
  | _ :: _ :: _ => simp

/-- **A page that did not change** links where it linked. -/
theorem documentPage_links {siblings siblings' : List Sibling}
    {«media» media' : List (UuidText × ResolvedMedia)} {row' : ContentRow} {path' : List String}
    (h : documentPage site request locale type row' path' siblings' media' =
      documentPage site request locale type row path siblings «media»)
    {a b : Sibling} {p q : List String} (ha : a ∈ siblings) (hb : b ∈ siblings)
    (hap : a.path = some p) (hbp : b.path = some q) (hne : a.row.locale ≠ b.row.locale) :
    ∃ c ∈ siblings', ∃ p', c.path = some p' ∧ c.row.locale = a.row.locale ∧
      documentPath a.row.locale type p' = documentPath a.row.locale type p := by
  have hhead := congrArg SiteContext.head (Response.document.inj h).1
  have halternates : (if 1 < (alternatesOf site type siblings').length then
      alternatesOf site type siblings' else []) =
        if 1 < (alternatesOf site type siblings).length then
          alternatesOf site type siblings else [] := congrArg PageHead.alternates hhead
  have hmem : (a.row.locale, site.absolute (documentPath a.row.locale type p)) ∈
      alternatesOf site type siblings := mem_alternatesOf.mpr ⟨a, ha, p, hap, rfl⟩
  have hmem' : (b.row.locale, site.absolute (documentPath b.row.locale type q)) ∈
      alternatesOf site type siblings := mem_alternatesOf.mpr ⟨b, hb, q, hbp, rfl⟩
  have hmany := one_lt_length hmem hmem' fun heq => hne (congrArg Prod.fst heq)
  rw [if_pos hmany] at halternates
  rw [← halternates] at hmem
  split at hmem
  · obtain ⟨c, hc, p', hcp, heq⟩ := mem_alternatesOf.mp hmem
    obtain ⟨hlocale, hhref⟩ := Prod.mk.inj heq
    refine ⟨c, hc, p', hcp, hlocale.symm, ?_⟩
    rw [← hlocale] at hhref
    unfold Site.absolute at hhref
    exact (String.append_right_inj _).mp hhref.symm
  · cases hmem

/-- **A page whose ancestors moved is not purged**, and is another page. -/
theorem not_covered (hinv : ContentsInv found) (hinv' : ContentsInv left)
    (hslugs : found.SlugsValid) (hslugs' : left.SlugsValid) (hcommits : write.Commits found left)
    (hok : (renderPage site now found request).value.status = 200)
    (hnot : ¬ PathsKept site now request found left) :
    ¬ Covered site now request write found left := by
  obtain ⟨answer, f, moved, heffects⟩ := hcommits.effects
  have hc := hinv.constraints
  have hc' := hinv'.constraints
  have h := heffects.touches
  have hmoves := heffects.moves
  unfold PathsKept at hnot
  push Not at hnot
  obtain ⟨type, row, hdocument, hnests, s, hs, hlost⟩ := hnot
  obtain ⟨locale, slug, segments, hroute, hrow⟩ := documentAt_iff.mp hdocument
  obtain ⟨hrmem, hrtype, -, -, hvisible⟩ := findPublishedBySlug_some hrow
  obtain ⟨hsmem, hsgroup, -⟩ := mem_translations.mp hs
  obtain ⟨w, d, hw, habove⟩ := moved_above hmoves hlost
  have houtside : ∀ a ∈ answer, a.id = w ∧ a.translationGroupId ≠ row.translationGroupId :=
    hsgroup ▸ moved_group hinv h hmoves hsmem hw habove
  have hgroup := fun a ha => (houtside a ha).2
  have hstype : s.type = type.name :=
    (Database.translation_type hc hsmem hrmem hsgroup).trans hrtype
  unfold Covered renderPage
  unfold renderPage at hok
  rw [hroute] at hok ⊢
  obtain ⟨row', path, hrow', hpath, hurl⟩ := renderDocument_ok hok
  obtain rfl := Option.some.inj (hrow.symm.trans hrow')
  intro hcovered
  -- No tag of the page is purged, so it would have to be the page it was.
  have hsame : (renderDocument site now left request locale type slug).value =
      (renderDocument site now found request locale type slug).value := by
    by_contra hne
    obtain ⟨tag, hpurged, htag⟩ := hcovered hne
    rcases heffects.purged tag hpurged with ⟨a, ha, hof⟩ | ⟨hnone, -⟩
    · exact document_untagged hc hc' h hrow hpath hurl hgroup ha hof htag
    · have hone := hmoves.announced w hw
      rw [hnone] at hone
      cases hone
  -- Then every translation would be where it was.
  have hmoved : siblingPath left type (f s) ≠ siblingPath found type s := fun heq =>
    hlost (ancestorsKept_of_siblingPath hinv hinv' h hmoves hsmem
      (not_announced h hc hc' hgroup hsmem hsgroup) hstype hnests heq)
  have hrid := not_announced h hc hc' hgroup hrmem rfl
  have hrow' := findPublishedBySlug_same h hc hc' hrow hgroup
  obtain ⟨path', hpath'⟩ := siblingPath_some hinv'
    (Database.content_of_mem hc' (h.mem hrmem hrid)) ((h.same row).type.trans hrtype)
  rw [renderDocument_eq hrow hpath, renderDocument_eq hrow' hpath', if_pos hurl] at hsame
  split at hsame
  · rename_i hurl'
    have hpage : documentPage _ _ _ _ _ _ _ _ = documentPage _ _ _ _ _ _ _ _ := hsame
    have hpaths : path' = path := siblingPath_inj hinv hinv' hslugs hslugs' hrmem
      (h.mem hrmem hrid) hrtype ((h.same row).type.trans hrtype) hnests hpath hpath'
      (hurl'.trans hurl.symm)
    by_cases hself : s = row
    · subst hself
      exact hmoved (by rw [hpath', hpath, hpaths])
    · -- The link to it is the link it was.
      have hlocale : s.locale ≠ row.locale := fun heq =>
        hself (translation_unique hc hsmem hrmem hsgroup heq)
      have hscontent := Database.content_of_mem hc hsmem
      obtain ⟨p, hp⟩ := siblingPath_some hinv hscontent hstype
      have hself := mem_translations.mpr ⟨hrmem, rfl, hvisible⟩
      obtain ⟨c, hmem, p', hp', hcs, hhref⟩ := documentPage_links hpage
        (List.mem_map_of_mem hs) (List.mem_map_of_mem hself) hp hpath hlocale
      obtain ⟨x', hx', rfl⟩ := List.mem_map.mp hmem
      rw [(h.same row).group, translations_same h hc hc' hgroup] at hx'
      obtain ⟨x, hx, rfl⟩ := List.mem_map.mp hx'
      obtain ⟨hxmem, hxgroup, -⟩ := mem_translations.mp hx
      obtain rfl : x = s := translation_unique hc hxmem hsmem (hxgroup.trans hsgroup.symm)
        ((h.same x).locale.symm.trans hcs)
      have hsid := not_announced h hc hc' hgroup hsmem hsgroup
      have hpaths : p' = p := siblingPath_inj hinv hinv' hslugs hslugs' hsmem (h.mem hsmem hsid)
        hstype ((h.same x).type.trans hstype) hnests hp hp' hhref
      exact hmoved (hp'.trans (hpaths ▸ hp.symm))
  · cases hsame

/-- **A write reaches every page it changes** exactly when it leaves the ancestors of
the documents on the page, and of those the page links to, where they are. -/
theorem tag_coverage (hinv : ContentsInv found) (hinv' : ContentsInv left)
    (hslugs : found.SlugsValid) (hslugs' : left.SlugsValid) (hcommits : write.Commits found left)
    (hok : (renderPage site now found request).value.status = 200) :
    Covered site now request write found left ↔ PathsKept site now request found left := by
  constructor
  · intro hcovered
    by_contra hnot
    exact not_covered hinv hinv' hslugs hslugs' hcommits hok hnot hcovered
  · intro hkept hchanged
    by_contra hquiet
    push Not at hquiet
    exact hchanged (congrArg Collected.value
      (renderPage_same hinv hinv' hcommits hok hquiet hkept))

end Coverage

/-! ## Runs -/

/-- Every commit of a run is a write between states that meet the invariant. -/
theorem run_commits {I : Type} [DecidableEq I] {«media» : List MediaRow} {m : ContentMachine I}
    (hrun : Run engine program (fun _ => True) (.start (Database.empty «media»)) m)
    {e : Committed Database Call (List ContentRow)} (he : e ∈ m.log) :
    (Write.content e.call e.answer).Commits e.found e.left ∧ ContentsInv e.found ∧
      ContentsInv e.left := by
  have hmeets := run_log (empty_inv «media») hrun e he
  exact ⟨hmeets.post, hmeets.found, hmeets.left⟩

/-! ### A page and the page above it -/

/-- A site in two languages, with no handlers. -/
def plainSite : Site where
  types := builtinContentTypes fun _ => false
  locales := ["en", "fr"]
  defaultLocale := "en"
  siteName := "PressLabz"
  origin := "http://localhost:4321"
  mediaBase := "http://localhost:9000/presslabz"
  translate _ key := key
  applyExcerpt excerpt _ _ := excerpt
  applyBlocks blocks _ := blocks
  isSafeHref _ := false

/-- A page that is public. -/
def publishedPage (slug : String) (parentId : Option Uuid) : ContentState :=
  { emptyPage slug parentId with status := .published }

/-- A public page, and its deletion. -/
def pageDeleted : List (Action Call Nat) :=
  wholeCall 0 (createPage (publishedPage "about" none) 1 none) 4 ++
    wholeCall 1 (.deleteContent 1 none .asFound) 7

/-- A public page under a public page, and the deletion of the one above. -/
def aboveDeleted : List (Action Call Nat) :=
  wholeCall 0 (createPage (publishedPage "about" none) 1 none) 4 ++
    wholeCall 1 (createPage (publishedPage "team" (some 1)) 2 none) 5 ++
    wholeCall 2 (.deleteContent 1 none .asFound) 9

def aboutPage : PageRequest := ⟨"/en/about", some "about", none⟩

def teamPage : PageRequest := ⟨"/en/about/team", some "about/team", none⟩

theorem tag_coverage_deleted : ∃ (m : ContentMachine Nat)
    (e : Committed Database Call (List ContentRow)) (rest : List _),
    (Machine.start (Database.empty [])).steps engine program pageDeleted = some m ∧
    m.log = e :: rest ∧
    (renderPage plainSite 0 e.found aboutPage).value.status = 200 ∧
    (renderPage plainSite 0 e.left aboutPage).value.status = 404 ∧
    Covered plainSite 0 aboutPage (.content e.call e.answer) e.found e.left := by
  have heval : ((Machine.start (Database.empty []) : ContentMachine Nat).steps engine program
      pageDeleted).any (fun m => m.log.head?.any fun e =>
        decide ((renderPage plainSite 0 e.found aboutPage).value.status = 200) &&
        decide ((renderPage plainSite 0 e.left aboutPage).value.status = 404) &&
        (e.found.contents.all fun r => isSlug r.slug && r.parentId.isNone) &&
        e.left.contents.all fun r => isSlug r.slug) = true := by decide +kernel
  obtain ⟨m, hm, hrun, hcheck⟩ := Run.of_eval heval
  obtain ⟨e, hhead, hcheck⟩ := (Option.any_eq_true _ _).mp hcheck
  obtain ⟨rest, hlog⟩ := List.head?_eq_some_iff.mp hhead
  simp only [Bool.and_eq_true, decide_eq_true_eq, List.all_eq_true] at hcheck
  obtain ⟨⟨⟨hok, hgone⟩, hrows⟩, hslugs'⟩ := hcheck
  obtain ⟨hcommits, hinv, hinv'⟩ := run_commits hrun (hlog ▸ List.mem_cons_self)
  refine ⟨m, e, rest, hm, hlog, hok, hgone, (tag_coverage hinv hinv' (fun r hr => (hrows r hr).1)
    hslugs' hcommits hok).mpr ?_⟩
  -- Nothing is above a root.
  intro type row _ _ s hs a d habove
  obtain ⟨hmem, -, -⟩ := mem_translations.mp hs
  cases habove with
  | step hup _ =>
    obtain ⟨r, hr, hparent⟩ := Database.parents_eq_some.mp hup
    have hroot := (hrows r (Database.mem_of_content hr)).2
    rw [hparent] at hroot
    cases hroot

/-- **The page above is deleted**: the page below has another URL then, and keeps its
entry at the old one. -/
theorem page_above_not_purged : ∃ (m : ContentMachine Nat)
    (e : Committed Database Call (List ContentRow)) (rest : List _),
    (Machine.start (Database.empty [])).steps engine program aboveDeleted = some m ∧
    m.log = e :: rest ∧ (Write.content e.call e.answer).Commits e.found e.left ∧
    (renderPage plainSite 0 e.found teamPage).value.status = 200 ∧
    (renderPage plainSite 0 e.left teamPage).value.status = 301 ∧
    ¬ Covered plainSite 0 teamPage (.content e.call e.answer) e.found e.left := by
  have heval : ((Machine.start (Database.empty []) : ContentMachine Nat).steps engine program
      aboveDeleted).any (fun m => m.log.head?.any fun e =>
        decide ((renderPage plainSite 0 e.found teamPage).value.status = 200) &&
        decide ((renderPage plainSite 0 e.left teamPage).value.status = 301) &&
        ((Write.content e.call e.answer).purged e.found).all fun tag =>
          tag ∉ (renderPage plainSite 0 e.found teamPage).tags) = true := by decide +kernel
  obtain ⟨m, hm, hrun, hcheck⟩ := Run.of_eval heval
  obtain ⟨e, hhead, hcheck⟩ := (Option.any_eq_true _ _).mp hcheck
  obtain ⟨rest, hlog⟩ := List.head?_eq_some_iff.mp hhead
  simp only [Bool.and_eq_true, decide_eq_true_eq, List.all_eq_true] at hcheck
  obtain ⟨⟨hok, hmoved⟩, hquiet⟩ := hcheck
  have hcommits := (run_commits hrun (hlog ▸ List.mem_cons_self)).1
  refine ⟨m, e, rest, hm, hlog, hcommits, hok, hmoved, fun hcovered => ?_⟩
  have hchanged : (renderPage plainSite 0 e.left teamPage).value ≠
      (renderPage plainSite 0 e.found teamPage).value := by
    intro heq
    rw [heq, hok] at hmoved
    cases hmoved
  obtain ⟨tag, hpurged, htag⟩ := hcovered hchanged
  exact hquiet tag hpurged htag

end PressLabz
