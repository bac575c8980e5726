import PressLabz.ParentWalk

/-! # The four transactions keep their promises

Every operation of the repository, read statement by statement against the
discipline of `ContentCommits`: it commits what its postcondition says, keeps
the constraints and the page tree, leaves the frame of every row it does not
hold, and requests its rows in the order assumed (`verified`).
-/
namespace PressLabz
open Forest RowLocks

variable {before : RowKey → RowKey → Prop} {call : Call} {held : Set RowKey}
  {own : Database → Database} {db db' : Database} {γ : Type}
  {Q : γ → Set RowKey → (Database → Database) → Database → Prop}

/-- What a call owes of the state it leaves. -/
structure Owes (before : RowKey → RowKey → Prop) (call : Call) (held : Set RowKey)
    (answer : List ContentRow) (found left : Database) : Prop where
  inv : ContentsInv left
  always : Always found left
  frame : ∀ k ∉ held, frame k found left
  post : Post call answer found left

theorem Owes.commits (own : Database → Database) {answer : List ContentRow} {left : Database}
    (heq : own db = left) (h : Owes before call held answer db left) :
    (contentsDiscipline before).inv (own db) ∧ (contentsDiscipline before).always db (own db) ∧
      (∀ k ∉ held, (contentsDiscipline before).frame k db (own db)) ∧
      (contentsDiscipline before).post call answer db (own db) :=
  heq ▸ ⟨h.inv, h.always, h.frame, h.post⟩

/-- A call that finds nothing to do commits nothing. -/
theorem Owes.nothing {answer : List ContentRow} (hinv : ContentsInv db)
    (hpost : Post call answer db db) : Owes before call held answer db db :=
  ⟨hinv, .refl db, fun k _ => frame_refl k db, hpost⟩

/-! ## Writing one document -/

section Superseded
variable {current : ContentRow} {stamps : Stamps} {w : RowWrite}

theorem members_superseded (h : db.content current.id = some current) (g j : Uuid) :
    (∃ r, (db.superseded current stamps w).content j = some r ∧ r.translationGroupId = g) ↔
      ∃ r, db.content j = some r ∧ r.translationGroupId = g := by
  by_cases hj : j = current.id
  · subst hj
    rw [content_superseded h, h]
    simp [ContentRow.put]
  · rw [content_superseded_of_ne hj]

/-- The parent a write sets is usable, or none, or the one there was. -/
def ParentFits (held : Set RowKey) (db : Database) (current : ContentRow)
    (parentId : Option Uuid) : Prop :=
  parentId = none ∨ parentId = current.parentId ∨
    ∃ p l, parentId = some p ∧ Usable held db (some current.id) p l

/-- **A write keeps the tree**, and puts nothing new under a document that the
writer does not hold. -/
theorem superseded_tree (stamps : Stamps) (hinv : ContentsInv db)
    (h : db.content current.id = some current)
    (hfits : ParentFits held db current w.columns.parentId)
    (hself : w.columns.parentId ≠ some current.id) :
    Bounded (db.superseded current stamps w).parents MAX_HIERARCHY_DEPTH ∧
      ∀ j, .doc j ∉ held → ∀ d x, Under (db.superseded current stamps w).parents j d x →
        Under db.parents j d x := by
  rcases hfits with hnone | hsame | ⟨p, l, hp, hu⟩
  · have hl := loosens_superseded stamps h hinv.constraints hnone
    exact ⟨hinv.tree.loosen hl, fun j _ d x hx => hl.under hx⟩
  · have heq := parents_superseded_same stamps h hsame
    rw [heq]
    exact ⟨hinv.tree, fun j _ d x hx => hx⟩
  · obtain ⟨hat, hother⟩ := parents_superseded stamps (w := w) h
    rw [hp] at hat
    have hfree : current.id ∉ l := by
      intro hmem
      rw [hp, hu.free current.id rfl hmem] at hself
      exact hself rfl
    constructor
    · exact hinv.tree.hang hat hother hu.path hfree (hu.under current.id rfl)
    · intro j hj d x hx
      exact hx.of_hang hat hother hu.path fun hjl => hj (hu.held j hjl)

end Superseded

/-! ## `updateContent` -/

section Update
variable {type : AnyContentType} {docId : Uuid} {patch : Patch} {options : UpdateContentOptions}
  {stamps : Stamps} {current : ContentRow} {next : ContentState}

theorem content_updated (h : db.content current.id = some current) :
    (db.updated type current next stamps).content current.id =
      some (current.put (next.write current stamps)) := content_superseded h

theorem content_updated_of_ne {j : Uuid} (h : j ≠ current.id) :
    (db.updated type current next stamps).content j = db.content j :=
  content_superseded_of_ne h

theorem mediaOf_updated_of_ne {j : Uuid} (h : j ≠ current.id) :
    (db.updated type current next stamps).mediaOf j = db.mediaOf j := by
  refine (Database.mediaOf_syncMedia_of_ne h ?_ ?_).trans rfl
  · intro m hm
    have hm := List.mem_of_mem_filter hm
    simpa [Database.mediaOf] using (List.mem_filter.mp hm).2
  · intro m hm
    obtain ⟨r, -, rfl⟩ := List.mem_map.mp hm
    rfl

/-- What `updateContent` commits keeps what the call owes. -/
theorem updated_commits (hinv : ContentsInv db) (h : db.content current.id = some current)
    (hheld : .doc current.id ∈ held)
    (hmove : ∀ t, moves current next = some t → ∃ l, Usable held db (some current.id) t.uuid l)
    (hc : (db.updated type current next stamps).Constraints) :
    ContentsInv (db.updated type current next stamps) ∧
      Always db (db.updated type current next stamps) ∧
      ∀ k ∉ held, frame k db (db.updated type current next stamps) := by
  have hfits : ParentFits held db current (next.write current stamps).columns.parentId := by
    cases hp : next.parentId with
    | none => exact .inl (by simp [ContentState.write, ContentState.toColumns, hp])
    | some t =>
      have hcols : (next.write current stamps).columns.parentId = some t.uuid := by
        simp [ContentState.write, ContentState.toColumns, hp]
      by_cases hsame : current.parentId.map Uuid.text = some t
      · obtain ⟨p, hcp, rfl⟩ := Option.map_eq_some_iff.mp hsame
        exact .inr (.inl (hcols.trans hcp.symm))
      · obtain ⟨l, hu⟩ := hmove t (by
          rw [moves, hp, Option.filter_some, if_pos (decide_eq_true hsame)])
        exact .inr (.inr ⟨t.uuid, l, hcols, hu⟩)
  have hself : (next.write current stamps).columns.parentId ≠ some current.id := by
    have hrow : (db.updated type current next stamps).content current.id = _ := content_updated h
    exact hc.contents_parent_not_self _ (Database.mem_of_content hrow)
  obtain ⟨htree, hunder⟩ := superseded_tree stamps hinv h hfits hself
  have halways : Always db (db.superseded current stamps (next.write current stamps)) :=
    always_superseded
  refine ⟨⟨hc, htree⟩, ⟨halways.kept, halways.retired⟩, fun k hk => ?_⟩
  cases k with
  | doc j =>
    have hj : j ≠ current.id := fun heq => hk (heq ▸ hheld)
    exact fun _ => ⟨content_updated_of_ne hj,
      revisionsOf_superseded_of_ne (w := next.write current stamps) hj,
      mediaOf_updated_of_ne hj, hunder j hk⟩
  | group g => exact fun _ => ⟨rfl, members_superseded h g⟩

theorem pre_checkMove {f : Unit → Transaction γ} (hown : ∀ db, (own db).content = db.content)
    (hcall : call = .updateContent type docId patch options stamps)
    (hinv : ContentsInv db) (hside : (contentsDiscipline before).side call db)
    (hheld : held = {.doc docId}) (h : db.content docId = some current)
    (hnext : nextState type current patch options = .ok next)
    (hk : ∀ held' db', held ⊆ held' → RelyOn before call held db db' →
      (∀ t, moves current next = some t → ∃ l, Usable held' db' (some current.id) t.uuid l) →
      pre before call Q (f ()) held' own db') :
    pre before call Q (checkMove current next >>= f) held own db := by
  rw [checkMove]
  cases hm : moves current next with
  | none => exact hk held db subset_rfl (.refl hinv hside) (by simp [hm])
  | some t =>
    refine pre_assertUsableParent hown (fun db' hr => ?_) (fun held' db' l hsub hr hu => ?_)
      hinv hside
    · have hcur : db'.content docId = some current :=
        ((Rely.doc hr (by rw [hheld]; exact rfl) h).content).trans h
      have hpair := hr.side
      rw [hcall] at hpair
      simp only [contentsDiscipline, lockOrder, hcur, hnext, hm, Option.toList_some,
        List.flatMap_cons, List.flatMap_nil, List.append_nil, List.pairwise_cons] at hpair
      refine ⟨fun x hx k hk => ?_, hpair.2⟩
      rw [hheld] at hk
      obtain rfl := hk
      exact hpair.1 (.doc x) (List.mem_map_of_mem hx)
    · refine hk held' db' hsub hr fun t' ht' => ⟨l, ?_⟩
      rw [hm] at ht'
      exact Option.some.inj ht' ▸ hu

theorem pre_updateContent :
    pre before (.updateContent type docId patch options stamps)
      (Commits (contentsDiscipline before) engine (.updateContent type docId patch options stamps))
      (program (.updateContent type docId patch options stamps)) ∅ id db := by
  rw [program, updateContent, Tx.bind_assoc]
  refine pre_lockDoc (fun _ hk => absurd hk (Set.notMem_empty _)) (fun db1 current hr1 hcur => ?_)
    (fun db1 hr1 _ => ?_)
  · dsimp only
    cases hnext : nextState type current patch options with
    | error e => exact wp_throw_bind
    | ok next =>
      simp only [insertContentRevision, pruneRevisions, syncMediaReferences, Tx.bind_assoc]
      refine pre_checkMove (fun _ => rfl) rfl hr1.inv hr1.side (by simp) hcur hnext
        (fun held db2 hsub hr2 hmove => ?_)
      refine wp_modify (wp_modify (wp_modify (wp_select fun db3 hr3 => wp_select fun db4 hr4 =>
        wp_modify ?_)))
      intro db5 hr5 hvalid
      have hheld : .doc docId ∈ held := hsub (Set.mem_insert _ _)
      obtain rfl : current.id = docId := Database.id_of_content hcur
      -- the document is locked, so that every later read finds it as it was
      have hcur2 := ((Rely.doc hr2 (Set.mem_insert _ _) hcur).content).trans hcur
      have hcur3 := ((Rely.doc hr3 hheld hcur2).content).trans hcur2
      have hcur4 := ((Rely.doc hr4 hheld hcur3).content).trans hcur3
      have hcur5 := ((Rely.doc hr5 hheld hcur4).content).trans hcur4
      have hmedia := (Rely.doc hr5 hheld hcur4).contentMedia
      have hrow : (db3.superseded current stamps (next.write current stamps)).content current.id =
          some (current.put (next.write current stamps)) := content_superseded hcur3
      have hleft : (db5.superseded current stamps (next.write current stamps)).syncMedia
          (goneRows (db4.mediaOf current.id) (mediaReferencesOf type next.blocks next.meta))
          ((addedReferences (db4.mediaOf current.id)
            (mediaReferencesOf type next.blocks next.meta)).map (·.row current.id)) =
          db5.updated type current next stamps := by
        rw [Database.updated, hmedia]
      have hc : (db5.updated type current next stamps).Constraints :=
        engine_valid (hleft ▸ hvalid)
      -- the parent that was checked is usable still
      have hmove5 : ∀ t, moves current next = some t →
          ∃ l, Usable held db5 (some current.id) t.uuid l := by
        intro t ht
        obtain ⟨l, hu⟩ := hmove t ht
        refine ⟨l, hu.later (hr3.trans (hr4.trans hr5)) fun c hcc => ?_⟩
        obtain rfl := Option.some.inj hcc
        exact ⟨hheld, current, hcur2⟩
      obtain ⟨hinv5, halways, hframe⟩ := updated_commits hr5.inv hcur5 hheld hmove5 hc
      refine Owes.commits (_ ∘ _) hleft ⟨hinv5, halways, hframe, .inr ?_⟩
      exact ⟨current, next, hcur5, hnext, congrArg Option.toList hrow, rfl⟩
  · intro db2 hr2 hvalid
    exact Owes.commits id rfl (.nothing hr2.inv (.inl ⟨rfl, rfl⟩))

end Update

/-! ## `createContent` -/

section Create
variable {input : CreateContentInput} {fresh : Fresh}

/-- Nobody hangs under a document that is not there. -/
theorem under_absent (hc : db.Constraints) {a x : Uuid} {d : Nat} (ha : db.content a = none)
    (h : Under db.parents a d x) : d = 0 := by
  cases d with
  | zero => rfl
  | succ d =>
    obtain ⟨c, hup, -⟩ := h.exists_child
    obtain ⟨r, hr, hrp⟩ := Database.parents_eq_some.mp hup
    obtain ⟨q, hq, rfl, -⟩ := hc.contents_parent_fk r (Database.mem_of_content hr) a hrp
    rw [Database.content_of_mem hc hq] at ha
    cases ha

/-- The parent of a new document is usable, if it has one. -/
def NewParentFits (held : Set RowKey) (db : Database) (input : CreateContentInput) : Prop :=
  ∀ p, input.state.parentId = some p → ∃ l, Usable held db none p.uuid l

theorem created_tree (hinv : ContentsInv db) (hnew : db.content fresh.id = none)
    (hfits : NewParentFits held db input) :
    Bounded (db.created input fresh).parents MAX_HIERARCHY_DEPTH ∧
      ∀ j, .doc j ∉ held → ∀ d x, Under (db.created input fresh).parents j d x →
        Under db.parents j d x := by
  obtain ⟨hat, hother⟩ := parents_created db input fresh
  have hnone : db.parents fresh.id = none := by rw [Database.parents, hnew]; rfl
  cases hp : input.state.parentId with
  | none =>
    rw [hp] at hat
    refine ⟨hinv.tree.root (by decide) hnone hat hother, fun j _ d x hx => ?_⟩
    refine hx.of_edges fun y q hy => ?_
    by_cases hyn : y = fresh.id
    · rw [hyn, hat] at hy
      cases hy
    · rwa [hother y hyn] at hy
  | some p =>
    obtain ⟨l, hu⟩ := hfits p hp
    rw [hp] at hat
    have hfree : fresh.id ∉ l := fun hl => hu.path.present hl hnone
    constructor
    · refine hinv.tree.hang hat hother hu.path hfree fun d x hx => ?_
      have hd := under_absent hinv.constraints hnew hx
      have := hu.fits
      omega
    · intro j hj d x hx
      exact hx.of_hang hat hother hu.path fun hjl => hj (hu.held j hjl)

/-- A new document joins its own group and no other. -/
theorem members_created_of_ne (hnew : db.content fresh.id = none) {g : Uuid}
    (hg : g ≠ input.groupId fresh) (j : Uuid) :
    (∃ r, (db.created input fresh).content j = some r ∧ r.translationGroupId = g) ↔
      ∃ r, db.content j = some r ∧ r.translationGroupId = g := by
  by_cases hj : j = fresh.id
  · subst hj
    rw [content_created, if_pos rfl, hnew]
    simp [CreateContentInput.row, Ne.symm hg]
  · rw [content_created_of_ne hj]

/-- What `createContent` commits keeps what the call owes. -/
theorem created_commits (hinv : ContentsInv db) (hnew : db.content fresh.id = none)
    (hfits : NewParentFits held db input)
    (hgroup : .group (input.groupId fresh) ∈ held ∨ db.group (input.groupId fresh) = none)
    (hc : (db.created input fresh).Constraints) :
    ContentsInv (db.created input fresh) ∧ Always db (db.created input fresh) ∧
      ∀ k ∉ held, frame k db (db.created input fresh) := by
  obtain ⟨htree, hunder⟩ := created_tree hinv hnew hfits
  refine ⟨⟨hc, htree⟩, always_created hnew, fun k hk => ?_⟩
  cases k with
  | doc j =>
    rintro ⟨r, hr⟩
    have hj : j ≠ fresh.id := by
      rintro rfl
      rw [hnew] at hr
      cases hr
    exact ⟨content_created_of_ne hj, revisionsOf_created, mediaOf_created_of_ne hj, hunder j hk⟩
  | group g =>
    rintro ⟨r, hr⟩
    have hg : g ≠ input.groupId fresh := by
      rintro rfl
      rcases hgroup with hheld | hnone
      · exact hk hheld
      · rw [hnone] at hr
        cases hr
    exact ⟨group_created_of_ne hg, members_created_of_ne hnew hg⟩

/-- The constraints of what a creation leaves say that its ids were new. -/
theorem created_new {gone added : List ContentMediaRow}
    (hc : (((db.opened input fresh).insertContent (input.row fresh (input.groupId fresh))).syncMedia
      gone added).Constraints) :
    db.content fresh.id = none ∧ fresh.id ∉ db.retired ∧
      (input.join = none → db.group fresh.groupId = none) := by
  have hcontents : (db.opened input fresh).contents = db.contents := by
    rw [Database.opened]
    split
    · rfl
    · rfl
  have hretired : (db.opened input fresh).retired = db.retired := by
    rw [Database.opened]
    split
    · rfl
    · rfl
  refine ⟨?_, ?_, fun hjoin => ?_⟩
  · have hpk := hc.contents_pkey
    simp only [Database.syncMedia, Database.insertContent, hcontents, List.map_cons,
      List.nodup_cons] at hpk
    exact Rows.find_eq_none.mpr fun r hr heq => hpk.1 (List.mem_map.mpr ⟨r, hr, heq⟩)
  · exact hretired ▸ hc.fresh _ List.mem_cons_self
  · have hpk := hc.translation_groups_pkey
    simp only [Database.syncMedia, Database.insertContent, Database.opened, hjoin,
      Database.insertGroup, List.map_cons, List.nodup_cons] at hpk
    exact Rows.find_eq_none.mpr fun g hg heq => hpk.1 (List.mem_map.mpr ⟨g, hg, heq⟩)

/-- A document that is new has no references yet. -/
theorem mediaOf_absent (hc : db.Constraints) {j : Uuid} (hj : db.content j = none) :
    db.mediaOf j = [] := by
  refine List.filter_eq_nil_iff.mpr fun m hm => ?_
  obtain ⟨r, hr, hrm⟩ := hc.content_media_content_fk m hm
  have hne := Rows.find_eq_none.mp hj r hr
  rw [hrm] at hne
  simpa using hne

theorem mediaOf_opened {row : ContentRow} {j : Uuid} :
    ((db.opened input fresh).insertContent row).mediaOf j = db.mediaOf j := by
  rw [Database.opened]
  split
  · rfl
  · rfl

/-- The rows a creation would lock for its parent come after its group. -/
theorem side_checkParent (hside : (contentsDiscipline before).side (.createContent input fresh) db)
    {p : UuidText} (hp : input.state.parentId = some p)
    (hheld : ∀ k ∈ held, ∃ join, input.join = some join ∧ k = .group join.translationGroupId) :
    (∀ x ∈ ParentCheck.ancestors ⟨none, p, input.type.name, input.locale⟩ db,
      MayRequest before held (.doc x)) ∧
    ((ParentCheck.ancestors ⟨none, p, input.type.name, input.locale⟩ db).map
      RowKey.doc).Pairwise fun a b => a = b ∨ before a b := by
  simp only [contentsDiscipline, lockOrder, hp, Option.toList_some, List.flatMap_cons,
    List.flatMap_nil, List.append_nil, List.pairwise_append] at hside
  obtain ⟨-, hpair, hgroup⟩ := hside
  refine ⟨fun x hx k hk => ?_, hpair⟩
  obtain ⟨join, hjoin, rfl⟩ := hheld k hk
  exact hgroup _ (by simp [hjoin]) _ (List.mem_map_of_mem hx)

/-- The rest of `createContent` keeps its promises, once the group is there. -/
theorem pre_createRest (hopen : ∀ db, own db = db.opened input fresh)
    (hheld : ∀ k ∈ held, ∃ join, input.join = some join ∧ k = .group join.translationGroupId)
    (hgroup : ∀ join, input.join = some join → .group join.translationGroupId ∈ held)
    (hinv : ContentsInv db) (hside : (contentsDiscipline before).side (.createContent input fresh)
      db) :
    pre before (.createContent input fresh)
      (Commits (contentsDiscipline before) engine (.createContent input fresh))
      (do
        input.checkParent
        Tx.modify (·.insertContent (input.row fresh (input.groupId fresh)))
        syncMediaReferences fresh.id
          (mediaReferencesOf input.type input.state.blocks input.state.meta)
        return [input.row fresh (input.groupId fresh)]) held own db := by
  have hown : ∀ db, (own db).content = db.content := fun db => by
    rw [hopen]
    exact funext fun _ => content_opened
  -- Whatever the walk found, the insert is the same from here on.
  have htail : ∀ held' db', held ⊆ held' →
      RelyOn before (.createContent input fresh) held db db' → NewParentFits held' db' input →
      pre before (.createContent input fresh)
        (Commits (contentsDiscipline before) engine (.createContent input fresh))
        (do
          Tx.modify (·.insertContent (input.row fresh (input.groupId fresh)))
          syncMediaReferences fresh.id
            (mediaReferencesOf input.type input.state.blocks input.state.meta)
          return [input.row fresh (input.groupId fresh)]) held' own db' := by
    intro held' db1 hsub hr1 hfits
    simp only [syncMediaReferences, Tx.bind_assoc]
    refine wp_modify (wp_select fun db2 hr2 => wp_modify ?_)
    intro db3 hr3 hvalid
    have hc : (((own db3).insertContent (input.row fresh (input.groupId fresh))).syncMedia
        _ _).Constraints := engine_valid hvalid
    rw [hopen] at hc
    obtain ⟨hnew, hret, hgroupnew⟩ := created_new hc
    -- The document is new, so there was nothing to synchronize with.
    have hread : ((own db2).insertContent (input.row fresh (input.groupId fresh))).mediaOf
        fresh.id = [] := by
      rw [hopen]
      exact mediaOf_opened.trans
        (mediaOf_absent hr2.inv.constraints (hr3.always.absent hnew hret))
    have hleft : ((own db3).insertContent (input.row fresh (input.groupId fresh))).syncMedia
        (goneRows (((own db2).insertContent
            (input.row fresh (input.groupId fresh))).mediaOf fresh.id)
          (mediaReferencesOf input.type input.state.blocks input.state.meta))
        ((addedReferences (((own db2).insertContent
            (input.row fresh (input.groupId fresh))).mediaOf fresh.id)
          (mediaReferencesOf input.type input.state.blocks input.state.meta)).map
            (·.row fresh.id)) = db3.created input fresh := by
      rw [hread, goneRows_nil, addedReferences_nil, hopen]
      rfl
    have hfits3 : NewParentFits held' db3 input := fun p hp => by
      obtain ⟨l, hu⟩ := hfits p hp
      exact ⟨l, hu.later (hr2.trans hr3) (by simp)⟩
    have hjoined : .group (input.groupId fresh) ∈ held' ∨
        db3.group (input.groupId fresh) = none := by
      rw [CreateContentInput.groupId]
      cases hjoin : input.join with
      | none => exact .inr (hgroupnew hjoin)
      | some join => exact .inl (hsub (hgroup join hjoin))
    obtain ⟨hinv3, halways, hframe⟩ :=
      created_commits hr3.inv hnew hfits3 hjoined (hleft ▸ engine_valid hvalid)
    exact Owes.commits (_ ∘ _) hleft ⟨hinv3, halways, hframe, rfl, hnew, hgroupnew, rfl⟩
  rw [CreateContentInput.checkParent]
  cases hp : input.state.parentId with
  | none => exact htail held db subset_rfl (.refl hinv hside) (by simp [NewParentFits, hp])
  | some p =>
    refine pre_assertUsableParent hown (fun db' hr => side_checkParent hr.side hp hheld)
      (fun held' db' l hsub hr hu => htail held' db' hsub hr fun p' hp' => ⟨l, ?_⟩) hinv hside
    rw [hp] at hp'
    exact Option.some.inj hp' ▸ hu

theorem pre_createContent (hinv : ContentsInv db)
    (hside : (contentsDiscipline before).side (.createContent input fresh) db) :
    pre before (.createContent input fresh)
      (Commits (contentsDiscipline before) engine (.createContent input fresh))
      (program (.createContent input fresh)) ∅ id db := by
  have hbody : program (.createContent input fresh) = (do
      let groupId ← input.group fresh
      input.checkParent
      Tx.modify (·.insertContent (input.row fresh groupId))
      syncMediaReferences fresh.id
        (mediaReferencesOf input.type input.state.blocks input.state.meta)
      return [input.row fresh groupId]) := by
    simp only [program, createContent, Tx.bind_assoc, Tx.pure_bind]
  rw [hbody, CreateContentInput.group]
  cases hjoin : input.join with
  | none =>
    have hid : input.groupId fresh = fresh.groupId := by rw [CreateContentInput.groupId, hjoin]
    simp only [openGroup, Tx.bind_assoc, Tx.pure_bind]
    refine wp_modify ?_
    rw [← hid]
    exact pre_createRest (fun db => by simp only [Database.opened, hjoin, hid]; rfl) (by simp)
      (by simp [hjoin]) hinv hside
  | some join =>
    have hid : input.groupId fresh = join.translationGroupId := by
      rw [CreateContentInput.groupId, hjoin]
    simp only [joinGroup, Tx.bind_assoc]
    refine wp_forUpdate (by simp) (fun db1 hr1 hp => ?_) (fun db1 hr1 hp => ?_)
    · obtain ⟨group, hgroup⟩ := Option.isSome_iff_exists.mp hp
      rw [id_eq] at hgroup
      simp only [id_eq, hgroup]
      split
      · exact wp_throw_bind
      · rw [Tx.bind_assoc]
        refine wp_select fun db2 hr2 => ?_
        split
        · exact wp_throw_bind
        · split
          · exact wp_throw_bind
          · rw [Tx.pure_bind, ← hid]
            -- the lock of the group is held to the end
            refine pre_createRest (fun db => by simp only [Database.opened, hjoin]; rfl) ?_ ?_
              hr2.inv hr2.side
            · rintro k (rfl | hk)
              · exact ⟨join, hjoin, congrArg RowKey.group hid⟩
              · exact absurd hk (Set.notMem_empty k)
            · intro join' hjoin'
              rw [hjoin] at hjoin'
              obtain rfl := Option.some.inj hjoin'
              exact .inl (congrArg RowKey.group hid.symm)
    -- the group is gone by now
    · have hnone : db1.group join.translationGroupId = none := Option.isNone_iff_eq_none.mp
        (by simpa [engine, Database.present] using hp)
      simp only [id_eq, hnone]
      exact wp_throw_bind

end Create

end PressLabz
