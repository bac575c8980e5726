import PressLabz.ContentTransactions

/-! # Deletions and the scheduler's pass

The two transactions that lock as many documents as they find: a deletion with
the children it detaches, and the publication of everything that is due.  Each
loop is read with an invariant over the rows already locked (`Detaching`,
`Claimed`), which stays true while other transactions commit in between.

With these two, every operation keeps its promises (`verified`).
-/
namespace PressLabz
open Forest RowLocks

variable {before : RowKey → RowKey → Prop} {call : Call} {held : Set RowKey}
  {own : Database → Database} {db db' : Database} {γ : Type}
  {Q : γ → Set RowKey → (Database → Database) → Database → Prop}

/-! ## `deleteContent` -/

section Delete
variable {docId : Uuid} {authorize : Option (ContentRow → Bool)} {scan : Scan}
  {current : ContentRow}

/-- The children detached so far, and the ones still to come. -/
structure Detaching (held : Set RowKey) (docId : Uuid) (detached rest : List Uuid)
    (db : Database) : Prop where
  held : ∀ c ∈ detached, RowKey.doc c ∈ held
  child : ∀ c ∈ detached, ∃ r, db.content c = some r ∧ r.parentId = some docId
  all : ∀ c r, db.content c = some r → r.parentId = some docId → c ∈ detached ∨ c ∈ rest

/-- A document that is held gets no new children, and those that are held stay. -/
theorem Detaching.later {detached rest : List Uuid} (h : Detaching held docId detached rest db)
    (hr : RelyOn before call held db db') (hid : .doc docId ∈ held)
    (hdoc : db.content docId = some current) : Detaching held docId detached rest db' where
  held := h.held
  child c hc := by
    obtain ⟨r, hcr, hp⟩ := h.child c hc
    exact ⟨r, ((Rely.doc hr (h.held c hc) hcr).content).trans hcr, hp⟩
  all c r hcr hp := by
    have hup : Under db'.parents docId 1 c :=
      .step (Database.parents_eq_some.mpr ⟨r, hcr, hp⟩) .here
    obtain ⟨c', hup', hu⟩ := ((Rely.doc hr hid hdoc).under 1 c hup).exists_child
    cases hu
    obtain ⟨r', hr', hp'⟩ := Database.parents_eq_some.mp hup'
    exact h.all c r' hr' hp'

/-- A row that turns out to be a child joins the children that were detached. -/
theorem Detaching.add {detached rest : List Uuid} {child : Uuid} {r : ContentRow}
    (h : Detaching held docId detached (child :: rest) db) (hr : db.content child = some r)
    (hp : r.parentId = some docId) :
    Detaching (insert (.doc child) held) docId (detached ++ [child]) rest db where
  held c hc := by
    rcases List.mem_append.mp hc with hc | hc
    · exact .inr (h.held c hc)
    · exact .inl (congrArg RowKey.doc (List.mem_singleton.mp hc))
  child c hc := by
    rcases List.mem_append.mp hc with hc | hc
    · exact h.child c hc
    · obtain rfl := List.mem_singleton.mp hc
      exact ⟨r, hr, hp⟩
  all c r hcr hcp := by
    rcases h.all c r hcr hcp with hmem | hmem
    · exact .inl (List.mem_append_left _ hmem)
    · rcases List.mem_cons.mp hmem with rfl | hmem
      · exact .inl (List.mem_append_right _ (List.mem_singleton_self c))
      · exact .inr hmem

/-- A row that was detached before, or is no child any more, changes nothing. -/
theorem Detaching.skip {held' : Set RowKey} {detached rest : List Uuid} {child : Uuid}
    (h : Detaching held docId detached (child :: rest) db) (hsub : held ⊆ held')
    (hno : ∀ r, db.content child = some r → r.parentId = some docId → child ∈ detached) :
    Detaching held' docId detached rest db where
  held c hc := hsub (h.held c hc)
  child := h.child
  all c r hcr hcp := by
    rcases h.all c r hcr hcp with hmem | hmem
    · exact .inl hmem
    · rcases List.mem_cons.mp hmem with rfl | hmem
      · exact .inl (hno r hcr hcp)
      · exact .inr hmem

theorem pre_detachChildren {f : Unit → Transaction γ} :
    ∀ (rest : List Uuid) (held : Set RowKey) (detached : List Uuid) (db : Database),
    .doc docId ∈ held → db.content docId = some current →
    (∀ c ∈ rest, MayRequest before held (.doc c)) →
    ((rest.map RowKey.doc).Pairwise fun a b => a = b ∨ before a b) →
    Detaching held docId detached rest db →
    (∀ held' db' detached', held ⊆ held' → RelyOn before call held db db' →
      Detaching held' docId detached' [] db' →
      pre before call Q (f ()) held' (·.detachEach detached') db') →
    ContentsInv db → (contentsDiscipline before).side call db →
    pre before call Q (detachChildren docId rest >>= f) held (·.detachEach detached) db := by
  intro rest
  induction rest with
  | nil =>
    intro held detached db _ _ _ _ hd hk hinv hside
    exact hk held db detached subset_rfl (.refl hinv hside) hd
  | cons child rest ih =>
    intro held detached db hid hdoc hreq hpair hd hk _ _
    obtain ⟨hfirst, hpair⟩ := List.pairwise_cons.mp hpair
    have hsub : held ⊆ insert (.doc child) held := Set.subset_insert _ _
    rw [detachChildren, Tx.bind_assoc]
    refine pre_lockDoc (hreq child List.mem_cons_self) (fun db1 r hr1 hrow => ?_)
      (fun db1 hr1 hrow => ?_)
    · have hd1 := hd.later hr1 hid hdoc
      have hdoc1 := ((Rely.doc hr1 hid hdoc).content).trans hdoc
      have hreqRest : ∀ c ∈ rest, MayRequest before (insert (.doc child) held) (.doc c) := by
        rintro c hc k (rfl | hk)
        · exact hfirst (.doc c) (List.mem_map_of_mem hc)
        · exact hreq c (List.mem_cons_of_mem _ hc) k hk
      rw [content_detachEach] at hrow
      obtain ⟨r', hr', hput⟩ := Option.map_eq_some_iff.mp hrow
      have hchild : r'.id = child := Database.id_of_content hr'
      -- under its lock the row is a child still, or has moved away
      by_cases hp : r.parentId = some docId
      · have hnot : r'.id ∉ detached := by
          intro hmem
          rw [if_pos hmem] at hput
          rw [← hput] at hp
          cases hp
        rw [if_neg hnot] at hput
        subst hput
        rw [if_pos (by simp [hp]), Tx.bind_assoc]
        refine wp_modify ?_
        have hown : (fun db : Database => db.setContent child ContentRow.detached) ∘
            (fun db : Database => db.detachEach detached) =
            fun db : Database => db.detachEach (detached ++ [child]) := by
          funext db
          simp [Database.detachEach]
        -- the statement is one more turn of what was done before
        rw [hown]
        exact ih _ _ db1 (hsub hid) hdoc1 hreqRest hpair (hd1.add hr' hp)
          (fun held' db' detached' hs hr => hk held' db' detached' (hsub.trans hs)
            (hr1.trans (hr.weaken hsub))) hr1.inv hr1.side
      · rw [if_neg (by simp [hp])]
        refine ih _ _ db1 (hsub hid) hdoc1 hreqRest hpair (hd1.skip hsub fun r2 hr2 hp2 => ?_)
          (fun held' db' detached' hs hr => hk held' db' detached' (hsub.trans hs)
            (hr1.trans (hr.weaken hsub))) hr1.inv hr1.side
        rw [hr'] at hr2
        obtain rfl := Option.some.inj hr2
        by_contra hnot
        rw [hchild, if_neg hnot] at hput
        exact hp (hput ▸ hp2)
    · have hd1 := hd.later hr1 hid hdoc
      have hdoc1 := ((Rely.doc hr1 hid hdoc).content).trans hdoc
      -- the row is gone by now
      rw [content_detachEach, Option.map_eq_none_iff] at hrow
      rw [if_neg (by simp)]
      refine ih held detached db1 hid hdoc1 (fun c hc => hreq c (List.mem_cons_of_mem _ hc)) hpair
        (hd1.skip subset_rfl fun r2 hr2 _ => ?_)
        (fun held' db' detached' hs hr => hk held' db' detached' hs (hr1.trans hr))
        hr1.inv hr1.side
      rw [hrow] at hr2
      cases hr2

/-! What a deletion leaves alone. -/

theorem rest_removed {α : Type} (f : Database → α)
    (hf : ∀ (db : Database) g, f (db.deleteGroup g) = f db) :
    f (db.removed current) = f (db.withoutDocument current.id) := by
  rw [Database.removed]
  split
  · exact hf _ _
  · rfl

theorem group_removed_of_ne {g : Uuid} (hg : g ≠ current.translationGroupId) :
    (db.removed current).group g = db.group g := by
  rw [Database.removed]
  split
  · exact Database.group_deleteGroup_of_ne hg
  · rfl

theorem members_removed_of_ne (h : db.content current.id = some current) {g : Uuid}
    (hg : g ≠ current.translationGroupId) (j : Uuid) :
    (∃ r, (db.removed current).content j = some r ∧ r.translationGroupId = g) ↔
      ∃ r, db.content j = some r ∧ r.translationGroupId = g := by
  rw [content_removed, content_withoutDocument]
  by_cases hj : j = current.id
  · subst hj
    simp [h, Ne.symm hg]
  · rw [if_neg hj]
    cases db.content j with
    | none => simp
    | some r =>
      simp only [Option.map_some, Option.some.injEq, exists_eq_left']
      split
      · exact Iff.rfl
      · exact Iff.rfl

/-- What `deleteContent` commits keeps what the call owes. -/
theorem removed_commits (hinv : ContentsInv db) (h : db.content current.id = some current)
    (hdoc : .doc current.id ∈ held) (hgroup : .group current.translationGroupId ∈ held)
    (hchildren : ∀ c r, db.content c = some r → r.parentId = some current.id → .doc c ∈ held)
    (hc : (db.removed current).Constraints) :
    ContentsInv (db.removed current) ∧ Always db (db.removed current) ∧
      ∀ k ∉ held, frame k db (db.removed current) := by
  have hloose := loosens_removed current hinv.constraints
  refine ⟨⟨hc, hinv.tree.loosen hloose⟩, always_removed, fun k hk => ?_⟩
  cases k with
  | doc j =>
    rintro ⟨r, hr⟩
    have hj : j ≠ current.id := fun heq => hk (heq ▸ hdoc)
    have hp : r.parentId ≠ some current.id := fun hp => hk (hchildren j r hr hp)
    refine ⟨?_, ?_, ?_, fun d x hx => hloose.under hx⟩
    · rw [content_removed, content_withoutDocument, if_neg hj, hr, Option.map_some, if_neg hp]
    · exact (rest_removed (·.revisionsOf j) fun _ _ => rfl).trans
        (Database.revisionsOf_deleteContent_of_ne hj)
    · exact (rest_removed (·.mediaOf j) fun _ _ => rfl).trans
        (Database.mediaOf_deleteContent_of_ne hj)
  | group g =>
    have hg : g ≠ current.translationGroupId := fun heq => hk (heq ▸ hgroup)
    exact fun _ => ⟨group_removed_of_ne hg, members_removed_of_ne h hg⟩

/-- Whether a group has a member left is a question of its members. -/
theorem members_left (hc : db.Constraints) {g : Uuid} :
    ((db.withoutDocument docId).membersOf g).isEmpty = true ↔
      ∀ j, j ≠ docId → ¬ ∃ r, db.content j = some r ∧ r.translationGroupId = g := by
  rw [List.isEmpty_iff, Database.membersOf, List.filter_eq_nil_iff]
  constructor
  · rintro hnone j hj ⟨r, hr, hg⟩
    have hleft : (db.withoutDocument docId).content j =
        some (if r.parentId = some docId then r.put r.detached else r) := by
      rw [content_withoutDocument, if_neg hj, hr, Option.map_some]
    refine hnone _ (Database.mem_of_content hleft) ?_
    rw [decide_eq_true_iff]
    split
    · exact hg
    · exact hg
  · intro hnone r hr hg
    simp only [Database.withoutDocument, Database.deleteContent, Database.childrenDetached,
      List.mem_filter, List.mem_map] at hr
    obtain ⟨⟨r', hr', rfl⟩, hne⟩ := hr
    have hcontent := Database.content_of_mem hc hr'
    refine hnone r'.id ?_ ⟨r', hcontent, ?_⟩
    · intro heq
      split at hne
      · simp [heq] at hne
      · simp [heq] at hne
    · rw [decide_eq_true_iff] at hg
      split at hg
      · exact hg
      · exact hg

/-- The rest of `deleteContent` keeps its promises, once the group and the document are held. -/
theorem pre_deleteRest
    (hheld : held = insert (.doc current.id) (insert (.group current.translationGroupId) ∅))
    (hcur : db.content current.id = some current)
    (hauth : ∀ decide ∈ authorize, decide current = true) :
    pre before (.deleteContent current.id authorize scan)
      (Commits (contentsDiscipline before) engine (.deleteContent current.id authorize scan))
      (do
        let children ← Tx.select (·.childrenOf current.id)
        detachChildren current.id (scan.order children)
        Tx.modify (·.deleteContent current.id)
        let remaining ← Tx.select (·.membersOf current.translationGroupId)
        (if remaining.isEmpty then do
          Tx.modify (·.deleteGroup current.translationGroupId)
          return some current
        else return some current) >>= fun row => return row.toList) held id db := by
  have hdoc : .doc current.id ∈ held := by simp [hheld]
  have hgroup : .group current.translationGroupId ∈ held := by simp [hheld]
  have hno : authorize.any (fun authorize => !authorize current) = false := by
    cases authorize with
    | none => rfl
    | some decide => simp [hauth decide rfl]
  refine wp_select fun db1 hr1 => ?_
  have hcur1 := ((Rely.doc hr1 hdoc hcur).content).trans hcur
  have hpair := hr1.side
  simp only [contentsDiscipline, lockOrder, hcur1, hno, Bool.false_eq_true, if_false,
    List.pairwise_cons] at hpair
  obtain ⟨hafterGroup, hafterDoc, hchildren⟩ := hpair
  have hreq : ∀ c ∈ scan.order (db1.childrenOf current.id), MayRequest before held (.doc c) := by
    rw [hheld]
    rintro c hc k (rfl | rfl | hk)
    · exact hafterDoc _ (List.mem_map_of_mem hc)
    · exact hafterGroup _ (List.mem_cons_of_mem _ (List.mem_map_of_mem hc))
    · exact absurd hk (Set.notMem_empty k)
  refine pre_detachChildren _ held [] db1 hdoc hcur1 hreq hchildren
    ⟨by simp, by simp, fun c r hr hp => .inr ?_⟩ (fun held' db2 detached hsub hr2 hd => ?_)
    hr1.inv hr1.side
  · exact (scan.perm _).mem_iff.mpr (Database.mem_childrenOf.mpr
      ⟨r, Database.mem_of_content hr, hp, Database.id_of_content hr⟩)
  · have hcur2 := ((Rely.doc hr2 hdoc hcur1).content).trans hcur1
    -- What was detached is, to the end, exactly the children.
    have hleft : ∀ db', RelyOn before (.deleteContent current.id authorize scan) held' db2 db' →
        db'.content current.id = some current ∧
          (∀ c r, db'.content c = some r → r.parentId = some current.id → .doc c ∈ held') ∧
          (db'.detachEach detached).deleteContent current.id = db'.withoutDocument current.id := by
      intro db' hr
      have hcur' := ((Rely.doc hr (hsub hdoc) hcur2).content).trans hcur2
      have hd' := hd.later hr (hsub hdoc) hcur2
      have hmem : ∀ c r, db'.content c = some r → r.parentId = some current.id → c ∈ detached :=
        fun c r hc hp => (hd'.all c r hc hp).resolve_right List.not_mem_nil
      refine ⟨hcur', fun c r hc hp => hd'.held c (hmem c r hc hp), ?_⟩
      rw [Database.withoutDocument, detachEach_children fun r hr' => ⟨fun hin => ?_, fun hp => ?_⟩]
      · obtain ⟨r', hc, hp⟩ := hd'.child r.id hin
        rw [Database.content_of_mem hr.inv.constraints hr'] at hc
        exact Option.some.inj hc ▸ hp
      · exact hmem r.id r (Database.content_of_mem hr.inv.constraints hr') hp
    refine wp_modify (wp_select fun db3 hr3 => ?_)
    obtain ⟨hcur3, -, hleft3⟩ := hleft db3 hr3
    have hempty : ∀ db4, RelyOn before (.deleteContent current.id authorize scan) held' db3 db4 →
        (((db4.withoutDocument current.id).membersOf current.translationGroupId).isEmpty = true ↔
          ((db3.withoutDocument current.id).membersOf current.translationGroupId).isEmpty
            = true) := by
      intro db4 hr4
      obtain ⟨g, hg⟩ := Database.group_of_content hr3.inv.constraints hcur3
      rw [members_left hr4.inv.constraints, members_left hr3.inv.constraints]
      exact forall_congr' fun j => imp_congr_right fun _ =>
        not_congr ((Rely.group hr4 (hsub hgroup) hg).members j)
    have hcommits : ∀ db4,
        RelyOn before (.deleteContent current.id authorize scan) held' db3 db4 →
        (db4.removed current).Constraints →
        Owes before (.deleteContent current.id authorize scan) held' [current] db4
          (db4.removed current) := by
      intro db4 hr4 hc
      obtain ⟨hcur4, hheld4, -⟩ := hleft db4 (hr3.trans hr4)
      obtain ⟨hinv4, halways, hframe⟩ :=
        removed_commits hr4.inv hcur4 (hsub hdoc) (hsub hgroup) hheld4 hc
      exact ⟨hinv4, halways, hframe, .inr ⟨current, hcur4, hauth, rfl, rfl⟩⟩
    rw [show ((fun db : Database => db.deleteContent current.id) ∘
      fun db => db.detachEach detached) db3 = db3.withoutDocument current.id from hleft3]
    split
    · rename_i hlast
      rw [Tx.bind_assoc]
      refine wp_modify ?_
      intro db4 hr4 hvalid
      have heq : ((db4.detachEach detached).deleteContent current.id).deleteGroup
          current.translationGroupId = db4.removed current := by
        rw [(hleft db4 (hr3.trans hr4)).2.2, Database.removed, if_pos ((hempty db4 hr4).mpr hlast)]
      exact Owes.commits (_ ∘ _) heq (hcommits db4 hr4 (heq ▸ engine_valid hvalid))
    · rename_i hothers
      intro db4 hr4 hvalid
      have heq : (db4.detachEach detached).deleteContent current.id = db4.removed current := by
        rw [(hleft db4 (hr3.trans hr4)).2.2, Database.removed,
          if_neg fun h => hothers ((hempty db4 hr4).mp h)]
      exact Owes.commits (_ ∘ _) heq (hcommits db4 hr4 (heq ▸ engine_valid hvalid))

theorem pre_deleteContent :
    pre before (.deleteContent docId authorize scan)
      (Commits (contentsDiscipline before) engine (.deleteContent docId authorize scan))
      (program (.deleteContent docId authorize scan)) ∅ id db := by
  rw [program, deleteContent, Tx.bind_assoc]
  refine wp_select fun db0 hr0 => ?_
  -- A document that is not there is answered with nothing, whatever is held by then.
  have hnothing : ∀ held db1, pre before (.deleteContent docId authorize scan)
      (Commits (contentsDiscipline before) engine (.deleteContent docId authorize scan))
      (Tx.ret []) held id db1 := fun held db1 db2 hr2 _ =>
    Owes.commits id rfl (.nothing hr2.inv (.inl ⟨rfl, rfl⟩))
  cases hrow0 : db0.content docId with
  | none =>
    simp only [id_eq, hrow0, Option.map_none]
    exact hnothing ∅ db0
  | some row0 =>
    simp only [id_eq, hrow0, Option.map_some, Tx.bind_assoc]
    have horder : RowKey.group row0.translationGroupId = .doc docId ∨
        before (.group row0.translationGroupId) (.doc docId) := by
      have hpair := hr0.side
      simp only [contentsDiscipline, lockOrder, hrow0] at hpair
      exact (List.pairwise_cons.mp hpair).1 _ List.mem_cons_self
    refine wp_forUpdate (by simp) (fun db1 hr1 _ => ?_) (fun db1 hr1 hp => ?_)
    · refine pre_lockDoc ?_ (fun db2 current hr2 hcur => ?_) (fun db2 _ _ => hnothing _ db2)
      · rintro k (rfl | hk)
        · exact horder
        · exact absurd hk (Set.notMem_empty k)
      dsimp only
      obtain rfl : current.id = docId := Database.id_of_content hcur
      have hsame : SameDocument row0 current :=
        (hr1.always.trans hr2.always).same hr2.inv.constraints hrow0 hcur
      split
      · exact wp_throw_bind
      · rename_i hauth
        have hauth : ∀ decide ∈ authorize, decide current = true := by
          intro decide hdecide
          rw [hdecide] at hauth
          simpa using hauth
        simp only [Tx.bind_assoc, ← hsame.group]
        exact pre_deleteRest rfl hcur hauth
    · -- The group is gone, so the document is gone, and stays so.
      refine pre_lockDoc (by intro k hk; exact absurd hk (Set.notMem_empty k))
        (fun db2 current hr2 hcur => ?_) (fun db2 _ _ => hnothing _ db2)
      exfalso
      have hgone : db1.content docId = none := by
        cases h : db1.content docId with
        | none => rfl
        | some row1 =>
          obtain ⟨g, hg⟩ := Database.group_of_content hr1.inv.constraints h
          rw [(hr1.always.same hr1.inv.constraints hrow0 h).group] at hg
          simp [engine, Database.present, hg] at hp
      rcases hr1.always.kept docId row0 hrow0 with ⟨r, hr, -⟩ | hret
      · rw [hgone] at hr
        cases hr
      · have hid : current.id = docId := Database.id_of_content hcur
        exact hr2.inv.constraints.fresh current (Database.mem_of_content hcur)
          (hid ▸ hr2.always.retired docId hret)

end Delete

/-! ## `publishDueContent` -/

section Publish
variable {now : Nat} {stamps : Stamps} {current : ContentRow}

theorem published_frame (stamps : Stamps) (h : db.content current.id = some current) :
    (db.published stamps current).parents = db.parents ∧
      (∀ j, j ≠ current.id → FrameDoc j db (db.published stamps current)) ∧
      ∀ g, FrameGroup g db (db.published stamps current) := by
  have hparents : (db.published stamps current).parents = db.parents :=
    parents_superseded_same stamps h rfl
  refine ⟨hparents, fun j hj => ⟨content_superseded_of_ne hj, ?_, rfl, fun d x hx => ?_⟩,
    fun g => ⟨rfl, members_superseded h g⟩⟩
  · exact revisionsOf_superseded_of_ne (w := current.publication stamps) hj
  · rwa [hparents] at hx

/-- The rows a pass has claimed. -/
structure Claimed (held : Set RowKey) (now : Nat) (claimed : List ContentRow)
    (db : Database) : Prop where
  held : ∀ r ∈ claimed, RowKey.doc r.id ∈ held
  row : ∀ r ∈ claimed, db.content r.id = some r
  due : ∀ r ∈ claimed, isDue now r = true
  nodup : (claimed.map (·.id)).Nodup

theorem Claimed.later {claimed : List ContentRow} (h : Claimed held now claimed db)
    (hr : RelyOn before call held db db') : Claimed held now claimed db' :=
  { h with row := fun r hmem =>
      ((Rely.doc hr (h.held r hmem) (h.row r hmem)).content).trans (h.row r hmem) }

theorem Claimed.cons {claimed : List ContentRow} {r : ContentRow}
    (h : Claimed held now claimed db) (hheld : .doc r.id ∈ held) (hrow : db.content r.id = some r)
    (hdue : isDue now r = true) (hne : ∀ x ∈ claimed, x.id ≠ r.id) :
    Claimed held now (r :: claimed) db where
  held := List.forall_mem_cons.mpr ⟨hheld, h.held⟩
  row := List.forall_mem_cons.mpr ⟨hrow, h.row⟩
  due := List.forall_mem_cons.mpr ⟨hdue, h.due⟩
  nodup := by
    refine List.nodup_cons.mpr ⟨fun hmem => ?_, h.nodup⟩
    obtain ⟨x, hx, heq⟩ := List.mem_map.mp hmem
    exact hne x hx heq

/-- The rows that are still to publish are what they were. -/
theorem rows_published (stamps : Stamps) {rest : List ContentRow}
    (hnodup : ((current :: rest).map (·.id)).Nodup)
    (hrow : ∀ r ∈ current :: rest, db.content r.id = some r) :
    ∀ r ∈ rest, (db.published stamps current).content r.id = some r := by
  intro r hr
  have hne : r.id ≠ current.id := fun heq =>
    (List.nodup_cons.mp hnodup).1 (List.mem_map.mpr ⟨r, hr, heq⟩)
  exact (content_superseded_of_ne hne).trans (hrow r (List.mem_cons_of_mem _ hr))

/-- What the publication of one row keeps is kept by that of all claimed rows. -/
theorem publishEach_kept {P : Database → Prop} (stamps : Stamps) {claimed : List ContentRow}
    (hstep : ∀ db current, db.content current.id = some current → P db →
      P (db.published stamps current))
    (hnodup : (claimed.map (·.id)).Nodup) (hrow : ∀ r ∈ claimed, db.content r.id = some r)
    (h : P db) : P (claimed.foldl (·.published stamps) db) := by
  induction claimed generalizing db with
  | nil => exact h
  | cons current rest ih =>
    exact ih (List.nodup_cons.mp hnodup).2 (rows_published stamps hnodup hrow)
      (hstep db current (hrow current List.mem_cons_self) h)

/-- Publishing claimed rows one after the other is one change of the database. -/
theorem publishEach_frame (stamps : Stamps) {claimed : List ContentRow}
    (hnodup : (claimed.map (·.id)).Nodup) (hrow : ∀ r ∈ claimed, db.content r.id = some r) :
    (claimed.foldl (·.published stamps) db).parents = db.parents ∧
      Always db (claimed.foldl (·.published stamps) db) ∧
      (∀ j, (∀ r ∈ claimed, r.id ≠ j) → FrameDoc j db (claimed.foldl (·.published stamps) db)) ∧
      ∀ g, FrameGroup g db (claimed.foldl (·.published stamps) db) := by
  induction claimed generalizing db with
  | nil => exact ⟨rfl, .refl db, fun j _ => .refl j db, fun g => ⟨rfl, fun _ => Iff.rfl⟩⟩
  | cons current rest ih =>
    obtain ⟨hparents, hdocs, hgroups⟩ :=
      published_frame stamps (hrow current List.mem_cons_self)
    obtain ⟨ihparents, ihalways, ihdocs, ihgroups⟩ :=
      ih (List.nodup_cons.mp hnodup).2 (rows_published stamps hnodup hrow)
    refine ⟨ihparents.trans hparents, always_superseded.trans ihalways, fun j hj => ?_,
      fun g => (hgroups g).trans (ihgroups g)⟩
    exact (hdocs j (hj current List.mem_cons_self).symm).trans
      (ihdocs j fun r hr => hj r (List.mem_cons_of_mem _ hr))

/-- A claimed row is published once: nothing happens to it before its turn and after. -/
theorem publishEach_turn (stamps : Stamps) {claimed : List ContentRow}
    (hnodup : (claimed.map (·.id)).Nodup) (hrow : ∀ r ∈ claimed, db.content r.id = some r)
    {r : ContentRow} (hr : r ∈ claimed) :
    ∃ turn, FrameDoc r.id db turn ∧
      FrameDoc r.id (turn.published stamps r) (claimed.foldl (·.published stamps) db) := by
  induction claimed generalizing db with
  | nil => cases hr
  | cons current rest ih =>
    obtain ⟨hnot, hnodupRest⟩ := List.nodup_cons.mp hnodup
    have hne : ∀ x ∈ rest, x.id ≠ current.id := fun x hx heq =>
      hnot (List.mem_map.mpr ⟨x, hx, heq⟩)
    have hrest := rows_published stamps hnodup hrow
    rcases List.mem_cons.mp hr with rfl | hr
    · obtain ⟨-, -, hlater, -⟩ := publishEach_frame stamps hnodupRest hrest
      exact ⟨db, .refl r.id db, hlater r.id hne⟩
    · obtain ⟨turn, hbefore, hafter⟩ := ih hnodupRest hrest hr
      obtain ⟨-, hdocs, -⟩ := published_frame stamps (hrow current List.mem_cons_self)
      exact ⟨turn, (hdocs r.id (hne r hr)).trans hbefore, hafter⟩

theorem pre_claim (own : Database → Database) (hown : ∀ db, (own db).content = db.content) :
    ∀ (ids : List Uuid) (held : Set RowKey) (db : Database)
      (f : List ContentRow → Transaction γ), ids.Nodup →
    (∀ c ∈ ids, MayRequest before held (.doc c)) →
    ((ids.map RowKey.doc).Pairwise fun a b => a = b ∨ before a b) →
    (∀ held' db' claimed, held ⊆ held' → RelyOn before call held db db' →
      Claimed held' now claimed db' → (∀ r ∈ claimed, r.id ∈ ids) →
      pre before call Q (f claimed) held' own db') →
    ContentsInv db → (contentsDiscipline before).side call db →
    pre before call Q (claim now ids >>= f) held own db := by
  intro ids
  induction ids with
  | nil =>
    intro held db f _ _ _ hk hinv hside
    exact hk held db [] subset_rfl (.refl hinv hside)
      ⟨by simp, by simp, by simp, List.nodup_nil⟩ (by simp)
  | cons c rest ih =>
    intro held db f hnodup hreq hpair hk _ _
    obtain ⟨hnot, hnodup⟩ := List.nodup_cons.mp hnodup
    obtain ⟨hfirst, hpair⟩ := List.pairwise_cons.mp hpair
    have hsub : held ⊆ insert (.doc c) held := Set.subset_insert _ _
    simp only [claim, Tx.bind_assoc, Tx.pure_bind]
    refine pre_lockDoc (hreq c List.mem_cons_self) (fun db1 r hr1 hrow => ?_)
      (fun db1 hr1 _ => ?_)
    · rw [hown] at hrow
      have hreqRest : ∀ x ∈ rest, MayRequest before (insert (.doc c) held) (.doc x) := by
        rintro x hx k (rfl | hk)
        · exact hfirst (.doc x) (List.mem_map_of_mem hx)
        · exact hreq x (List.mem_cons_of_mem _ hx) k hk
      refine ih _ db1 _ hnodup hreqRest hpair (fun held' db2 claimed hs hr2 hc hids => ?_)
        hr1.inv hr1.side
      have hr : RelyOn before call held db db2 := hr1.trans (hr2.weaken hsub)
      have hrow2 := ((Rely.doc hr2 (Set.mem_insert _ _) hrow).content).trans hrow
      obtain rfl : r.id = c := Database.id_of_content hrow
      -- under its lock the row is due still, or another pass has published it
      by_cases hdue : isDue now r = true
      · rw [Option.filter_some, if_pos hdue]
        refine hk held' db2 _ (hsub.trans hs) hr
          (hc.cons (hs (Set.mem_insert _ _)) hrow2 hdue fun x hx heq => ?_)
          (List.forall_mem_cons.mpr
            ⟨List.mem_cons_self, fun x hx => List.mem_cons_of_mem _ (hids x hx)⟩)
        exact hnot (show r.id ∈ rest from heq ▸ hids x hx)
      · rw [Option.filter_some, if_neg hdue]
        exact hk held' db2 claimed (hsub.trans hs) hr hc
          fun x hx => List.mem_cons_of_mem _ (hids x hx)
    -- the row is gone by now
    · exact ih held db1 _ hnodup (fun x hx => hreq x (List.mem_cons_of_mem _ hx)) hpair
        (fun held' db2 claimed hs hr2 hc hids => hk held' db2 claimed hs (hr1.trans hr2) hc
          fun x hx => List.mem_cons_of_mem _ (hids x hx)) hr1.inv hr1.side

theorem pre_publishEach :
    ∀ (rest done : List ContentRow) (db : Database) (f : List ContentRow → Transaction γ),
    Claimed held now (done ++ rest) db →
    (∀ db', RelyOn before call held db db' →
      pre before call Q (f (rest.map fun r => r.put (r.publication stamps))) held
        (fun db => (done ++ rest).foldl (·.published stamps) db) db') →
    ContentsInv db → (contentsDiscipline before).side call db →
    pre before call Q (publishEach now stamps rest >>= f) held
      (fun db => done.foldl (·.published stamps) db) db := by
  intro rest
  induction rest with
  | nil =>
    intro done db f _ hk hinv hside
    have := hk db (.refl hinv hside)
    rwa [List.append_nil] at this
  | cons current rest ih =>
    intro done db f hc hk _ _
    rw [publishEach, if_pos (hc.due current (by simp))]
    simp only [insertContentRevision, pruneRevisions, Tx.bind_assoc]
    refine wp_modify (wp_modify (wp_modify (wp_select fun db1 hr1 => ?_)))
    have hc1 := hc.later hr1
    -- the rows published before are others, so that this one is as it was claimed
    have hrow : (done.foldl (·.published stamps) db1).content current.id = some current := by
      have hnodup := hc1.nodup
      rw [List.map_append, List.nodup_append] at hnodup
      obtain ⟨hdone, -, hne⟩ := hnodup
      obtain ⟨-, -, hdocs, -⟩ := publishEach_frame stamps hdone
        fun r hr => hc1.row r (List.mem_append_left _ hr)
      rw [(hdocs current.id fun r hr => hne _ (List.mem_map_of_mem hr) _ (by simp)).content]
      exact hc1.row current (by simp)
    have hown : (fun db : Database => db.setContent current.id fun _ => current.publication stamps) ∘
        (fun db : Database => db.pruneRevisions current.id) ∘
        (fun db : Database => db.insertRevision (current.revision stamps)) ∘
        (fun db => done.foldl (·.published stamps) db) =
        fun db => (done ++ [current]).foldl (·.published stamps) db := by
      funext db
      rw [List.foldl_append]
      rfl
    have hput : ((done ++ [current]).foldl (·.published stamps) db1).content current.id =
        some (current.put (current.publication stamps)) := by
      rw [List.foldl_append]
      exact content_superseded hrow
    rw [hown]
    simp only [hput, Tx.bind_assoc, Tx.pure_bind]
    rw [List.append_cons] at hc1
    refine ih (done ++ [current]) db1 (fun rows => f (current.put (current.publication stamps) :: rows))
      hc1 (fun db2 hr2 => ?_) hr1.inv hr1.side
    rw [← List.append_cons]
    exact hk db2 (hr1.trans hr2)

theorem pre_publishDueContent :
    pre before (.publishDueContent now stamps)
      (Commits (contentsDiscipline before) engine (.publishDueContent now stamps))
      (program (.publishDueContent now stamps)) ∅ id db := by
  rw [program, publishDueContent]
  refine wp_select fun db1 hr1 => ?_
  have hpair := hr1.side
  have hnodup : (db1.due now).Nodup := by
    refine ((List.perm_insertionSort _ _).map _).nodup_iff.mpr ?_
    exact hr1.inv.constraints.contents_pkey.sublist (List.filter_sublist.map _)
  refine pre_claim id (fun _ => rfl) _ ∅ db1 _ hnodup (by simp [MayRequest]) hpair
    (fun held db2 claimed _ hr2 hc _ => ?_) hr1.inv hr1.side
  rw [← Tx.bind_pure (publishEach now stamps claimed)]
  refine pre_publishEach claimed [] db2 _ hc (fun db3 hr3 => ?_) hr2.inv hr2.side
  intro db4 hr4 hvalid
  have hc4 := hc.later (hr3.trans hr4)
  obtain ⟨hparents, halways, hdocs, hgroups⟩ :=
    publishEach_frame stamps hc4.nodup hc4.row
  refine Owes.commits (fun db => claimed.foldl (·.published stamps) db) rfl
    ⟨⟨engine_valid hvalid, hparents ▸ hr4.inv.tree⟩, halways, fun k hk => ?_,
      claimed, hc4.nodup, fun r hr => ⟨hc4.row r hr, hc4.due r hr⟩, rfl, rfl⟩
  cases k with
  | doc j => exact fun _ => hdocs j fun r hr heq => hk (heq ▸ hc4.held r hr)
  | group g => exact fun _ => hgroups g

end Publish

/-- **Every operation keeps its promises**, whatever order the rows are taken in. -/
theorem verified (before : RowKey → RowKey → Prop) :
    Verified (contentsDiscipline before) engine program := by
  intro call db hinv hside
  cases call with
  | createContent input fresh => exact pre_createContent hinv hside
  | updateContent type docId patch options stamps => exact pre_updateContent
  | deleteContent docId authorize scan => exact pre_deleteContent
  | publishDueContent now stamps => exact pre_publishDueContent

/-! ## Runs -/

/-- The order that any two rows are in asks nothing of a call. -/
abbrev AnyOrder : RowKey → RowKey → Prop := fun _ _ => True

theorem sides_anyOrder {I : Type} (m : ContentMachine I) :
    Sides (contentsDiscipline AnyOrder) m := fun _ _ _ =>
  List.pairwise_of_forall fun _ _ => .inr trivial

theorem empty_inv («media» : List MediaRow) : ContentsInv (Database.empty «media») where
  constraints := by constructor <;> simp [Database.empty]
  tree _ h := absurd rfl h

section
variable {I : Type} [DecidableEq I] {db : Database} {m : ContentMachine I}

omit [DecidableEq I] in
theorem start_sound (before : RowKey → RowKey → Prop) (hinv : ContentsInv db) :
    Sound (contentsDiscipline before) engine (Machine.start db : ContentMachine I) :=
  .quiet (m := .start db) hinv (fun _ => rfl) fun _ => rfl

/-- A run from a database that meets the invariant, with nothing under way. -/
theorem run_log (hinv : ContentsInv db)
    (hr : Run engine program (fun _ => True) (.start db) m) :
    ∀ e ∈ m.log, e.Meets (contentsDiscipline AnyOrder) :=
  (verified AnyOrder).log (fun m _ => sides_anyOrder m) (start_sound AnyOrder hinv) hr
    fun _ he => absurd he List.not_mem_nil

/-- **Every committed state of a run** meets the constraints and bounds the tree. -/
theorem run_states (hinv : ContentsInv db)
    (hr : Run engine program (fun _ => True) (.start db) m) :
    ∀ s ∈ m.states, ContentsInv s := by
  intro s hs
  rcases List.mem_cons.mp hs with rfl | hs
  · exact ((verified AnyOrder).holds (fun m _ => sides_anyOrder m)
      (start_sound AnyOrder hinv) hr).inv
  · obtain ⟨e, he, rfl⟩ := List.mem_map.mp hs
    exact (run_log hinv hr e he).found

end
end PressLabz
