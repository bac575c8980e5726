import PressLabz.ContentEffects
import PressLabz.RowLockLogic

/-! # What each operation commits

The change of each operation as one function of the database it finds
(`superseded`, `updated`, `published`, `created`, `removed`), with the frame of
every document it does not write, and the postconditions built from them
(`Post`).  `contentsDiscipline` is what the four operations promise each other:
the constraints and the bounded page tree in every committed state, and the
frames of `ContentEffects` for whoever holds a row.

The order in which rows are requested is a parameter: `lockOrder` is the
sequence a call would lock if it ran at once, and the discipline asks that it
ascend in `before`.  With the order that holds of any two rows it asks nothing.
-/
namespace PressLabz
open Forest RowLocks

/-- The group a new document is a member of. -/
def CreateContentInput.groupId (input : CreateContentInput) (fresh : Fresh) : Uuid :=
  match input.join with
  | none => fresh.groupId
  | some join => join.translationGroupId

namespace Database
variable (db : Database)

/-- A write of a document that records the state it supersedes. -/
def superseded (current : ContentRow) (stamps : Stamps) (w : RowWrite) : Database :=
  ((db.insertRevision (current.revision stamps)).pruneRevisions current.id).setContent current.id
    fun _ => w

/-- What `updateContent` commits. -/
def updated (type : AnyContentType) (current : ContentRow) (next : ContentState)
    (stamps : Stamps) : Database :=
  let references := mediaReferencesOf type next.blocks next.meta
  (db.superseded current stamps (next.write current stamps)).syncMedia
    (goneRows (db.mediaOf current.id) references)
    ((addedReferences (db.mediaOf current.id) references).map (·.row current.id))

/-- What `publishDueContent` commits for one row. -/
def published (stamps : Stamps) (current : ContentRow) : Database :=
  db.superseded current stamps (current.publication stamps)

/-- The database once the group of a new document is opened. -/
def opened (input : CreateContentInput) (fresh : Fresh) : Database :=
  match input.join with
  | none => db.insertGroup ⟨fresh.groupId, input.type.name⟩
  | some _ => db

/-- What `createContent` commits. -/
def created (input : CreateContentInput) (fresh : Fresh) : Database :=
  ((db.opened input fresh).insertContent (input.row fresh (input.groupId fresh))).syncMedia []
    ((mediaReferencesOf input.type input.state.blocks input.state.meta).map (·.row fresh.id))

/-- Every child of a document is a root. -/
def childrenDetached (id : Uuid) : Database :=
  { db with
    contents := db.contents.map fun r => if r.parentId = some id then r.put r.detached else r }

/-- Some documents are roots, one after the other. -/
def detachEach (children : List Uuid) : Database :=
  children.foldl (fun db child => db.setContent child ContentRow.detached) db

/-- What `deleteContent` commits, the group apart. -/
def withoutDocument (id : Uuid) : Database := (db.childrenDetached id).deleteContent id

/-- What `deleteContent` commits. -/
def removed (current : ContentRow) : Database :=
  let rest := db.withoutDocument current.id
  if (rest.membersOf current.translationGroupId).isEmpty then
    rest.deleteGroup current.translationGroupId
  else rest

end Database

/-! ## What they change -/

section Superseded
variable {db : Database} {current : ContentRow} {stamps : Stamps} {w : RowWrite} {j : Uuid}

theorem content_superseded (h : db.content current.id = some current) :
    (db.superseded current stamps w).content current.id = some (current.put w) :=
  Database.content_setContent_self _ (by simpa using h)

theorem content_superseded_of_ne (h : j ≠ current.id) :
    (db.superseded current stamps w).content j = db.content j := by
  rw [Database.superseded, Database.content_setContent_of_ne _ h, Database.content_pruneRevisions,
    Database.content_insertRevision]

theorem revisionsOf_superseded :
    (db.superseded current stamps w).revisionsOf current.id =
      Database.pruned (current.revision stamps :: db.revisionsOf current.id) := by
  rw [Database.superseded, Database.revisionsOf_setContent,
    Database.revisionsOf_pruneRevisions_self]
  exact congrArg Database.pruned (Database.revisionsOf_insertRevision_self _)

theorem revisionsOf_superseded_of_ne (h : j ≠ current.id) :
    (db.superseded current stamps w).revisionsOf j = db.revisionsOf j := by
  rw [Database.superseded, Database.revisionsOf_setContent,
    Database.revisionsOf_pruneRevisions_of_ne h]
  exact Database.revisionsOf_insertRevision_of_ne fun heq => h heq.symm

theorem always_superseded : Always db (db.superseded current stamps w) :=
  Always.trans (b := (db.insertRevision (current.revision stamps)).pruneRevisions current.id)
    ⟨fun _ r hr => .inl ⟨r, hr, .refl r⟩, fun _ h => h⟩ (Database.always_setContent _)

theorem parents_superseded (stamps : Stamps) (h : db.content current.id = some current) :
    (db.superseded current stamps w).parents current.id = some w.columns.parentId ∧
      ∀ x, x ≠ current.id → (db.superseded current stamps w).parents x = db.parents x :=
  ⟨Database.parents_setContent_self (w := fun _ => w) (by simpa using h),
    fun _ hx => Database.parents_setContent_of_ne hx⟩

/-- A write that keeps the parent keeps the tree. -/
theorem parents_superseded_same (stamps : Stamps) (h : db.content current.id = some current)
    (hp : w.columns.parentId = current.parentId) :
    (db.superseded current stamps w).parents = db.parents := by
  obtain ⟨hself, hother⟩ := parents_superseded stamps (w := w) h
  funext x
  by_cases hx : x = current.id
  · rw [hx, hself, hp]
    exact (Database.parents_eq_some.mpr ⟨current, h, rfl⟩).symm
  · exact hother x hx

/-- A write that makes a document a root only cuts it loose. -/
theorem loosens_superseded (stamps : Stamps) (h : db.content current.id = some current)
    (hc : db.Constraints) (hp : w.columns.parentId = none) :
    Loosens db.parents (db.superseded current stamps w).parents := by
  obtain ⟨hself, hother⟩ := parents_superseded stamps (w := w) h
  refine ⟨fun x hx => ?_, fun x p hx => ?_⟩
  · by_cases hxc : x = current.id
    · rw [hxc]
      exact Database.parents_ne_none.mpr ⟨current, h⟩
    · rwa [hother x hxc] at hx
  · have hxc : x ≠ current.id := by
      rintro rfl
      rw [hself, hp] at hx
      cases hx
    rw [hother x hxc] at hx
    refine ⟨hx, ?_⟩
    by_cases hpc : p = current.id
    · rw [hpc, hself]
      exact Option.some_ne_none _
    · rw [hother p hpc]
      obtain ⟨r, hr, hrp⟩ := Database.parents_eq_some.mp hx
      obtain ⟨q, hq, hqp, -⟩ := hc.contents_parent_fk r (Database.mem_of_content hr) p hrp
      exact Database.parents_ne_none.mpr ⟨q, hqp ▸ Database.content_of_mem hc hq⟩

end Superseded

section Removed
variable {db : Database} {id j : Uuid}

/-- Detaching a row twice is detaching it once. -/
theorem detachEach_eq (children : List Uuid) : db.detachEach children =
    { db with
      contents := db.contents.map fun r =>
        if r.id ∈ children then r.put r.detached else r } := by
  induction children generalizing db with
  | nil => simp [Database.detachEach]
  | cons child rest ih =>
    rw [Database.detachEach, List.foldl_cons]
    refine (@ih (db.setContent child ContentRow.detached)).trans ?_
    simp only [Database.setContent, List.map_map]
    congr 1
    refine List.map_congr_left fun r _ => ?_
    by_cases hc : r.id = child
    · by_cases hr : child ∈ rest
      · simp [hc, hr, ContentRow.put, ContentRow.detached]
      · simp [hc, hr]
    · simp [hc]

theorem content_detachEach {children : List Uuid} :
    (db.detachEach children).content j =
      (db.content j).map fun r => if r.id ∈ children then r.put r.detached else r := by
  rw [detachEach_eq]
  exact Rows.find_map fun r => by split <;> rfl

/-- Detaching the children of a document one by one detaches exactly its children. -/
theorem detachEach_children {children : List Uuid}
    (h : ∀ r ∈ db.contents, r.id ∈ children ↔ r.parentId = some id) :
    db.detachEach children = db.childrenDetached id := by
  rw [detachEach_eq, Database.childrenDetached]
  congr 1
  refine List.map_congr_left fun r hr => ?_
  simp only [h r hr]

theorem content_childrenDetached :
    (db.childrenDetached id).content j =
      (db.content j).map fun r => if r.parentId = some id then r.put r.detached else r :=
  Rows.find_map fun r => by split <;> rfl

theorem content_withoutDocument :
    (db.withoutDocument id).content j = if j = id then none else
      (db.content j).map fun r => if r.parentId = some id then r.put r.detached else r := by
  rw [Database.withoutDocument, Database.content_deleteContent, content_childrenDetached]

theorem content_removed {current : ContentRow} :
    (db.removed current).content j = (db.withoutDocument current.id).content j := by
  rw [Database.removed]
  split
  · rfl
  · rfl

theorem parents_removed {current : ContentRow} :
    (db.removed current).parents j = if j = current.id then none else
      (db.parents j).map fun p => if p = some current.id then none else p := by
  rw [Database.parents, Database.parents, content_removed, content_withoutDocument]
  split
  · rfl
  · rw [Option.map_map, Option.map_map]
    congr 1
    funext r
    by_cases hr : r.parentId = some current.id
    · simp [hr, ContentRow.put, ContentRow.detached]
    · simp [hr]

/-- A deletion only cuts documents loose. -/
theorem loosens_removed (current : ContentRow) (hc : db.Constraints) :
    Loosens db.parents (db.removed current).parents := by
  refine ⟨fun x hx => ?_, fun x p hx => ?_⟩
  · rw [parents_removed] at hx
    split at hx
    · exact absurd rfl hx
    · intro hnone
      rw [hnone] at hx
      exact hx rfl
  · rw [parents_removed] at hx
    split at hx
    · cases hx
    · obtain ⟨q, hq, hqp⟩ := Option.map_eq_some_iff.mp hx
      split at hqp
      · cases hqp
      · rename_i hne
        subst hqp
        refine ⟨hq, ?_⟩
        have hpne : p ≠ current.id := fun heq => hne (heq ▸ rfl)
        obtain ⟨r, hr, hrp⟩ := Database.parents_eq_some.mp hq
        obtain ⟨q, hq, hqp, -⟩ := hc.contents_parent_fk r (Database.mem_of_content hr) p hrp
        have hpres : db.content p = some q := hqp ▸ Database.content_of_mem hc hq
        rw [parents_removed, if_neg hpne, Database.parents, hpres]
        exact Option.some_ne_none _

theorem always_removed {current : ContentRow} : Always db (db.removed current) := by
  refine ⟨fun i r hr => ?_, fun i hi => ?_⟩
  · by_cases hic : i = current.id
    · right
      subst hic
      rw [Database.removed]
      split
      · exact List.mem_cons_self
      · exact List.mem_cons_self
    · left
      refine ⟨_, by rw [content_removed, content_withoutDocument, if_neg hic, hr,
        Option.map_some], ?_⟩
      split
      · exact .put r _
      · exact .refl r
  · rw [Database.removed]
    split
    · exact List.mem_cons_of_mem _ hi
    · exact List.mem_cons_of_mem _ hi

end Removed

section Created
variable {db : Database} {input : CreateContentInput} {fresh : Fresh} {j : Uuid}

theorem content_opened : (db.opened input fresh).content j = db.content j := by
  rw [Database.opened]
  split
  · rfl
  · rfl

theorem content_created : (db.created input fresh).content j =
    if fresh.id = j then some (input.row fresh (input.groupId fresh)) else db.content j := by
  refine (@Database.content_insertContent (db.opened input fresh) j _).trans ?_
  rw [content_opened]
  rfl

theorem content_created_of_ne (h : j ≠ fresh.id) :
    (db.created input fresh).content j = db.content j := by
  rw [content_created, if_neg h.symm]

theorem parents_created (db : Database) (input : CreateContentInput) (fresh : Fresh) :
    (db.created input fresh).parents fresh.id = some (input.state.parentId.map UuidText.uuid) ∧
      ∀ x, x ≠ fresh.id → (db.created input fresh).parents x = db.parents x := by
  refine ⟨?_, fun x hx => ?_⟩
  · rw [Database.parents, content_created, if_pos rfl]
    rfl
  · rw [Database.parents, Database.parents, content_created_of_ne hx]

theorem revisionsOf_created : (db.created input fresh).revisionsOf j = db.revisionsOf j := by
  rw [Database.created, Database.opened]
  split
  · rfl
  · rfl

theorem mediaOf_created_of_ne (h : j ≠ fresh.id) :
    (db.created input fresh).mediaOf j = db.mediaOf j := by
  refine (Database.mediaOf_syncMedia_of_ne h (by simp) ?_).trans ?_
  · intro m hm
    obtain ⟨r, -, rfl⟩ := List.mem_map.mp hm
    rfl
  · rw [Database.opened]
    split
    · rfl
    · rfl

theorem retired_created : (db.created input fresh).retired = db.retired := by
  rw [Database.created, Database.opened]
  split
  · rfl
  · rfl

theorem group_created_of_ne (h : j ≠ input.groupId fresh) :
    (db.created input fresh).group j = db.group j := by
  rw [CreateContentInput.groupId] at h
  rw [Database.created, Database.opened]
  split
  · rename_i hjoin
    rw [hjoin] at h
    exact (Rows.find_cons _ db.groups j).trans (if_neg (Ne.symm h))
  · rfl

theorem always_created (hnew : db.content fresh.id = none) :
    Always db (db.created input fresh) where
  kept i r hr := by
    refine .inl ⟨r, ?_, .refl r⟩
    rw [content_created_of_ne, hr]
    rintro rfl
    rw [hnew] at hr
    cases hr
  retired i hi := by rwa [retired_created]

end Created

/-! ## Postconditions -/

/-- What a committed call found, answered and left. -/
def Post : Call → List ContentRow → Database → Database → Prop
  | .createContent input fresh, answer, found, left =>
    answer = [input.row fresh (input.groupId fresh)] ∧ found.content fresh.id = none ∧
      (input.join = none → found.group fresh.groupId = none) ∧ left = found.created input fresh
  | .updateContent type id patch options stamps, answer, found, left =>
    (answer = [] ∧ left = found) ∨
      ∃ current next, found.content id = some current ∧
        nextState type current patch options = .ok next ∧
        answer = [current.put (next.write current stamps)] ∧
        left = found.updated type current next stamps
  | .deleteContent id authorize _, answer, found, left =>
    (answer = [] ∧ left = found) ∨
      ∃ current, found.content id = some current ∧
        (∀ decide ∈ authorize, decide current = true) ∧ answer = [current] ∧
        left = found.removed current
  | .publishDueContent now stamps, answer, found, left =>
    ∃ claimed : List ContentRow, (claimed.map (·.id)).Nodup ∧
      (∀ r ∈ claimed, found.content r.id = some r ∧ isDue now r = true) ∧
      answer = claimed.map (fun r => r.put (r.publication stamps)) ∧
      left = claimed.foldl (·.published stamps) found

/-! ## The order of the locks -/

/-- The documents `climb` would lock from here. -/
def ParentCheck.route (check : ParentCheck) (db : Database) : Nat → Option UuidText → List Uuid
  | _, none => []
  | 0, some _ => []
  | left + 1, some currentId =>
    if check.childId.map Uuid.text = some currentId then []
    else currentId.uuid :: check.route db left
      (((db.content currentId.uuid).bind (·.parentId)).map Uuid.text)

/-- The documents a check of a parent would lock. -/
def ParentCheck.ancestors (check : ParentCheck) (db : Database) : List Uuid :=
  check.route db (MAX_HIERARCHY_DEPTH + 1) (some check.parentId)

/-- The rows a call would lock, in order, with nothing else under way. -/
def lockOrder (db : Database) : Call → List RowKey
  | .createContent input _ =>
    (input.join.map fun join => RowKey.group join.translationGroupId).toList ++
      (input.state.parentId.toList.flatMap fun parentId =>
        (ParentCheck.ancestors ⟨none, parentId, input.type.name, input.locale⟩ db).map .doc)
  | .updateContent type id patch options _ =>
    match db.content id with
    | none => []
    | some current =>
      match nextState type current patch options with
      | .error _ => [.doc id]
      | .ok next =>
        .doc id :: ((moves current next).toList.flatMap fun parentId =>
          (ParentCheck.ancestors ⟨some current.id, parentId, current.type, current.locale⟩
            db).map .doc)
  | .deleteContent id authorize scan =>
    match db.content id with
    | none => []
    | some current =>
      .group current.translationGroupId :: .doc id ::
        if authorize.any fun authorize => !authorize current then []
        else (scan.order (db.childrenOf id)).map .doc
  | .publishDueContent now _ => (db.due now).map .doc

/-! ## The discipline -/

/-- The invariant of the committed states. -/
structure ContentsInv (db : Database) : Prop where
  constraints : db.Constraints
  tree : Bounded db.parents MAX_HIERARCHY_DEPTH

/-- What the lock of a row promises, once the row is there to be locked. -/
def frame : RowKey → Database → Database → Prop
  | .doc id, db, db' => (∃ r, db.content id = some r) → FrameDoc id db db'
  | .group id, db, db' => (∃ g, db.group id = some g) → FrameGroup id db db'

theorem frame_trans {k : RowKey} {a b c : Database} (h : frame k a b) (h' : frame k b c) :
    frame k a c := by
  cases k with
  | doc id =>
    intro hp
    have h1 := h hp
    exact h1.trans (h' (by rwa [h1.content]))
  | group id =>
    intro hp
    have h1 := h hp
    exact h1.trans (h' (by rwa [h1.group]))

theorem frame_refl (k : RowKey) (db : Database) : frame k db db := by
  cases k with
  | doc id => exact fun _ => .refl id db
  | group id => exact fun _ => ⟨rfl, fun _ => Iff.rfl⟩

/-- What the four operations promise each other. -/
def contentsDiscipline (before : RowKey → RowKey → Prop) :
    Discipline Database RowKey Call (List ContentRow) where
  inv := ContentsInv
  always := Always
  frame := frame
  side call db := (lockOrder db call).Pairwise fun a b => a = b ∨ before a b
  before := before
  post := Post
  always_refl := Always.refl
  always_trans _ _ h h' := h.trans h'
  frame_refl := frame_refl
  frame_trans := frame_trans

end PressLabz
