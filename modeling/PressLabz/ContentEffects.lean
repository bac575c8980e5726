import PressLabz.ContentsRepository

/-! # What the four operations do to the database

The changes an operation commits, as functions of the database, and what they
leave alone.  `FrameDoc` and `FrameGroup` are what the lock of a document and of
a translation group protect: the row itself, the history and the references that
hang on it, and that nothing new appears under it in the page tree.  Each
operation keeps the frame of every document but the ones it writes.
-/
namespace PressLabz
open Forest

/-! ## What a lock protects -/

/-- A document whose row is locked by somebody else. -/
structure FrameDoc (id : Uuid) (db db' : Database) : Prop where
  content : db'.content id = db.content id
  revisions : db'.revisionsOf id = db.revisionsOf id
  contentMedia : db'.mediaOf id = db.mediaOf id
  /-- Nothing new is under the document. -/
  under : ∀ d x, Under db'.parents id d x → Under db.parents id d x

/-- A group whose row is locked by somebody else keeps its members. -/
structure FrameGroup (id : Uuid) (db db' : Database) : Prop where
  group : db'.group id = db.group id
  members : ∀ j, (∃ r, db'.content j = some r ∧ r.translationGroupId = id) ↔
    ∃ r, db.content j = some r ∧ r.translationGroupId = id

theorem FrameDoc.refl (id : Uuid) (db : Database) : FrameDoc id db db :=
  ⟨rfl, rfl, rfl, fun _ _ h => h⟩

theorem FrameDoc.trans {id : Uuid} {a b c : Database} (h : FrameDoc id a b)
    (h' : FrameDoc id b c) : FrameDoc id a c :=
  ⟨h'.content.trans h.content, h'.revisions.trans h.revisions,
    h'.contentMedia.trans h.contentMedia, fun d x hx => h.under d x (h'.under d x hx)⟩

theorem FrameGroup.trans {id : Uuid} {a b c : Database} (h : FrameGroup id a b)
    (h' : FrameGroup id b c) : FrameGroup id a c :=
  ⟨h'.group.trans h.group, fun j => (h'.members j).trans (h.members j)⟩

/-- What never changes of a document. -/
structure SameDocument (r r' : ContentRow) : Prop where
  id : r'.id = r.id
  type : r'.type = r.type
  locale : r'.locale = r.locale
  group : r'.translationGroupId = r.translationGroupId
  author : r'.authorId = r.authorId
  createdAt : r'.createdAt = r.createdAt

theorem SameDocument.refl (r : ContentRow) : SameDocument r r := ⟨rfl, rfl, rfl, rfl, rfl, rfl⟩

theorem SameDocument.trans {a b c : ContentRow} (h : SameDocument a b) (h' : SameDocument b c) :
    SameDocument a c :=
  ⟨h'.id.trans h.id, h'.type.trans h.type, h'.locale.trans h.locale, h'.group.trans h.group,
    h'.author.trans h.author, h'.createdAt.trans h.createdAt⟩

theorem SameDocument.put (r : ContentRow) (w : RowWrite) : SameDocument r (r.put w) :=
  ⟨rfl, rfl, rfl, rfl, rfl, rfl⟩

/-- What no commit undoes: a document stays the document it is until it is
deleted, and a deleted id stays away. -/
structure Always (db db' : Database) : Prop where
  kept : ∀ id r, db.content id = some r →
    (∃ r', db'.content id = some r' ∧ SameDocument r r') ∨ id ∈ db'.retired
  retired : ∀ id ∈ db.retired, id ∈ db'.retired

theorem Always.refl (db : Database) : Always db db :=
  ⟨fun _ r h => .inl ⟨r, h, .refl r⟩, fun _ h => h⟩

theorem Always.trans {a b c : Database} (h : Always a b) (h' : Always b c) : Always a c where
  kept id r hr := by
    rcases h.kept id r hr with ⟨r', hr', hsame⟩ | hret
    · rcases h'.kept id r' hr' with ⟨r'', hr'', hsame'⟩ | hret
      · exact .inl ⟨r'', hr'', hsame.trans hsame'⟩
      · exact .inr hret
    · exact .inr (h'.retired id hret)
  retired id hid := h'.retired id (h.retired id hid)

/-- A document that is there after is the one that was there before. -/
theorem Always.same {db db' : Database} (h : Always db db') (hc : db'.Constraints) {id : Uuid}
    {r r' : ContentRow} (hr : db.content id = some r) (hr' : db'.content id = some r') :
    SameDocument r r' := by
  rcases h.kept id r hr with ⟨r'', hr'', hsame⟩ | hret
  · rw [hr'] at hr''
    exact Option.some.inj hr'' ▸ hsame
  · have hid := Database.id_of_content hr'
    exact absurd (hid ▸ hret) (hc.fresh r' (Database.mem_of_content hr'))

/-- An id that is new now was new before. -/
theorem Always.absent {db db' : Database} (h : Always db db') {id : Uuid}
    (hnone : db'.content id = none) (hret : id ∉ db'.retired) : db.content id = none := by
  cases hc : db.content id with
  | none => rfl
  | some r =>
    rcases h.kept id r hc with ⟨r', hr', -⟩ | hret'
    · rw [hnone] at hr'
      cases hr'
    · exact absurd hret' hret

/-! ## The statements and the history -/

namespace Database
variable {db : Database} {id j : Uuid}

theorem revisionsOf_insertRevision_of_ne {v : ContentRevisionRow} (h : v.contentId ≠ j) :
    (db.insertRevision v).revisionsOf j = db.revisionsOf j := by
  simp [revisionsOf, insertRevision, h]

theorem revisionsOf_insertRevision_self (v : ContentRevisionRow) :
    (db.insertRevision v).revisionsOf v.contentId = v :: db.revisionsOf v.contentId := by
  simp [revisionsOf, insertRevision]

theorem revisionsOf_pruneRevisions_of_ne (h : j ≠ id) :
    (db.pruneRevisions id).revisionsOf j = db.revisionsOf j := by
  simp only [revisionsOf, pruneRevisions, List.filter_filter]
  refine List.filter_congr fun v _ => ?_
  by_cases hv : v.contentId = j
  · simp [hv, h]
  · simp [hv]

/-- The history once it is pruned. -/
def pruned (revisions : List ContentRevisionRow) : List ContentRevisionRow :=
  revisions.filter fun v => v.id ∈ (keptRevisions revisions).map (·.id)

theorem revisionsOf_pruneRevisions_self :
    (db.pruneRevisions id).revisionsOf id = pruned (db.revisionsOf id) := by
  simp only [revisionsOf, pruneRevisions, List.filter_filter, pruned]
  refine List.filter_congr fun v _ => ?_
  by_cases hv : v.contentId = id
  · simp [hv]
  · simp [hv]

@[simp] theorem revisionsOf_setContent (w : ContentRow → RowWrite) :
    (db.setContent id w).revisionsOf j = db.revisionsOf j := rfl

theorem revisionsOf_deleteContent_of_ne (h : j ≠ id) :
    (db.deleteContent id).revisionsOf j = db.revisionsOf j := by
  simp only [revisionsOf, deleteContent, List.filter_filter]
  refine List.filter_congr fun v _ => ?_
  by_cases hv : v.contentId = j
  · simp [hv, h]
  · simp [hv]

theorem mediaOf_deleteContent_of_ne (h : j ≠ id) :
    (db.deleteContent id).mediaOf j = db.mediaOf j := by
  simp only [mediaOf, deleteContent, List.filter_filter]
  refine List.filter_congr fun v _ => ?_
  by_cases hv : v.contentId = j
  · simp [hv, h]
  · simp [hv]

/-- References of one document are no references of another. -/
theorem mediaOf_syncMedia_of_ne {gone added : List ContentMediaRow}
    (h : j ≠ id) (hg : ∀ m ∈ gone, m.contentId = id) (ha : ∀ m ∈ added, m.contentId = id) :
    (db.syncMedia gone added).mediaOf j = db.mediaOf j := by
  simp only [mediaOf, syncMedia, List.filter_append, List.filter_filter]
  have hnone : (added.reverse.filter fun m => decide (m.contentId = j)) = [] := by
    refine List.filter_eq_nil_iff.mpr fun m hm => ?_
    simp [ha m (List.mem_reverse.mp hm), Ne.symm h]
  rw [hnone, List.nil_append]
  refine List.filter_congr fun m _ => ?_
  by_cases hm : m.contentId = j
  · have hng : m ∉ gone := fun hmg => h (hm.symm.trans (hg m hmg))
    simp [hm, hng]
  · simp [hm]

theorem parents_eq_some {p : Option Uuid} :
    db.parents id = some p ↔ ∃ r, db.content id = some r ∧ r.parentId = p := by
  simp [parents]

theorem parents_ne_none : db.parents id ≠ none ↔ ∃ r, db.content id = some r := by
  simp [parents, Option.ne_none_iff_exists']

/-- Two databases with the same rows have the same tree. -/
theorem parents_congr {db' : Database} (h : db'.content = db.content) :
    db'.parents = db.parents := by
  funext i
  simp [parents, h]

theorem parents_setContent_self {w : ContentRow → RowWrite} {r : ContentRow}
    (h : db.content id = some r) :
    (db.setContent id w).parents id = some (w r).columns.parentId := by
  rw [parents, content_setContent_self w h]
  rfl

theorem parents_setContent_of_ne {w : ContentRow → RowWrite} (h : j ≠ id) :
    (db.setContent id w).parents j = db.parents j := by
  rw [parents, parents, content_setContent_of_ne w h]

/-- An update leaves every document the one it was. -/
theorem always_setContent (w : ContentRow → RowWrite) : Always db (db.setContent id w) where
  kept j r hr := by
    refine .inl ⟨_, by rw [content_setContent, hr, Option.map_some], ?_⟩
    split
    · exact .put r _
    · exact .refl r
  retired _ h := h

end Database
end PressLabz
