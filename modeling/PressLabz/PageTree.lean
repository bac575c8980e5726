import PressLabz.BuiltinTypes
import PressLabz.ContentSweeps

/-! # The page tree

`resolveAncestry` of `packages/db/src/repositories/public-contents.ts`, and the
invariant it counts on.  In every committed state of every run, following
`parentId` from a document ends at a root without coming back to a document,
within `MAX_HIERARCHY_DEPTH` documents of one type and locale (`page_tree`).
-/
namespace PressLabz
open Forest RowLocks

structure Ancestry where
  slugs : List String
  complete : Bool
  deriving DecidableEq

/-- The rows of the recursive query, the document first; `left` more levels may
be looked at. -/
def Database.ancestryRows (db : Database) (type locale : String) :
    Nat → Option Uuid → List ContentRow
  | _, none => []
  | 0, some _ => []
  | left + 1, some id =>
    match (db.content id).filter fun r => r.type = type && r.locale = locale with
    | none => []
    | some r => r :: db.ancestryRows type locale left r.parentId

/-- The slug path of a document, root first.  It is complete when the topmost row
is a root. -/
def Database.resolveAncestry (db : Database) (id : Uuid) (type locale : String) :
    Option Ancestry :=
  match (db.ancestryRows type locale MAX_HIERARCHY_DEPTH (some id)).reverse with
  | [] => none
  | topmost :: rest => some ⟨(topmost :: rest).map (·.slug), topmost.parentId.isNone⟩

/-- A document in its place: the path up to a root, of documents of its own type
and locale. -/
structure WellPlaced (db : Database) (r : ContentRow) (l : List Uuid) : Prop where
  path : Path db.parents r.id l
  /-- Following the parents never revisits a document. -/
  nodup : l.Nodup
  depth : l.length ≤ MAX_HIERARCHY_DEPTH
  kin : ∀ x ∈ l, ∃ q, db.content x = some q ∧ q.type = r.type ∧ q.locale = r.locale
  ancestry : ∃ a, db.resolveAncestry r.id r.type r.locale = some a ∧ a.complete = true ∧
    a.slugs.length = l.length

variable {db : Database} {docId : Uuid} {l : List Uuid} {r : ContentRow}

/-- The foreign key keeps the type and the locale along a path. -/
theorem path_kin (hc : db.Constraints) (hp : Path db.parents docId l)
    (hr : db.content docId = some r) :
    ∀ x ∈ l, ∃ q, db.content x = some q ∧ q.type = r.type ∧ q.locale = r.locale := by
  induction hp generalizing r with
  | root _ =>
    intro x hx
    obtain rfl := List.mem_singleton.mp hx
    exact ⟨r, hr, rfl, rfl⟩
  | @step docId p l hup _ ih =>
    intro x hx
    rcases List.mem_cons.mp hx with rfl | hx
    · exact ⟨r, hr, rfl, rfl⟩
    · obtain ⟨r', hr', hp⟩ := Database.parents_eq_some.mp hup
      obtain rfl := Option.some.inj (hr.symm.trans hr')
      obtain ⟨q, hq, rfl, htype, hlocale⟩ :=
        hc.contents_parent_fk r (Database.mem_of_content hr) p hp
      obtain ⟨q', hq', htype', hlocale'⟩ := ih (Database.content_of_mem hc hq) x hx
      exact ⟨q', hq', htype'.trans htype, hlocale'.trans hlocale⟩

theorem ancestryRows_succ {type locale : String} {left : Nat} (hr : db.content docId = some r)
    (htype : r.type = type) (hlocale : r.locale = locale) :
    db.ancestryRows type locale (left + 1) (some docId) =
      r :: db.ancestryRows type locale left r.parentId := by
  rw [Database.ancestryRows, hr, Option.filter_some, if_pos (by simp [htype, hlocale])]

/-- The query walks a path that fits, from the document to the root. -/
theorem ancestryRows_path {type locale : String} (hp : Path db.parents docId l)
    (hkin : ∀ x ∈ l, ∃ q, db.content x = some q ∧ q.type = type ∧ q.locale = locale)
    {left : Nat} (hfit : l.length ≤ left) :
    (db.ancestryRows type locale left (some docId)).map (·.id) = l ∧
      ∃ init top, db.ancestryRows type locale left (some docId) = init ++ [top] ∧
        top.parentId = none := by
  induction hp generalizing left with
  | @root docId hup =>
    obtain ⟨q, hq, htype, hlocale⟩ := hkin docId List.mem_cons_self
    obtain ⟨q', hq', hnone⟩ := Database.parents_eq_some.mp hup
    obtain rfl := Option.some.inj (hq.symm.trans hq')
    obtain ⟨n, rfl⟩ : ∃ n, left = n + 1 := ⟨left - 1, by simp at hfit; omega⟩
    rw [ancestryRows_succ hq htype hlocale, hnone, Database.ancestryRows]
    exact ⟨by simp [Database.id_of_content hq], [], q, rfl, hnone⟩
  | @step docId p l hup _ ih =>
    obtain ⟨q, hq, htype, hlocale⟩ := hkin docId List.mem_cons_self
    obtain ⟨q', hq', hparent⟩ := Database.parents_eq_some.mp hup
    obtain rfl := Option.some.inj (hq.symm.trans hq')
    obtain ⟨n, rfl⟩ : ∃ n, left = n + 1 := ⟨left - 1, by simp at hfit; omega⟩
    obtain ⟨hids, init, top, heq, hnone⟩ :=
      @ih (fun x hx => hkin x (List.mem_cons_of_mem _ hx)) n (by simp at hfit; omega)
    rw [ancestryRows_succ hq htype hlocale, hparent]
    exact ⟨by rw [List.map_cons, hids, Database.id_of_content hq], q :: init, top,
      by rw [heq, List.cons_append], hnone⟩

/-- Where the tree is bounded, every document is well placed. -/
theorem ContentsInv.wellPlaced (h : ContentsInv db) (hr : db.content docId = some r) :
    ∃ l, WellPlaced db r l := by
  obtain rfl : r.id = docId := Database.id_of_content hr
  obtain ⟨l, hp, hlen⟩ := h.tree r.id (Database.parents_ne_none.mpr ⟨r, hr⟩)
  have hkin := path_kin h.constraints hp hr
  obtain ⟨hids, init, top, heq, hnone⟩ := ancestryRows_path hp hkin hlen
  have hwalk : db.resolveAncestry r.id r.type r.locale =
      some ⟨(top :: init.reverse).map (·.slug), top.parentId.isNone⟩ := by
    rw [Database.resolveAncestry, heq, List.reverse_append, List.reverse_singleton]
    rfl
  refine ⟨l, hp, hp.nodup, hlen, hkin, _, hwalk, Option.isNone_iff_eq_none.mpr hnone, ?_⟩
  rw [← hids, heq]
  simp

/-- **The page tree.**  From an empty database, in every run, every document of
every committed state is well placed. -/
theorem page_tree {I : Type} [DecidableEq I] {«media» : List MediaRow} {m : ContentMachine I}
    (hrun : Run engine program (fun _ => True) (.start (Database.empty «media»)) m)
    {db : Database} (hdb : db ∈ m.states) {docId : Uuid} {r : ContentRow}
    (hr : db.content docId = some r) : ∃ l, WellPlaced db r l :=
  (run_states (empty_inv «media») hrun db hdb).wellPlaced hr

/-! ### Two pages -/

/-- A page of the site, in English, with nothing on it. -/
def emptyPage (slug : String) (parentId : Option Uuid) : ContentState where
  slug := slug
  title := slug
  excerpt := none
  status := .draft
  blocks := []
  «meta» := []
  publishedAt := none
  parentId := parentId.map Uuid.text

/-- The creation of a page that opens its own group. -/
def createPage (state : ContentState) (docId : Uuid) (author : Option Uuid) : Call :=
  .createContent ⟨pageType fun _ => false, "en", author, state, none⟩ ⟨docId, docId + 100, docId⟩

/-- A call from its beginning to its commit, with `n` statements in between. -/
def wholeCall {I : Type} (i : I) (call : Call) (n : Nat) : List (Action Call I) :=
  .begin_ i call :: List.replicate n (.advance i) ++ [.commit i]

/-- A page, and a page under it. -/
def pageUnderPage : List (Action Call Nat) :=
  wholeCall 0 (createPage (emptyPage "about" none) 1 none) 4 ++
    wholeCall 1 (createPage (emptyPage "team" (some 1)) 2 none) 5

theorem page_tree_two_pages : ∃ m : ContentMachine Nat,
    (Machine.start (Database.empty [])).steps engine program pageUnderPage = some m ∧
    ∃ r l, m.db.content 2 = some r ∧ WellPlaced m.db r l := by
  have heval : ((Machine.start (Database.empty []) : ContentMachine Nat).steps engine program
      pageUnderPage).any (fun m => (m.db.content 2).isSome) = true := by decide +kernel
  obtain ⟨m, hm, hrun, hrow⟩ := Run.of_eval heval
  obtain ⟨r, hr⟩ := Option.isSome_iff_exists.mp hrow
  obtain ⟨l, hl⟩ := page_tree hrun List.mem_cons_self hr
  exact ⟨m, hm, r, l, hr, hl⟩

end PressLabz
