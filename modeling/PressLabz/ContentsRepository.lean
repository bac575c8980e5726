import PressLabz.Database

/-! # The content repository

`packages/db/src/repositories/contents.ts`: the four operations that write
documents, each one transaction over the rows of `Database`.  A statement of the
source is one of the transaction, and takes its row lock where the source takes
it: `for update`, and the update that detaches children.  `Fresh` and `Stamps`
are what the database and the clock put into the rows an operation writes, and
`Scan` is the order in which an update without one comes to its rows.

The walk up the ancestors is bounded by the guard of the source, which is the
recursion's measure here.
-/
namespace PressLabz
open RowLocks

/-- How deep a page tree may go. -/
def MAX_HIERARCHY_DEPTH : Nat := 8

inductive ContentConflictReason where
  | groupNotFound | groupTypeMismatch | translationExists | slugTaken
  | staleVersion | parentNotFound | parentMismatch | parentCycle | parentTooDeep
  deriving DecidableEq

inductive ContentForbiddenReason where
  | documentForbidden | groupForbidden
  deriving DecidableEq

/-- What an operation throws. -/
inductive ContentError where
  | conflict (reason : ContentConflictReason)
  | forbidden (reason : ContentForbiddenReason)
  /-- A `ZodError` of the type's `stateSchema`. -/
  | invalidState
  /-- `scheduled publication lost row … mid-transaction`. -/
  | lostRow
  deriving DecidableEq

/-- A transaction of the repository. -/
abbrev Transaction (α : Type) := Tx Database RowKey ContentError α

/-! ## Rows and states -/

/-- `toState`: a row carries null where the domain uses absence. -/
def ContentRow.toState (row : ContentRow) : MergedState where
  slug := row.slug
  title := row.title
  excerpt := .ofColumn row.excerpt
  status := row.status
  blocks := row.blocks
  «meta» := row.meta
  publishedAt := .ofColumn row.publishedAt
  parentId := .ofColumn (row.parentId.map Uuid.text)

def ContentState.toColumns (state : ContentState) : Columns where
  slug := state.slug
  title := state.title
  excerpt := state.excerpt
  status := state.status
  blocks := state.blocks
  «meta» := state.meta
  publishedAt := state.publishedAt
  parentId := state.parentId.map UuidText.uuid

/-- A patch: absent means "leave it alone". -/
structure Patch where
  slug : Option String := none
  title : Option String := none
  excerpt : Nullish String := .undefined
  status : Option ContentStatus := none
  blocks : Option Blocks := none
  «meta» : Option Meta := none
  publishedAt : Nullish Nat := .undefined
  parentId : Nullish UuidText := .undefined

/-- A clearable field of `{ ...state, ...definedEntries(patch) }`. -/
def Nullish.over {α : Type} (patch state : Nullish α) : Nullish α :=
  match patch with
  | .undefined => state
  | x => x

/-- `{ ...toState(current), ...definedEntries(patch) }`. -/
def Patch.over (patch : Patch) (state : MergedState) : MergedState where
  slug := patch.slug.getD state.slug
  title := patch.title.getD state.title
  excerpt := patch.excerpt.over state.excerpt
  status := patch.status.getD state.status
  blocks := patch.blocks.getD state.blocks
  «meta» := patch.meta.getD state.meta
  publishedAt := patch.publishedAt.over state.publishedAt
  parentId := patch.parentId.over state.parentId

/-! ## What the database and the clock supply -/

/-- The ids of a new document and of its group, and the transaction's `now()`. -/
structure Fresh where
  id : Uuid
  groupId : Uuid
  now : Nat

/-- The id of a new revision and the `new Date()` of an update, for each
document, and the transaction's `now()`. -/
structure Stamps where
  revisionId : Uuid → Uuid
  writtenAt : Uuid → Nat
  now : Nat

/-- The order in which a statement comes to the rows it changes. -/
structure Scan where
  order : List Uuid → List Uuid
  perm : ∀ ids, (order ids).Perm ids

/-- The scan that comes to the rows as they were found. -/
def Scan.asFound : Scan := ⟨id, fun _ => .refl _⟩

/-! ## References and history -/

/-- The `content_media` row of a reference. -/
def ContentMediaReference.row (contentId : Uuid) (reference : ContentMediaReference) :
    ContentMediaRow :=
  ⟨contentId, reference.mediaId.uuid, reference.source⟩

/-- The rows of a document that no reference names any more; the comparison is
of texts. -/
def goneRows (current : List ContentMediaRow) (references : List ContentMediaReference) :
    List ContentMediaRow :=
  current.filter fun row =>
    ¬ ∃ r ∈ references, r.mediaId = Uuid.text row.mediaId ∧ r.source = row.source

/-- The references that have no row yet. -/
def addedReferences (current : List ContentMediaRow) (references : List ContentMediaReference) :
    List ContentMediaReference :=
  references.filter fun r =>
    ¬ ∃ row ∈ current, r.mediaId = Uuid.text row.mediaId ∧ r.source = row.source

theorem goneRows_nil (references : List ContentMediaReference) : goneRows [] references = [] := rfl

theorem addedReferences_nil (references : List ContentMediaReference) :
    addedReferences [] references = references := by
  simp [addedReferences]

def syncMediaReferences (contentId : Uuid) (references : List ContentMediaReference) :
    Transaction Unit := do
  let current ← Tx.select (·.mediaOf contentId)
  Tx.modify (·.syncMedia (goneRows current references)
    ((addedReferences current references).map (·.row contentId)))

/-- The revision of a row that is about to become something else. -/
def ContentRow.revision (current : ContentRow) (stamps : Stamps) : ContentRevisionRow where
  toColumns := current.toColumns
  id := stamps.revisionId current.id
  contentId := current.id
  authorId := current.authorId
  version := current.version
  createdAt := stamps.now

def insertContentRevision (current : ContentRow) (stamps : Stamps) : Transaction Unit :=
  Tx.modify (·.insertRevision (current.revision stamps))

def pruneRevisions (contentId : Uuid) : Transaction Unit :=
  Tx.modify (·.pruneRevisions contentId)

/-! ## The parent -/

/-- One turn of the recursion of `subtreeHeight`: `frontier` is what was found
at `depth`, and `levels` more levels may be looked at. -/
def Database.deepest (db : Database) : Nat → List Uuid → Nat → Nat
  | 0, _, depth => depth
  | levels + 1, frontier, depth =>
    let next := frontier.flatMap db.childrenOf
    if next = [] then depth else db.deepest levels next (depth + 1)

/-- How many levels the document carries with it. -/
def Database.subtreeHeight (db : Database) (childId : Uuid) : Nat :=
  db.deepest MAX_HIERARCHY_DEPTH [childId] 1

structure ParentCheck where
  childId : Option Uuid
  parentId : UuidText
  type : String
  locale : String

/-- The `while` of `assertUsableParent`.  `left` is what is left of the guard,
`MAX_HIERARCHY_DEPTH + 1 - depth`. -/
def climb (check : ParentCheck) : Nat → Nat → Option UuidText → Transaction Nat
  | _, depth, none => pure depth
  | 0, _, some currentId =>
    if check.childId.map Uuid.text = some currentId then Tx.throw (.conflict .parentCycle)
    else Tx.throw (.conflict .parentTooDeep)
  | left + 1, depth, some currentId =>
    if check.childId.map Uuid.text = some currentId then Tx.throw (.conflict .parentCycle)
    else do
      match ← Tx.forUpdate (.doc currentId.uuid) (·.content currentId.uuid) with
      | none => Tx.throw (.conflict .parentNotFound)
      | some ancestor =>
        if depth = 0 ∧ (ancestor.type ≠ check.type ∨ ancestor.locale ≠ check.locale) then
          Tx.throw (.conflict .parentMismatch)
        else climb check left (depth + 1) (ancestor.parentId.map Uuid.text)

/-- A new document has no children and therefore a height of one. -/
def ParentCheck.height (check : ParentCheck) : Transaction Nat :=
  match check.childId with
  | none => pure 1
  | some childId => Tx.select (·.subtreeHeight childId)

/-- Refuses a parent that would make the tree something a tree cannot be. -/
def assertUsableParent (check : ParentCheck) : Transaction Unit := do
  let depth ← climb check (MAX_HIERARCHY_DEPTH + 1) 0 (some check.parentId)
  let height ← check.height
  if depth + height > MAX_HIERARCHY_DEPTH then Tx.throw (.conflict .parentTooDeep)
  else pure ()

/-! ## Creating -/

/-- A group to join, and the caller's decision about its members. -/
structure JoinGroup where
  translationGroupId : Uuid
  authorizeJoin : List ContentRow → Bool

structure CreateContentInput where
  type : AnyContentType
  locale : String
  authorId : Option Uuid
  state : ContentState
  join : Option JoinGroup

def openGroup (type : String) (fresh : Fresh) : Transaction Uuid := do
  Tx.modify (·.insertGroup ⟨fresh.groupId, type⟩)
  return fresh.groupId

def joinGroup (input : CreateContentInput) (join : JoinGroup) : Transaction Uuid := do
  match ← Tx.forUpdate (.group join.translationGroupId) (·.group join.translationGroupId) with
  | none => Tx.throw (.conflict .groupNotFound)
  | some group =>
    if group.type ≠ input.type.name then Tx.throw (.conflict .groupTypeMismatch)
    else
      let members ← Tx.select (·.membersOf join.translationGroupId)
      if ¬ join.authorizeJoin members then Tx.throw (.forbidden .groupForbidden)
      else if members.any (·.locale = input.locale) then
        Tx.throw (.conflict .translationExists)
      else pure join.translationGroupId

/-- The group of the new document. -/
def CreateContentInput.group (input : CreateContentInput) (fresh : Fresh) : Transaction Uuid :=
  match input.join with
  | none => openGroup input.type.name fresh
  | some join => joinGroup input join

/-- The row `createContent` inserts. -/
def CreateContentInput.row (input : CreateContentInput) (fresh : Fresh) (groupId : Uuid) :
    ContentRow where
  toColumns := input.state.toColumns
  id := fresh.id
  type := input.type.name
  locale := input.locale
  translationGroupId := groupId
  authorId := input.authorId
  version := 1
  createdAt := fresh.now
  updatedAt := fresh.now

/-- The check that `createContent` makes of the parent it was given. -/
def CreateContentInput.checkParent (input : CreateContentInput) : Transaction Unit :=
  match input.state.parentId with
  | some parentId => assertUsableParent ⟨none, parentId, input.type.name, input.locale⟩
  | none => pure ()

/-- Opens a translation group or joins one, then inserts the document. -/
def createContent (input : CreateContentInput) (fresh : Fresh) : Transaction ContentRow := do
  let groupId ← input.group fresh
  input.checkParent
  Tx.modify (·.insertContent (input.row fresh groupId))
  syncMediaReferences fresh.id (mediaReferencesOf input.type input.state.blocks input.state.meta)
  return input.row fresh groupId

/-! ## Updating -/

/-- `expectedVersion` is none for `'any'`. -/
structure UpdateContentOptions where
  expectedVersion : Option Nat
  derive : Option (ContentRow → MergedState → MergedState)
  authorize : Option (ContentRow → ContentState → Bool)

/-- The merge of the stored row and the patch, as the type's rules see it. -/
def mergeOf (current : ContentRow) (patch : Patch) (options : UpdateContentOptions) :
    MergedState :=
  let rawMerge := patch.over current.toState
  match options.derive with
  | none => rawMerge
  | some derive => derive current rawMerge

/-- The part of `updateContent` that decides: the state to write, or a refusal. -/
def nextState (type : AnyContentType) (current : ContentRow) (patch : Patch)
    (options : UpdateContentOptions) : Except ContentError ContentState :=
  if options.expectedVersion.any (· ≠ current.version) then
    .error (.conflict .staleVersion)
  else
    match type.stateSchema (mergeOf current patch options) with
    | none => .error .invalidState
    | some next =>
      if options.authorize.any fun authorize => !authorize current next then
        .error (.forbidden .documentForbidden)
      else .ok next

/-- A document moves where it gets another parent; the comparison is of texts. -/
def moves (current : ContentRow) (next : ContentState) : Option UuidText :=
  next.parentId.filter fun parentId => current.parentId.map Uuid.text ≠ some parentId

/-- The check that `updateContent` makes of a parent that is new. -/
def checkMove (current : ContentRow) (next : ContentState) : Transaction Unit :=
  match moves current next with
  | some parentId => assertUsableParent ⟨some current.id, parentId, current.type, current.locale⟩
  | none => pure ()

/-- What `updateContent` sets. -/
def ContentState.write (next : ContentState) (current : ContentRow) (stamps : Stamps) :
    RowWrite where
  columns := next.toColumns
  updatedAt := stamps.writtenAt current.id * 1000
  version := current.version + 1

/-- Reads, merges, validates and writes one state, all inside one transaction. -/
def updateContent (type : AnyContentType) (id : Uuid) (patch : Patch)
    (options : UpdateContentOptions) (stamps : Stamps) : Transaction (Option ContentRow) := do
  match ← Tx.forUpdate (.doc id) (·.content id) with
  | none => return none
  | some current =>
    match nextState type current patch options with
    | .error e => Tx.throw e
    | .ok next =>
      checkMove current next
      insertContentRevision current stamps
      pruneRevisions current.id
      Tx.modify (·.setContent id fun _ => next.write current stamps)
      let row ← Tx.select (·.content id)
      syncMediaReferences id (mediaReferencesOf type next.blocks next.meta)
      return row

/-! ## Deleting -/

/-- A child that becomes a root: nothing else of it is set. -/
def ContentRow.detached (row : ContentRow) : RowWrite where
  columns := { row.toColumns with parentId := none }
  updatedAt := row.updatedAt
  version := row.version

/-- `update contents set parent_id = null where parent_id = id`, over the rows it
found: each is waited for, and the condition asked of it again. -/
def detachChildren (id : Uuid) : List Uuid → Transaction Unit
  | [] => pure ()
  | child :: rest => do
    let row ← Tx.forUpdate (.doc child) (·.content child)
    if row.any (·.parentId = some id) then
      Tx.modify (·.setContent child ContentRow.detached)
      detachChildren id rest
    else detachChildren id rest

/-- Removes a document, and the group with it when it was the last member. -/
def deleteContent (id : Uuid) (authorize : Option (ContentRow → Bool)) (scan : Scan) :
    Transaction (Option ContentRow) := do
  match ← Tx.select fun db => (db.content id).map (·.translationGroupId) with
  | none => return none
  | some groupId =>
    let _ ← Tx.forUpdate (.group groupId) (·.group groupId)
    match ← Tx.forUpdate (.doc id) (·.content id) with
    | none => return none
    | some current =>
      if authorize.any fun authorize => !authorize current then
        Tx.throw (.forbidden .documentForbidden)
      else do
        let children ← Tx.select (·.childrenOf id)
        detachChildren id (scan.order children)
        Tx.modify (·.deleteContent id)
        let remaining ← Tx.select (·.membersOf groupId)
        if remaining.isEmpty then
          Tx.modify (·.deleteGroup groupId)
          return some current
        else return some current

/-! ## The scheduler's pass -/

/-- `status = 'scheduled' and published_at is not null and published_at <= now`. -/
def isDue (now : Nat) (row : ContentRow) : Bool :=
  row.status = .scheduled && row.publishedAt.any (· ≤ now)

/-- `order by published_at, id`. -/
def dueBefore (a b : ContentRow) : Bool :=
  if a.publishedAt ≠ b.publishedAt then decide (a.publishedAt.getD 0 < b.publishedAt.getD 0)
  else decide (a.id ≤ b.id)

/-- The documents that are due, in the order they are locked. -/
def Database.due (db : Database) (now : Nat) : List Uuid :=
  ((db.contents.filter (isDue now)).insertionSort (dueBefore · ·)).map (·.id)

/-- The rest of the `select … for update`: each row is waited for, and the
condition asked of it again. -/
def claim (now : Nat) : List Uuid → Transaction (List ContentRow)
  | [] => pure []
  | id :: rest => do
    let row ← Tx.forUpdate (.doc id) (·.content id)
    let claimed ← claim now rest
    return (row.filter (isDue now)).toList ++ claimed

/-- What a scheduled publication sets. -/
def ContentRow.publication (row : ContentRow) (stamps : Stamps) : RowWrite where
  columns := { row.toColumns with status := .published }
  updatedAt := stamps.writtenAt row.id * 1000
  version := row.version + 1

/-- The `for` over the claimed rows. -/
def publishEach (now : Nat) (stamps : Stamps) : List ContentRow → Transaction (List ContentRow)
  | [] => pure []
  | current :: rest =>
    if isDue now current then do
      insertContentRevision current stamps
      pruneRevisions current.id
      Tx.modify (·.setContent current.id fun _ => current.publication stamps)
      match ← Tx.select (·.content current.id) with
      | none => Tx.throw .lostRow
      | some row => do
        let published ← publishEach now stamps rest
        return row :: published
    else publishEach now stamps rest

/-- Publishes everything whose moment has come, and returns what it published. -/
def publishDueContent (now : Nat) (stamps : Stamps) : Transaction (List ContentRow) := do
  let due ← Tx.select (·.due now)
  let claimed ← claim now due
  publishEach now stamps claimed

/-! ## The four operations as one program -/

/-- A call of one of the writers, with everything it is given. -/
inductive Call where
  | createContent (input : CreateContentInput) (fresh : Fresh)
  | updateContent (type : AnyContentType) (id : Uuid) (patch : Patch)
      (options : UpdateContentOptions) (stamps : Stamps)
  | deleteContent (id : Uuid) (authorize : Option (ContentRow → Bool)) (scan : Scan)
  | publishDueContent (now : Nat) (stamps : Stamps)

/-- The transaction of a call, and the rows it returns: one, one or none, or as
many as were due. -/
def program : Call → Transaction (List ContentRow)
  | .createContent input fresh => do
    let row ← PressLabz.createContent input fresh
    return [row]
  | .updateContent type id patch options stamps => do
    let row ← PressLabz.updateContent type id patch options stamps
    return row.toList
  | .deleteContent id authorize scan => do
    let row ← PressLabz.deleteContent id authorize scan
    return row.toList
  | .publishDueContent now stamps => PressLabz.publishDueContent now stamps

/-- The API processes over one database, each call under its own name. -/
abbrev ContentMachine (I : Type) := Machine Database RowKey ContentError Call (List ContentRow) I

end PressLabz
