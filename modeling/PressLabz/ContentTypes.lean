import Mathlib.Data.List.Sort

/-! # Content types and who may do what

`packages/core`: capabilities, the ownership rule (`access.ts`), the statuses
and the authorization questions of `content-types.ts`, and the media a document
names.  `packages/blocks`: the block vocabulary, as data.

A uuid that arrives from a client is a text, and the same uuid has several; the
database prints one of them.  `UuidText` keeps the uuid and its spelling, so
that a comparison of texts and a comparison of uuids are different questions.
-/
namespace PressLabz

/-- A uuid, in the order the database compares them. -/
abbrev Uuid := Nat

/-- A text that spells a uuid.  Spelling 0 is the one the database prints. -/
structure UuidText where
  uuid : Uuid
  spelling : Nat := 0
  deriving DecidableEq

/-- A uuid as the database prints it. -/
def Uuid.text (id : Uuid) : UuidText := { uuid := id }

@[simp] theorem Uuid.text_uuid (id : Uuid) : (Uuid.text id).uuid = id := rfl

theorem Uuid.text_inj {a b : Uuid} : Uuid.text a = Uuid.text b ↔ a = b :=
  ⟨fun h => congrArg UuidText.uuid h, fun h => h ▸ rfl⟩

/-! ## Capabilities -/

inductive Capability where
  | contentRead | contentCreate
  | contentUpdateOwn | contentUpdateAny
  | contentDeleteOwn | contentDeleteAny
  | contentPublish
  | mediaRead | mediaUpload | mediaUpdateOwn | mediaUpdateAny | mediaDeleteAny
  | termsManage | usersRead | usersManage | settingsManage | pluginsManage
  deriving DecidableEq

/-- Who asks: `id` is none for an anonymous request, which owns nothing. -/
structure Actor where
  capabilities : List Capability
  id : Option Uuid

/-- What an operation costs.  `own` is absent when authorship is irrelevant. -/
structure OperationAccess where
  any : Capability
  own : Option Capability := none

/-- Whether the actor may perform an operation on a row owned by `ownerId`; a
row whose owner is gone, and no row at all, is owned by nobody. -/
def allows (access : OperationAccess) (actor : Actor) (ownerId : Option Uuid) : Bool :=
  if access.any ∈ actor.capabilities then true
  else
    match access.own with
    | none => false
    | some own =>
      if own ∈ actor.capabilities then actor.id.isSome && decide (actor.id = ownerId) else false

/-! ## Statuses and operations -/

inductive ContentStatus where
  | draft | scheduled | published | archived | trash
  deriving DecidableEq

/-- `CONTENT_STATUSES`. -/
def contentStatuses : List ContentStatus := [.draft, .scheduled, .published, .archived, .trash]

/-- `PUBLISHABLE_STATUSES.includes`. -/
def isPublishable (status : ContentStatus) : Bool :=
  status ∈ [ContentStatus.published, .scheduled]

/-- Statuses a reader without editing rights may ever be served. -/
def publicContentStatuses : List ContentStatus := [.published]

inductive ContentOperation where
  | read | create | update | delete | publish
  deriving DecidableEq

/-- `DEFAULT_ACCESS`. -/
def defaultAccess : ContentOperation → OperationAccess
  | .read => { any := .contentRead }
  | .create => { any := .contentCreate }
  | .update => { any := .contentUpdateAny, own := some .contentUpdateOwn }
  | .delete => { any := .contentDeleteAny, own := some .contentDeleteOwn }
  | .publish => { any := .contentPublish }

/-! ## Documents -/

/-- A JSON value.  A string that spells a uuid is kept apart from the others. -/
inductive Json where
  | null
  | bool (b : Bool)
  | number (n : Int)
  | string (s : String)
  | uuid (text : UuidText)
  | array (items : List Json)
  | object (fields : List (String × Json))

/-- `Record<string, unknown>`. -/
abbrev Meta := List (String × Json)

/-- `object[key] = value`. -/
def assign {α : Type} (object : List (String × α)) (key : String) (value : α) :
    List (String × α) :=
  if object.any (·.1 = key) then object.map fun e => if e.1 = key then (key, value) else e
  else object ++ [(key, value)]

inductive Mark where
  | bold | italic | strike | code
  | link (href : String) (newTab : Option Bool)
  deriving DecidableEq

structure InlineNode where
  text : String
  marks : Option (List Mark)
  deriving DecidableEq

abbrev InlineContent := List InlineNode

/-- A block of a document, every variant with its own id. -/
inductive Block where
  | paragraph (id : UuidText) (content : InlineContent)
  | heading (id : UuidText) (level : Nat) (content : InlineContent)
  | quote (id : UuidText) (content : InlineContent) (attribution : Option String)
  | list (id : UuidText) (ordered : Bool) (items : List InlineContent)
  | code (id : UuidText) (language : Option String) (code : String)
  | image (id : UuidText) (mediaId : UuidText) (caption : Option InlineContent)
  | divider (id : UuidText)
  deriving DecidableEq

abbrev Blocks := List Block

/-- A field of a patch that a null clears: absent, null, or a value. -/
inductive Nullish (α : Type) where
  | undefined
  | null
  | value (a : α)
  deriving DecidableEq

/-- `x ?? undefined`. -/
def Nullish.toOption {α : Type} : Nullish α → Option α
  | .value a => some a
  | _ => none

/-- A column as a field of a patch, the other way around from `x ?? undefined`. -/
def Nullish.ofColumn {α : Type} : Option α → Nullish α
  | some a => .value a
  | none => .undefined

/-- The columns a caller may set.  `publishedAt` is in milliseconds. -/
structure ContentState where
  slug : String
  title : String
  excerpt : Option String
  status : ContentStatus
  blocks : Blocks
  «meta» : Meta
  publishedAt : Option Nat
  parentId : Option UuidText

/-- A stored row with a patch over it, before the type's rules have seen it: a
null that clears a field is still there. -/
structure MergedState where
  slug : String
  title : String
  excerpt : Nullish String
  status : ContentStatus
  blocks : Blocks
  «meta» : Meta
  publishedAt : Nullish Nat
  parentId : Nullish UuidText

/-! ## Media references -/

inductive MediaSource where
  | block | «meta»
  deriving DecidableEq

/-- Where a reference was found: a block, or a key of the metadata. -/
inductive MediaPlace where
  | block (id : UuidText)
  | key (name : String)
  deriving DecidableEq

structure ContentMediaReference where
  mediaId : UuidText
  source : MediaSource
  at_ : MediaPlace
  deriving DecidableEq

/-- `BLOCK_MEDIA`: only an image names an asset. -/
def Block.mediaReferences : Block → List ContentMediaReference
  | .image id mediaId _ => [⟨mediaId, .block, .block id⟩]
  | _ => []

def mediaReferencesInBlocks (blocks : Blocks) : List ContentMediaReference :=
  blocks.flatMap Block.mediaReferences

/-! ## Types -/

/-- A declared type, as the repository and the routes hold it.  `mediaIn` names
the media of the metadata under their keys; `stateSchema` parses a merge into a
state of the type, or refuses it. -/
structure AnyContentType where
  name : String
  hierarchical : Bool
  basePath : String
  access : ContentOperation → OperationAccess
  mediaIn : Meta → List (UuidText × String)
  stateSchema : MergedState → Option ContentState

/-- The first reference of each text and source, in the order of the map. -/
def firstOfEach : List ContentMediaReference → List ContentMediaReference
  | [] => []
  | r :: rest =>
    r :: (firstOfEach rest).filter fun x => ¬ (x.mediaId = r.mediaId ∧ x.source = r.source)

/-- The order of `localeCompare`, on the uuid first. -/
def ContentMediaReference.le (a b : ContentMediaReference) : Bool :=
  if a.mediaId.uuid ≠ b.mediaId.uuid then decide (a.mediaId.uuid < b.mediaId.uuid)
  else if a.mediaId.spelling ≠ b.mediaId.spelling then
    decide (a.mediaId.spelling < b.mediaId.spelling)
  else a.source = .block ∨ b.source = .meta

/-- Every asset a document names, once for each text and source, sorted. -/
def mediaReferencesOf (type : AnyContentType) (blocks : Blocks) («meta» : Meta) :
    List ContentMediaReference :=
  (firstOfEach (mediaReferencesInBlocks blocks ++
    (type.mediaIn «meta»).map fun (mediaId, key) => ⟨mediaId, .meta, .key key⟩)).insertionSort
    (ContentMediaReference.le · ·)

/-! ## Authorization -/

section Authorization
variable (type : AnyContentType)

/-- `authorId` is none when there is no row, as it is when the author is gone. -/
def canPerform (operation : ContentOperation) (actor : Actor) (authorId : Option Uuid) : Bool :=
  allows (type.access operation) actor authorId

/-- Whether an actor may read one document. -/
def canReadDocument (actor : Actor) (authorId : Option Uuid) (status : ContentStatus) : Bool :=
  if !canPerform type .read actor none then false
  else if status ∈ publicContentStatuses then true
  else canPerform type .update actor authorId

/-- Every operation a write must be authorized for; no current status means a
creation. -/
def operationsForWrite (currentStatus : Option ContentStatus) (nextStatus : ContentStatus) :
    List ContentOperation :=
  let base : ContentOperation := if currentStatus.isNone then .create else .update
  let touchesPublic := isPublishable nextStatus || currentStatus.any isPublishable
  if touchesPublic then [base, .publish] else [base]

def canWrite (currentStatus : Option ContentStatus) (nextStatus : ContentStatus) (actor : Actor)
    (authorId : Option Uuid) : Bool :=
  (operationsForWrite currentStatus nextStatus).all fun operation =>
    canPerform type operation actor authorId

/-- Whether this actor may attach a translation to a group: it could write some
member as that member stands.  Members are their authors and statuses. -/
def canJoinTranslationGroup (actor : Actor) (members : List (Option Uuid × ContentStatus)) :
    Bool :=
  if !canPerform type .create actor none then false
  else members.any fun (authorId, status) => canWrite type (some status) status actor authorId

def operationsForDelete (status : ContentStatus) : List ContentOperation :=
  if isPublishable status then [.delete, .publish] else [.delete]

def canDelete (status : ContentStatus) (actor : Actor) (authorId : Option Uuid) : Bool :=
  (operationsForDelete status).all fun operation => canPerform type operation actor authorId

/-- What an actor may do to one document: `statuses` are the ones it may be moved
to. -/
structure DocumentPermissions where
  update : Bool
  delete : Bool
  statuses : List ContentStatus
  deriving DecidableEq

def permissionsForDocument (actor : Actor) (authorId : Option Uuid) (status : ContentStatus) :
    DocumentPermissions where
  update := canWrite type (some status) status actor authorId
  delete := canDelete type status actor authorId
  statuses := contentStatuses.filter fun next => canWrite type (some status) next actor authorId

end Authorization
end PressLabz
