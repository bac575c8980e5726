import PressLabz.VersionHistory

/-! # The write routes

`apps/api/src/content/routes.ts`: what POST, PATCH, restore and DELETE make of a
request before they call the repository.  A handler refuses with an answer or
issues one call; the authorizers it passes along are asked inside the
transaction, of the locked row.  A body is what the type's schema made of it.

An actor who may not publish leaves everything public as it is, with one
exception: a deletion moves the children of the document to the root, whatever
their status (`no_public_change`).
-/
namespace PressLabz
open RowLocks

/-! ## Requests -/

/-- What `createSchema` made of a body. -/
structure CreateBody where
  locale : String
  translationGroupId : Option UuidText
  state : ContentState

/-- A signed-in request to one of the write routes.  None stands for what a
schema refused: a path parameter, a precondition or a body. -/
inductive ContentRequest where
  | post (type : String) (body : Option CreateBody)
  | patch (type : String) (id : Option Uuid) (expectedVersion : Option Nat)
      (fields : Option Patch)
  | restore (type : String) (ids : Option (Uuid × Uuid)) (expectedVersion : Option Nat)
  | delete (type : String) (id : Option Uuid)

/-- An answer that refuses. -/
structure Refusal where
  code : Nat
  error : String
  reason : Option String := none
  deriving DecidableEq

/-- The registry, and what one installation is configured to serve. -/
structure Installation where
  types : List AnyContentType
  servesLocale : String → Bool

/-- What a request gets from the clock and from the database: `now` is in
milliseconds. -/
structure Moment where
  now : Nat
  fresh : Fresh
  stamps : Stamps
  scan : Scan

def resolveType (installation : Installation) (name : String) : Except Refusal AnyContentType :=
  match installation.types.find? fun type => type.name = name with
  | none => .error ⟨404, "unknown_content_type", none⟩
  | some type => .ok type

/-! ## Publication dates -/

def stampPublication (state : ContentState) (now : Nat) : ContentState :=
  if state.status ≠ .published ∨ state.publishedAt ≠ none then state
  else { state with publishedAt := some now }

/-- `stampPublication`, of a merge, where a null is a value. -/
def MergedState.stampPublication (state : MergedState) (now : Nat) : MergedState :=
  if state.status ≠ .published ∨ state.publishedAt ≠ .undefined then state
  else { state with publishedAt := .value now }

/-! ## Handlers -/

section Handlers
variable (installation : Installation) (actor : Actor) (moment : Moment)

/-- The authorizer of PATCH and restore. -/
def mayWrite (type : AnyContentType) (current : ContentRow) (next : ContentState) : Bool :=
  current.type = type.name &&
    canWrite type (some current.status) next.status actor current.authorId

/-- The authorizer of DELETE. -/
def mayDelete (type : AnyContentType) (current : ContentRow) : Bool :=
  current.type = type.name && canDelete type current.status actor current.authorId

def mayEditCurrent (type : AnyContentType) (row : ContentRow) : Bool :=
  canWrite type (some row.status) row.status actor row.authorId

def handlePost (name : String) (body : Option CreateBody) : Except Refusal Call := do
  let type ← resolveType installation name
  match body with
  | none => .error ⟨400, "invalid_request", none⟩
  | some body =>
    if ¬ installation.servesLocale body.locale then
      .error ⟨400, "invalid_request", some "locale-not-served"⟩
    else if ¬ canWrite type none body.state.status actor none then .error ⟨403, "forbidden", none⟩
    else
      .ok (.createContent
        { type := type
          locale := body.locale
          authorId := actor.id
          state := stampPublication body.state moment.now
          join := body.translationGroupId.map fun groupId =>
            ⟨groupId.uuid, fun members =>
              canJoinTranslationGroup type actor (members.map fun m => (m.authorId, m.status))⟩ }
        moment.fresh)

def handlePatch (name : String) (id : Option Uuid) (expectedVersion : Option Nat)
    (fields : Option Patch) : Except Refusal Call := do
  let type ← resolveType installation name
  match id, expectedVersion, fields with
  | none, _, _ => .error ⟨400, "invalid_request", none⟩
  | some _, none, _ => .error ⟨400, "invalid_request", some "expected_version_required"⟩
  | some _, some _, none => .error ⟨400, "invalid_request", none⟩
  | some id, some version, some patch =>
    .ok (.updateContent type id patch
      { expectedVersion := some version
        derive := some fun current merged =>
          if current.status = .published then merged else merged.stampPublication moment.now
        authorize := some (mayWrite actor type) }
      moment.stamps)

/-- A column as a field of a patch: null is null. -/
def Nullish.ofNullable {α : Type} : Option α → Nullish α
  | some a => .value a
  | none => .null

def stateOfRevision (revision : ContentRevisionRow) : Patch where
  slug := some revision.slug
  title := some revision.title
  excerpt := .ofNullable revision.excerpt
  status := some revision.status
  blocks := some revision.blocks
  «meta» := some revision.meta
  publishedAt := .ofNullable revision.publishedAt
  parentId := .ofNullable (revision.parentId.map Uuid.text)

def Database.findRevision (db : Database) (id : Uuid) : Option ContentRevisionRow :=
  Rows.find ContentRevisionRow.id db.revisions id

def handleRestore (db : Database) (name : String) (ids : Option (Uuid × Uuid))
    (expectedVersion : Option Nat) : Except Refusal Call := do
  let type ← resolveType installation name
  match ids, expectedVersion with
  | none, _ => .error ⟨400, "invalid_request", none⟩
  | some _, none => .error ⟨400, "invalid_request", some "expected_version_required"⟩
  | some (id, revisionId), some version =>
    match (db.content id).filter fun row => row.type = type.name with
    | none => .error ⟨404, "not_found", none⟩
    | some row =>
      if ¬ mayEditCurrent actor type row then .error ⟨403, "forbidden", none⟩
      else
        match (db.findRevision revisionId).filter fun r => r.contentId = row.id with
        | none => .error ⟨404, "not_found", some "revision-not-found"⟩
        | some revision =>
          .ok (.updateContent type row.id (stateOfRevision revision)
            { expectedVersion := some version
              derive := none
              authorize := some (mayWrite actor type) }
            moment.stamps)

def handleDelete (name : String) (id : Option Uuid) : Except Refusal Call := do
  let type ← resolveType installation name
  match id with
  | none => .error ⟨400, "invalid_request", none⟩
  | some id => .ok (.deleteContent id (some (mayDelete actor type)) moment.scan)

/-- The call a request leads to.  `db` is the state its reads before the
transaction see. -/
def ContentRequest.handle (db : Database) : ContentRequest → Except Refusal Call
  | .post type body => handlePost installation actor moment type body
  | .patch type id expectedVersion fields =>
    handlePatch installation actor moment type id expectedVersion fields
  | .restore type ids expectedVersion =>
    handleRestore installation actor moment db type ids expectedVersion
  | .delete type id => handleDelete installation actor moment type id

end Handlers
/-! ## What a handler asks for -/

/-- A call as the write routes issue it: what was authorized before it, and what
will be asked inside it. -/
inductive RouteCall (installation : Installation) (actor : Actor) : Call → Prop
  | create (input : CreateContentInput) (fresh : Fresh) (htype : input.type ∈ installation.types)
      (allowed : canWrite input.type none input.state.status actor none = true) :
      RouteCall installation actor (.createContent input fresh)
  | update (type : AnyContentType) (id : Uuid) (patch : Patch) (options : UpdateContentOptions)
      (stamps : Stamps) (htype : type ∈ installation.types)
      (asks : options.authorize = some (mayWrite actor type)) :
      RouteCall installation actor (.updateContent type id patch options stamps)
  | delete (type : AnyContentType) (id : Uuid) (scan : Scan) (htype : type ∈ installation.types) :
      RouteCall installation actor (.deleteContent id (some (mayDelete actor type)) scan)

section Spec
variable {installation : Installation} {actor : Actor} {moment : Moment} {db : Database}
  {request : ContentRequest} {call : Call} {type : AnyContentType} {name : String}

/-- A handler that goes on has found its type in the registry. -/
theorem resolveType_bind {α : Type} {f : AnyContentType → Except Refusal α} {a : α}
    (h : (resolveType installation name >>= f) = .ok a) :
    ∃ type, type ∈ installation.types ∧ f type = .ok a := by
  rw [resolveType] at h
  split at h
  · cases h
  · rename_i type hfind
    exact ⟨type, List.mem_of_find?_eq_some hfind, h⟩

theorem stampPublication_status (state : ContentState) (now : Nat) :
    (stampPublication state now).status = state.status := by
  rw [stampPublication]
  split
  · rfl
  · rfl

/-- **Every route authorizes what it asks for.** -/
theorem ContentRequest.handle_call
    (h : request.handle installation actor moment db = .ok call) :
    RouteCall installation actor call := by
  cases request with
  | post name body =>
    rw [ContentRequest.handle, handlePost] at h
    obtain ⟨type, htype, h⟩ := resolveType_bind h
    split at h
    · cases h
    · split at h
      · cases h
      · split at h
        · cases h
        · rename_i hallowed
          cases h
          refine .create _ _ htype ?_
          -- the stamp leaves the status that was authorized
          rw [stampPublication_status]
          simpa using hallowed
  | patch name id expectedVersion fields =>
    rw [ContentRequest.handle, handlePatch] at h
    obtain ⟨type, htype, h⟩ := resolveType_bind h
    split at h
    · cases h
    · cases h
    · cases h
    · cases h
      exact .update _ _ _ _ _ htype rfl
  | restore name ids expectedVersion =>
    rw [ContentRequest.handle, handleRestore] at h
    obtain ⟨type, htype, h⟩ := resolveType_bind h
    split at h
    · cases h
    · cases h
    · split at h
      · cases h
      · split at h
        · cases h
        · split at h
          · cases h
          · cases h
            exact .update _ _ _ _ _ htype rfl
  | delete name id =>
    rw [ContentRequest.handle, handleDelete] at h
    obtain ⟨type, htype, h⟩ := resolveType_bind h
    split at h
    · cases h
    · cases h
      exact .delete _ _ _ htype

end Spec
/-! ## What the public sees -/

/-- What is kept where nobody has `content:publish`: nothing public changes or disappears,
and nothing becomes public. -/
structure PublicKept (s t : Database) : Prop where
  kept : ∀ j r, s.content j = some r → isPublishable r.status = true →
    ∃ r', t.content j = some r' ∧ r'.toColumns = r.toColumns
  entered : ∀ j r', t.content j = some r' → isPublishable r'.status = true →
    ∃ r, s.content j = some r ∧ isPublishable r.status = true

theorem PublicKept.refl (s : Database) : PublicKept s s :=
  ⟨fun _ r hr _ => ⟨r, hr, rfl⟩, fun _ r hr hp => ⟨r, hr, hp⟩⟩

theorem PublicKept.trans (s t u : Database) (h : PublicKept s t) (h' : PublicKept t u) :
    PublicKept s u where
  kept j r hr hp := by
    obtain ⟨r', hr', hcols⟩ := h.kept j r hr hp
    have hp' : isPublishable r'.status = true := by rwa [congrArg Columns.status hcols]
    obtain ⟨r'', hr'', hcols'⟩ := h'.kept j r' hr' hp'
    exact ⟨r'', hr'', hcols'.trans hcols⟩
  entered j r' hr' hp := by
    obtain ⟨r, hr, hp⟩ := h'.entered j r' hr' hp
    exact h.entered j r hr hp

/-- The call is no deletion of a document with a public child. -/
def keepsPublicChildren (db : Database) : Call → Bool
  | .deleteContent docId _ _ =>
    db.contents.all fun r => r.parentId ≠ some docId || !isPublishable r.status
  | _ => true

section NoPublish
variable {actor : Actor} {type : AnyContentType}
  (haccess : type.access .publish = { any := .contentPublish })
  (hcap : .contentPublish ∉ actor.capabilities)
include haccess hcap

theorem canPerform_publish (authorId : Option Uuid) :
    canPerform type .publish actor authorId = false := by
  rw [canPerform, haccess, allows, if_neg hcap]

/-- Without `content:publish` a write touches nothing public at either end. -/
theorem canWrite_public {current : Option ContentStatus} {next : ContentStatus}
    {authorId : Option Uuid} (h : canWrite type current next actor authorId = true) :
    isPublishable next = false ∧ ∀ status ∈ current, isPublishable status = false := by
  have hpublish := canPerform_publish haccess hcap authorId
  rw [canWrite, operationsForWrite] at h
  split at h
  · simp [hpublish] at h
  · rename_i hno
    simp only [Bool.or_eq_true, not_or, Bool.not_eq_true] at hno
    refine ⟨hno.1, fun status hs => ?_⟩
    have := hno.2
    rw [hs] at this
    exact this

theorem canDelete_public {status : ContentStatus} {authorId : Option Uuid}
    (h : canDelete type status actor authorId = true) : isPublishable status = false := by
  have hpublish := canPerform_publish haccess hcap authorId
  rw [canDelete, operationsForDelete] at h
  split at h
  · simp [hpublish] at h
  · rename_i hno
    exact Bool.not_eq_true _ ▸ hno

end NoPublish

/-- What an authorizer refuses is not written. -/
theorem nextState_authorized {type : AnyContentType} {current : ContentRow} {patch : Patch}
    {options : UpdateContentOptions} {next : ContentState}
    (h : nextState type current patch options = .ok next)
    {authorize : ContentRow → ContentState → Bool} (ha : options.authorize = some authorize) :
    authorize current next = true := by
  rw [nextState] at h
  split at h
  · cases h
  · split at h
    · cases h
    · split at h
      · cases h
      · rename_i hok
        cases h
        simpa [ha] using hok

section Commits
variable {db : Database} {current : ContentRow} {type : AnyContentType} {next : ContentState}
  {stamps : Stamps} {input : CreateContentInput} {fresh : Fresh}

theorem created_keeps_public (hnew : db.content fresh.id = none)
    (hstatus : isPublishable input.state.status = false) :
    PublicKept db (db.created input fresh) where
  kept j r hr _ := by
    have hj : j ≠ fresh.id := by
      rintro rfl
      rw [hnew] at hr
      cases hr
    exact ⟨r, (content_created_of_ne hj).trans hr, rfl⟩
  entered j r' hr' hp := by
    by_cases hj : j = fresh.id
    · rw [hj, content_created, if_pos rfl] at hr'
      obtain rfl := Option.some.inj hr'
      have hp : isPublishable input.state.status = true := hp
      rw [hstatus] at hp
      cases hp
    · rw [content_created_of_ne hj] at hr'
      exact ⟨r', hr', hp⟩

theorem updated_keeps_public (hcur : db.content current.id = some current)
    (hbefore : isPublishable current.status = false) (hafter : isPublishable next.status = false) :
    PublicKept db (db.updated type current next stamps) where
  kept j r hr hp := by
    have hj : j ≠ current.id := by
      rintro rfl
      obtain rfl := Option.some.inj (hcur.symm.trans hr)
      rw [hbefore] at hp
      cases hp
    exact ⟨r, (content_updated_of_ne hj).trans hr, rfl⟩
  entered j r' hr' hp := by
    by_cases hj : j = current.id
    · rw [hj, content_updated hcur] at hr'
      obtain rfl := Option.some.inj hr'
      have hp : isPublishable next.status = true := hp
      rw [hafter] at hp
      cases hp
    · rw [content_updated_of_ne hj] at hr'
      exact ⟨r', hr', hp⟩

theorem removed_keeps_public (hcur : db.content current.id = some current)
    (hstatus : isPublishable current.status = false)
    (hchildren : ∀ j r, db.content j = some r → r.parentId = some current.id →
      isPublishable r.status = false) : PublicKept db (db.removed current) where
  kept j r hr hp := by
    have hj : j ≠ current.id := by
      rintro rfl
      obtain rfl := Option.some.inj (hcur.symm.trans hr)
      rw [hstatus] at hp
      cases hp
    have hparent : r.parentId ≠ some current.id := by
      intro hparent
      rw [hchildren j r hr hparent] at hp
      cases hp
    refine ⟨r, ?_, rfl⟩
    rw [content_removed, content_withoutDocument, if_neg hj, hr, Option.map_some, if_neg hparent]
  entered j r' hr' hp := by
    rw [content_removed, content_withoutDocument] at hr'
    split at hr'
    · cases hr'
    · obtain ⟨r, hr, hput⟩ := Option.map_eq_some_iff.mp hr'
      refine ⟨r, hr, ?_⟩
      split at hput
      · subst hput
        exact hp
      · exact hput ▸ hp

end Commits

/-- **One commit of an actor who may not publish**, over a document with no public
children if it is a deletion. -/
theorem route_keeps_public {installation : Installation} {actor : Actor}
    (haccess : ∀ type ∈ installation.types, type.access .publish = { any := .contentPublish })
    (hcap : .contentPublish ∉ actor.capabilities)
    {call : Call} {answer : List ContentRow} {found left : Database}
    (hpost : Post call answer found left) (hcall : RouteCall installation actor call)
    (hchildren : keepsPublicChildren found call = true) : PublicKept found left := by
  cases hcall with
  | create input fresh htype allowed =>
    obtain ⟨-, hnew, -, rfl⟩ := hpost
    exact created_keeps_public hnew (canWrite_public (haccess _ htype) hcap allowed).1
  | update type docId patch options stamps htype asks =>
    rcases hpost with ⟨-, rfl⟩ | ⟨current, next, hcur, hnext, -, rfl⟩
    · exact .refl _
    · obtain rfl : current.id = docId := Database.id_of_content hcur
      have hmay := nextState_authorized hnext asks
      rw [mayWrite, Bool.and_eq_true] at hmay
      obtain ⟨hafter, hbefore⟩ := canWrite_public (haccess _ htype) hcap hmay.2
      exact updated_keeps_public hcur (hbefore _ rfl) hafter
  | delete type docId scan htype =>
    rcases hpost with ⟨-, rfl⟩ | ⟨current, hcur, hmay, -, rfl⟩
    · exact .refl _
    · obtain rfl : current.id = docId := Database.id_of_content hcur
      have hmay := hmay _ rfl
      rw [mayDelete, Bool.and_eq_true] at hmay
      refine removed_keeps_public hcur (canDelete_public (haccess _ htype) hcap hmay.2)
        fun j r hr hp => ?_
      have hall := List.all_eq_true.mp hchildren r (Database.mem_of_content hr)
      simpa [hp] using hall

/-- The calls of an actor's requests. -/
def Requested (installation : Installation) (actor : Actor) (call : Call) : Prop :=
  ∃ (request : ContentRequest) (moment : Moment) (db : Database),
    request.handle installation actor moment db = .ok call

/-- **No public change without `content:publish`.**  Once the commits are those of
the requests of an actor who may not publish, and no deletion among them is of a
document with a public child, everything public stays as it is. -/
theorem no_public_change {I : Type} [DecidableEq I] {«media» : List MediaRow}
    {m : ContentMachine I} (isSafeHref servesLocale : String → Bool) {actor : Actor}
    {recent earlier : List (Committed Database Call (List ContentRow))}
    (hcap : .contentPublish ∉ actor.capabilities)
    (hrun : Run engine program (fun _ => True) (.start (Database.empty «media»)) m)
    (hlog : m.log = recent ++ earlier)
    (hcalls : ∀ e ∈ recent,
      Requested ⟨builtinContentTypes isSafeHref, servesLocale⟩ actor e.call)
    (hchildren : ∀ e ∈ recent, keepsPublicChildren e.found e.call = true) :
    (m.db :: recent.map (·.found)).Pairwise fun later earlier => PublicKept earlier later := by
  have haccess : ∀ type ∈ builtinContentTypes isSafeHref,
      type.access .publish = { any := .contentPublish } := by
    simp [builtinContentTypes, postType, pageType, defineContentType, defaultAccess]
  obtain ⟨mid, hrecent, -⟩ := (hlog ▸ hrun.linked).split
  refine hrecent.pairwise PublicKept.trans fun e he => ?_
  obtain ⟨request, moment, db, hhandle⟩ := hcalls e he
  have hmeets := run_log (empty_inv «media») hrun e (hlog ▸ List.mem_append_left _ he)
  exact route_keeps_public haccess hcap hmeets.post (ContentRequest.handle_call hhandle)
    (hchildren e he)

/-! ### A contributor -/

/-- An installation with the built-in types, serving every locale. -/
def builtinSite : Installation := ⟨builtinContentTypes fun _ => false, fun _ => true⟩

/-- An actor who writes and deletes what is its own, and publishes nothing. -/
def contributor : Actor :=
  ⟨[.contentRead, .contentCreate, .contentUpdateOwn, .contentDeleteOwn], some 7⟩

/-- A request of the contributor; the one document it creates is 1. -/
def contributed (request : ContentRequest) : Except Refusal Call :=
  request.handle builtinSite contributor ⟨3, ⟨1, 101, 3⟩, ⟨fun _ => 500, fun _ => 3, 3⟩, .asFound⟩
    (Database.empty [])

/-- The call that a request of the contributor leads to. -/
def contributorCall (request : ContentRequest) : Call :=
  match contributed request with
  | .ok call => call
  | .error _ => .deleteContent 0 none .asFound

theorem contributorCall_requested {request : ContentRequest}
    (h : (contributed request).isOk = true) :
    Requested builtinSite contributor (contributorCall request) := by
  refine ⟨request, ⟨3, ⟨1, 101, 3⟩, ⟨fun _ => 500, fun _ => 3, 3⟩, .asFound⟩, Database.empty [], ?_⟩
  change contributed request = .ok (contributorCall request)
  rw [contributorCall]
  cases hc : contributed request with
  | ok call => rfl
  | error refusal =>
    rw [hc] at h
    cases h

/-- A draft, saved once and deleted. -/
def draftRequests : List ContentRequest :=
  [.post "page" (some ⟨"en", none, emptyPage "about" none⟩),
    .patch "page" (some 1) (some 1) (some { title := some "About us" }),
    .delete "page" (some 1)]

def draftLife : List (Action Call Nat) :=
  (draftRequests.zip [4, 7, 7]).flatMap fun (request, n) => wholeCall 0 (contributorCall request) n

theorem no_public_change_draft : ∃ m : ContentMachine Nat,
    (Machine.start (Database.empty [])).steps engine program draftLife = some m ∧
    (m.db :: m.log.map (·.found)).Pairwise fun later earlier => PublicKept earlier later := by
  have heval : ((Machine.start (Database.empty []) : ContentMachine Nat).steps engine program
      draftLife).any (fun m => m.log.all fun e => keepsPublicChildren e.found e.call) = true := by
    decide +kernel
  have hcalls : ((Machine.start (Database.empty []) : ContentMachine Nat).steps engine program
      draftLife).map (fun m => m.log.map (·.call)) =
      some (draftRequests.map contributorCall).reverse := rfl
  obtain ⟨m, hm, hrun, hno⟩ := Run.of_eval heval
  rw [hm] at hcalls
  have hrequested : ∀ e ∈ m.log, Requested builtinSite contributor e.call := by
    intro e he
    have hmem : e.call ∈ (draftRequests.map contributorCall).reverse :=
      Option.some.inj hcalls ▸ List.mem_map_of_mem he
    obtain ⟨request, hrequest, heq⟩ := List.mem_map.mp (List.mem_reverse.mp hmem)
    have hok : ∀ request ∈ draftRequests, (contributed request).isOk = true := by decide
    exact heq ▸ contributorCall_requested (hok request hrequest)
  exact ⟨m, hm, no_public_change (fun _ => false) (fun _ => true) (by decide) hrun
    (List.append_nil _).symm hrequested (List.all_eq_true.mp hno)⟩

/-- The contributor's page, a published page under it that somebody else wrote, and
the first one deleted by the contributor. -/
def publicChildMoved : List (Action Call Nat) :=
  wholeCall 0 (contributorCall (.post "page" (some ⟨"en", none, emptyPage "about" none⟩))) 4 ++
    wholeCall 1 (createPage { emptyPage "team" (some 1) with
      status := .published, publishedAt := some 0 } 2 (some 8)) 5 ++
    wholeCall 0 (contributorCall (.delete "page" (some 1))) 9

/-- **A published page moves** without `content:publish`, when its parent is deleted
by somebody who may delete that. -/
theorem public_child_moved : ∃ (m : ContentMachine Nat)
    (e : Committed Database Call (List ContentRow)) (rest : List _),
    (Machine.start (Database.empty [])).steps engine program publicChildMoved = some m ∧
    Run engine program (fun _ => True) (.start (Database.empty [])) m ∧ m.log = e :: rest ∧
    Requested builtinSite contributor e.call ∧
    .contentPublish ∉ contributor.capabilities ∧ ¬ PublicKept e.found e.left := by
  have heval : ((Machine.start (Database.empty []) : ContentMachine Nat).steps engine program
      publicChildMoved).any (fun m => m.log.head?.any fun e => (e.found.content 2).any fun r =>
        isPublishable r.status && (e.left.content 2).any fun r' => r'.parentId ≠ r.parentId)
      = true := by decide +kernel
  have hcalls : ((Machine.start (Database.empty []) : ContentMachine Nat).steps engine program
      publicChildMoved).map (fun m => m.log.head?.map (·.call)) =
      some (some (contributorCall (.delete "page" (some 1)))) := rfl
  obtain ⟨m, hm, hrun, hcheck⟩ := Run.of_eval heval
  rw [hm] at hcalls
  obtain ⟨e, rest, hlog⟩ : ∃ e rest, m.log = e :: rest := by
    cases hlog : m.log with
    | nil =>
      rw [hlog] at hcheck
      cases hcheck
    | cons e rest => exact ⟨e, rest, rfl⟩
  have hcall : e.call = contributorCall (.delete "page" (some 1)) := by
    simpa [hlog] using hcalls
  simp only [hlog, List.head?_cons, Option.any_some, Option.any_eq_true, Bool.and_eq_true,
    decide_eq_true_eq] at hcheck
  obtain ⟨r, hr, hpublic, r', hr', hparent⟩ := hcheck
  refine ⟨m, e, rest, hm, hrun, hlog, ?_, by decide, fun hkept => hparent ?_⟩
  · rw [hcall]
    exact contributorCall_requested (by decide)
  · obtain ⟨q, hq, hcols⟩ := hkept.kept 2 r hr hpublic
    obtain rfl := Option.some.inj (hq.symm.trans hr')
    exact congrArg Columns.parentId hcols

end PressLabz
