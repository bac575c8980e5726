import PressLabz.EditorSave
import PressLabz.Restore

/-! # The editor's screen

`apps/admin/src/routes/content-editor.tsx`, from the moment a document is opened to the
moment the screen is left: the draft, the flag that says it holds unsaved work, the one
write in flight, the answers that come late, and the dialog in front of a navigation.

The document is fetched into the cache of the queries, and may be fetched again at any
time; the draft is made of the first answer and then owned by the screen.  A save carries
the draft of the moment and the version the cache holds.

`screen_keeps` says what an author may rely on while somebody else writes to the same
documents: `m` is any run of the API, and the screen is answered out of its log.
-/
namespace PressLabz
namespace EditorSession
open RowLocks

/-- A draft is an object: `===` tells two of them apart by where they were made. -/
structure DraftObject where
  serial : Nat
  draft : Draft

/-- A save in flight, with the version its draft was composed of and the versions fetched
since, newest first. -/
structure Submission where
  submitted : DraftObject
  request : WriteRequest
  composed : Option Nat
  fetched : List Nat

inductive Saving where
  | idle
  | pending (submission : Submission)
  | saved
  | failed

inductive Restoring where
  | idle
  | pending (request : WriteRequest)
  | restored
  | failed

/-- How a screen was left: with nothing unsaved, when the save landed that it was put off
for, or by choosing to discard. -/
inductive Leaving where
  | clean
  | saved
  | discarded

structure Session where
  screen : EditorScreen
  /-- The document of the cache, `existing.data`. -/
  data : Option ContentSummary
  draft : Option DraftObject
  serials : Nat
  dirty : Bool
  save : Saving
  restore : Restoring
  navigations : Nat
  /-- The navigation that the dialog stands in front of. -/
  blocked : Option Nat
  leaveAfterSaving : Option Nat
  left : Option Leaving
  /-- The version the draft was made of, or last written as. -/
  composed : Option Nat
  /-- The versions fetched since, newest first. -/
  fetched : List Nat

namespace Session
variable (b : Browser) (s : Session)

/-- A screen that mounts.  Only a new document has a draft at once. -/
def opened (screen : EditorScreen) (data : Option ContentSummary) : Session where
  screen
  data
  draft := if screen.id.isNone then (b.draftFrom [] none).map (⟨0, ·⟩) else none
  serials := 1
  dirty := false
  save := .idle
  restore := .idle
  navigations := 0
  blocked := none
  leaveAfterSaving := none
  left := none
  composed := none
  fetched := []

/-- `setDraft` of a new object. -/
def setDraft (draft : Draft) : Session :=
  { s with draft := some ⟨s.serials, draft⟩, serials := s.serials + 1 }

/-- An answer of the query of the document. -/
def received (content : ContentSummary) : Session :=
  { s with
    data := some content
    fetched := if s.draft.isSome then content.version :: s.fetched else s.fetched }

/-- A draft is loaded once, then owned locally. -/
def seeded (content : ContentSummary) (draft : Draft) : Session :=
  { s.setDraft draft with composed := some content.version, fetched := [] }

def patch (next : Draft) : Session := { s.setDraft next with dirty := true }

/-- The screen may write: no save and no restore is in flight. -/
def writes : Bool :=
  match s.save, s.restore with
  | .pending _, _ => false
  | _, .pending _ => false
  | _, _ => true

def onSave : Option Session :=
  s.draft.map fun object =>
    let request := b.saveRequest s.screen (s.data.map (·.version)) object.draft
    { s with save := .pending ⟨object, request, s.composed, s.fetched⟩ }

/-- The save landed as the document `id`.  A draft that was replaced meanwhile stays
unsaved. -/
def onSaved (submission : Submission) (id : Uuid) (content : ContentSummary) : Session :=
  let unreplaced := s.draft.any (·.serial = submission.submitted.serial)
  match s.screen.id with
  | none =>
    if unreplaced then opened b { s.screen with id := some id, group := none } (some content)
    else { s with save := .saved }
  | some _ =>
    let s := { s with
      save := .saved
      data := some content
      composed := some content.version
      fetched := [] }
    if !unreplaced then s
    else if s.leaveAfterSaving.any (s.blocked = some ·) then
      { s with dirty := false, leaveAfterSaving := none, left := some .saved }
    else { s with dirty := false, leaveAfterSaving := none }

/-- The restore landed, and the draft is made anew. -/
def onRestored (content : ContentSummary) (draft : Draft) : Session :=
  { s.seeded content draft with data := some content, dirty := false, restore := .restored }

/-- A navigation begins, or the tab is closed; unsaved work holds it up. -/
def navigate : Session :=
  if s.dirty then { s with blocked := some s.navigations, navigations := s.navigations + 1 }
  else { s with left := some .clean }

def stay : Session := { s with blocked := none }

def discard : Session := { s with left := some .discarded }

def saveThenLeave : Option Session :=
  onSave b { s with leaveAfterSaving := s.blocked }

end Session

/-! ## Runs -/

section Runs
variable {I : Type} (b : Browser) (p : Platform) (servesLocale : String → Bool)
  (m : ContentMachine I)

/-- A state that was committed in the run of the API. -/
def CommittedState (db : Database) : Prop := db ∈ m.states ∨ ∃ e ∈ m.log, db = e.left

/-- The document as some reader was sent it. -/
def Served (id : Uuid) (content : ContentSummary) : Prop :=
  ∃ db, CommittedState m db ∧ ∃ row, db.content id = some row ∧
    ∃ type reader, content = (serializeContent type reader row).summary

/-- A request was accepted, and answered with a row. -/
structure Accepted (request : WriteRequest) (e : Committed Database Call (List ContentRow))
    (row : ContentRow) : Prop where
  committed : e ∈ m.log
  asked : ∃ actor moment db, request.handle p servesLocale actor moment db = .ok e.call
  answer : e.answer = [row]

/-- One event of the screen, while it is open. -/
inductive Step : Session → Session → Prop
  | fetched (s : Session) (hopen : s.left = none) (id : Uuid) (content : ContentSummary)
      (hid : s.screen.id = some id) (hserved : Served m id content) : Step s (s.received content)
  | seeded (s : Session) (hopen : s.left = none) (id : Uuid) (content : ContentSummary)
      (newIds : List UuidText) (draft : Draft) (hid : s.screen.id = some id)
      (hnone : s.draft = none) (hdata : s.data = some content)
      (hdraft : b.draftFrom newIds (some content) = some draft) : Step s (s.seeded content draft)
  | patch (s : Session) (hopen : s.left = none) (hdraft : s.draft.isSome) (next : Draft) :
      Step s (s.patch next)
  | save (s s' : Session) (hopen : s.left = none) (hwrites : s.writes = true)
      (hsave : s.onSave b = some s') : Step s s'
  | saved (s : Session) (hopen : s.left = none) (submission : Submission)
      (hsave : s.save = .pending submission) (e : Committed Database Call (List ContentRow))
      (row : ContentRow) (haccepted : Accepted p servesLocale m submission.request e row)
      (type : AnyContentType) (reader : Actor) :
      Step s (s.onSaved b submission row.id (serializeContent type reader row).summary)
  /-- Refused, or never answered: the write may have landed. -/
  | saveFailed (s : Session) (hopen : s.left = none) (submission : Submission)
      (hsave : s.save = .pending submission) : Step s { s with save := .failed }
  | restore (s : Session) (hopen : s.left = none) (hwrites : s.writes = true) (id rid : Uuid)
      (hid : s.screen.id = some id) (content : ContentSummary) (hdata : s.data = some content) :
      Step s { s with restore := .pending (.restore s.screen.type (some (id, rid))
        [("expectedVersion", .number content.version)]) }
  | restored (s : Session) (hopen : s.left = none) (id rid : Uuid) (name : String) (body : Meta)
      (hid : s.screen.id = some id)
      (hrestore : s.restore = .pending (.restore name (some (id, rid)) body))
      (e : Committed Database Call (List ContentRow)) (row : ContentRow)
      (haccepted : Accepted p servesLocale m (.restore name (some (id, rid)) body) e row)
      (type : AnyContentType) (reader : Actor) (newIds : List UuidText) (draft : Draft)
      (hdraft : b.draftFrom newIds (some (serializeContent type reader row).summary) =
        some draft) :
      Step s (s.onRestored (serializeContent type reader row).summary draft)
  | restoreFailed (s : Session) (hopen : s.left = none) (request : WriteRequest)
      (hrestore : s.restore = .pending request) : Step s { s with restore := .failed }
  | navigate (s : Session) (hopen : s.left = none) : Step s s.navigate
  | stay (s : Session) (hopen : s.left = none) : Step s s.stay
  | discard (s : Session) (hopen : s.left = none) (hblocked : s.blocked.isSome) : Step s s.discard
  | saveThenLeave (s s' : Session) (hopen : s.left = none) (hblocked : s.blocked.isSome)
      (hwrites : s.writes = true) (hsave : s.saveThenLeave b = some s') : Step s s'

/-- The screens that begin with an address, and nothing fetched. -/
inductive Reachable : Session → Prop
  | start (screen : EditorScreen) : Reachable (.opened b screen none)
  | step {s s' : Session} : Reachable s → Step b p servesLocale m s s' → Reachable s'

end Runs
/-! ## What an accepted save is -/

/-- The body of a save of a document that exists. -/
def patchBody (b : Browser) (screen : EditorScreen) (version : Option Nat) (draft : Draft) : Meta :=
  (b.onSave screen version draft).filter fun field =>
    field.1 ∉ ["locale", "translationGroupId"]

/-- The body of a save of a document that exists has these fields. -/
theorem patchBody_eq (b : Browser) {screen : EditorScreen} {id : Uuid} (hid : screen.id = some id)
    (version : Option Nat) (draft : Draft) : patchBody b screen version draft =
      [("slug", .string draft.slug), ("title", .string draft.title),
        ("status", .string draft.status.text), ("blocks", blocksToJson draft.blocks),
        ("excerpt", if draft.excerpt = "" then .null else .string draft.excerpt),
        ("publishedAt", nullable .string (b.fromLocalInput draft.publishedAt))] ++
        presentKey "expectedVersion" (fun version => .number version) version := by
  simp only [patchBody, Browser.onSave, hid, presentKey]
  cases screen.group with
  | none => cases version <;> simp
  | some group => cases version <;> simp

/-- The precondition of a save is the version it was given. -/
theorem expectedVersionOf_patchBody (b : Browser) {screen : EditorScreen} {id : Uuid}
    (hid : screen.id = some id) {version : Option Nat} {draft : Draft} {v : Nat}
    (h : expectedVersionOf (patchBody b screen version draft) = some v) : version = some v := by
  rw [patchBody_eq b hid, expectedVersionOf, requiredField] at h
  cases version with
  | none => cases h
  | some version =>
    replace h : versionSchema (.number version) = some v := h
    rw [versionSchema] at h
    split at h
    · simpa using h
    · cases h

/-- What remains of the body without its version is what is merged of a save. -/
theorem withoutVersion_patchBody (b : Browser) {screen : EditorScreen} {id : Uuid}
    (hid : screen.id = some id) (version : Option Nat) (draft : Draft) :
    withoutVersion (patchBody b screen version draft) =
      [("slug", .string draft.slug), ("title", .string draft.title),
        ("status", .string draft.status.text), ("blocks", blocksToJson draft.blocks),
        ("excerpt", nullable .string (if draft.excerpt = "" then none else some draft.excerpt)),
        ("publishedAt", nullable .string (b.fromLocalInput draft.publishedAt))] := by
  have hexcerpt : (if draft.excerpt = "" then Json.null else .string draft.excerpt) =
      nullable .string (if draft.excerpt = "" then none else some draft.excerpt) := by
    split <;> rfl
  rw [patchBody_eq b hid, withoutVersion, hexcerpt]
  cases version with
  | none => simp [presentKey]
  | some version => simp [presentKey]

/-- A draft is stored: the document was found, and left with the fields of the draft. -/
structure Stored (b : Browser) (p : Platform) (screen : EditorScreen) (id : Uuid)
    (version : Option Nat) (draft : Draft) (e : Committed Database Call (List ContentRow))
    (found row : ContentRow) : Prop where
  current : e.found.content id = some found
  left : e.left.content id = some row
  /-- The version that was replaced is the version that was sent. -/
  replaced : version = some found.version
  merged : ∃ options ∈ builtinOptions, ∃ now, MergedInto p options
    (withoutVersion (patchBody b screen version draft)) now found.toColumns row.toColumns
  slug : row.slug = draft.slug
  title : row.title = draft.title
  status : row.status = draft.status
  excerpt : row.excerpt = if draft.excerpt = "" then none else some draft.excerpt

section Accepted
variable {I : Type} [DecidableEq I] {«media» : List MediaRow} {b : Browser} {p : Platform}
  {servesLocale : String → Bool} {m : ContentMachine I}
  {e : Committed Database Call (List ContentRow)} {row : ContentRow} {screen : EditorScreen}
  {id : Uuid} {version : Option Nat} {draft : Draft}

/-- **An accepted save** of a document that exists stores the fields of its draft. -/
theorem Accepted.stored
    (hrun : Run engine program (fun _ => True) (.start (Database.empty «media»)) m)
    (hissued : ∀ e ∈ m.log, Issued p servesLocale e.call) (hid : screen.id = some id)
    (h : Accepted p servesLocale m (b.saveRequest screen version draft) e row) :
    ∃ found, Stored b p screen id version draft e found row := by
  obtain ⟨actor, moment, db, hhandle⟩ := h.asked
  rw [Browser.saveRequest, hid] at hhandle
  replace hhandle : (WriteRequest.patch screen.type (some id)
    (patchBody b screen version draft)).handle p servesLocale actor moment db = .ok e.call := hhandle
  rcases accepted_patch hrun hissued h.committed hhandle with ⟨hnone, -⟩ |
    ⟨options, hoptions, found, after, -, hfound, hleft, -, hanswer, hmerged⟩
  · cases hnone.symm.trans h.answer
  · obtain rfl : row = after := List.singleton_inj.mp (h.answer.symm.trans hanswer)
    obtain ⟨_, _, docId, sent, patch, -, hdoc, hsent, -, hcall⟩ :=
      WriteRequest.handle_patch hhandle
    obtain rfl := Option.some.inj hdoc
    -- the precondition is the one of the body, and the row met it
    obtain ⟨found', -, hfound', -, hversion, -⟩ := saved_of_meets
      (run_log (empty_inv «media») hrun e h.committed) hcall (by rw [h.answer]; simp)
    obtain rfl : found = found' := Option.some.inj (hfound.symm.trans hfound')
    have hmerge := hmerged
    rw [withoutVersion_patchBody b hid] at hmerge
    refine ⟨found, hfound, hleft, ?_, ⟨options, hoptions, moment.now, hmerged⟩, ?_, ?_, ?_, ?_⟩
    · rw [hversion sent rfl]
      exact expectedVersionOf_patchBody b hid hsent
    · obtain ⟨hsame, -⟩ := Option.filter_eq_some_iff.mp (hmerge.slug.sent rfl)
      exact (Option.some.inj hsame).symm
    · obtain ⟨hsame, -⟩ := Option.filter_eq_some_iff.mp (hmerge.title.sent rfl)
      exact (Option.some.inj hsame).symm
    · exact (Option.some.inj ((statusSchema_text _).symm.trans (hmerge.status.sent rfl))).symm
    · rcases hmerge.excerpt.sent rfl with ⟨hnone, hcleared⟩ | ⟨text, read, hsome, hread, hset⟩
      · rw [hcleared, hnone]
      · obtain ⟨hsame, -⟩ := Option.filter_eq_some_iff.mp hread
        rw [hset, hsome]
        exact hsame.symm

/-- **An accepted restore** leaves the row it answers with. -/
theorem Accepted.restored
    (hrun : Run engine program (fun _ => True) (.start (Database.empty «media»)) m)
    {name : String} {rid : Uuid} {body : Meta}
    (h : Accepted p servesLocale m (.restore name (some (id, rid)) body) e row) :
    e.left.content id = some row := by
  obtain ⟨actor, moment, db, hhandle⟩ := h.asked
  obtain ⟨_, _, _, _, _, -, -, -, -, hcall⟩ := WriteRequest.handle_restore hhandle
  have hpost := (run_log (empty_inv «media») hrun e h.committed).post
  rw [hcall] at hpost
  rcases hpost with ⟨hnone, -⟩ | ⟨current, next, hcur, -, hanswer, hleft⟩
  · cases hnone.symm.trans h.answer
  · obtain rfl : current.id = id := Database.id_of_content hcur
    obtain rfl : row = _ := List.singleton_inj.mp (h.answer.symm.trans hanswer)
    rw [hleft]
    exact content_updated hcur

/-- **An accepted creation** leaves the row it answers with. -/
theorem Accepted.created
    (hrun : Run engine program (fun _ => True) (.start (Database.empty «media»)) m)
    (hid : screen.id = none)
    (h : Accepted p servesLocale m (b.saveRequest screen version draft) e row) :
    e.left.content row.id = some row := by
  obtain ⟨actor, moment, db, hhandle⟩ := h.asked
  rw [Browser.saveRequest, hid] at hhandle
  obtain ⟨_, _, _, _, -, -, hcall⟩ := WriteRequest.handle_post hhandle
  have hpost := (run_log (empty_inv «media») hrun e h.committed).post
  rw [hcall] at hpost
  obtain ⟨hanswer, -, -, hleft⟩ := hpost
  obtain rfl : row = _ := List.singleton_inj.mp (h.answer.symm.trans hanswer)
  rw [hleft, content_created]
  exact if_pos rfl

end Accepted
/-! ## What the screen keeps -/

section Invariant
variable {I : Type} (b : Browser) (p : Platform) (servesLocale : String → Bool)
  (m : ContentMachine I)

/-- A draft can be left without loss: nothing was typed, it is what the server sent, or an
accepted save stored it. -/
inductive Kept (screen : EditorScreen) (draft : Draft) : Prop
  | blank (hid : screen.id = none) (hdraft : b.draftFrom [] none = some draft)
  | loaded (id : Uuid) (content : ContentSummary) (newIds : List UuidText)
      (hid : screen.id = some id) (hserved : Served m id content)
      (hdraft : b.draftFrom newIds (some content) = some draft)
  | stored (id : Uuid) (version : Option Nat) (e : Committed Database Call (List ContentRow))
      (found row : ContentRow) (hid : screen.id = some id) (he : e ∈ m.log)
      (hstored : Stored b p screen id version draft e found row)

/-- What is known of a save in flight: it carries the version last fetched, or else the
one its draft was composed of. -/
structure Sent (s : Session) (submission : Submission) : Prop where
  serial : submission.submitted.serial < s.serials
  same : ∀ object ∈ s.draft, object.serial = submission.submitted.serial →
    object = submission.submitted
  request : submission.request = b.saveRequest s.screen
    (submission.fetched.head?.or submission.composed) submission.submitted.draft

structure Inv (s : Session) : Prop where
  clean : s.dirty = false → ∀ object ∈ s.draft, Kept b p m s.screen object.draft
  left : ∀ how, s.left = some how → how ≠ .discarded →
    ∀ object ∈ s.draft, Kept b p m s.screen object.draft
  data : ∀ content ∈ s.data, ∀ id ∈ s.screen.id, Served m id content
  version : s.draft.isSome → s.data.map (·.version) = s.fetched.head?.or s.composed
  serials : ∀ object ∈ s.draft, object.serial < s.serials
  pending : ∀ submission, s.save = .pending submission → Sent b s submission

end Invariant

section Screen
variable {I : Type} {b : Browser} {p : Platform} {m : ContentMachine I} {s s' : Session}
  {content : ContentSummary} {draft : Draft} {screen : EditorScreen}
  {data : Option ContentSummary} {submission : Submission}

/-- A screen that mounts satisfies the invariant. -/
theorem Inv.opened (hdata : ∀ content ∈ data, ∀ id ∈ screen.id, Served m id content)
    (hnew : screen.id = none → data = none) : Inv b p m (.opened b screen data) := by
  cases hid : screen.id with
  | none =>
    obtain rfl := hnew hid
    refine ⟨fun _ object hobject => ?_, fun how h => (by cases h), hdata, fun _ => rfl,
      fun object hobject => ?_, fun submission h => (by cases h)⟩
    · simp only [Session.opened, hid, Option.isNone_none, if_true] at hobject
      obtain ⟨draft, hdraft, rfl⟩ := Option.map_eq_some_iff.mp hobject
      exact .blank hid hdraft
    · simp only [Session.opened, hid, Option.isNone_none, if_true] at hobject
      obtain ⟨draft, -, rfl⟩ := Option.map_eq_some_iff.mp hobject
      exact Nat.one_pos
  | some id =>
    have hdraft : (Session.opened b screen data).draft = none := by
      simp [Session.opened, hid]
    exact ⟨fun _ object hobject => (by rw [hdraft] at hobject; cases hobject),
      fun how h => (by cases h), hdata, fun h => (by rw [hdraft] at h; cases h),
      fun object hobject => (by rw [hdraft] at hobject; cases hobject),
      fun submission h => (by cases h)⟩

/-- A draft that is set is none that a save in flight has submitted. -/
theorem Sent.setDraft (h : Sent b s submission) : Sent b (s.setDraft draft) submission := by
  refine ⟨Nat.lt_succ_of_lt h.serial, fun object hobject heq => ?_, h.request⟩
  obtain rfl := Option.some.inj hobject
  exact absurd heq (Nat.ne_of_gt h.serial)

/-- The invariant survives a draft that is made of what the server sent. -/
theorem Inv.seeded (h : Inv b p m s) (hopen : s.left = none) {id : Uuid} {newIds : List UuidText}
    (hid : s.screen.id = some id) (hserved : Served m id content)
    (hdraft : b.draftFrom newIds (some content) = some draft) (dirty : Bool)
    (restore : Restoring) : Inv b p m
      { s.seeded content draft with data := some content, dirty := dirty, restore := restore } := by
  refine ⟨fun _ object hobject => ?_, fun how hhow => ?_, fun c hc j hj => ?_, fun _ => rfl,
    fun object hobject => ?_, fun submission hsave => ?_⟩
  · obtain rfl := Option.some.inj hobject
    exact .loaded id content newIds hid hserved hdraft
  · cases hopen.symm.trans hhow
  · obtain rfl := Option.some.inj hc
    obtain rfl := Option.some.inj (hid.symm.trans hj)
    exact hserved
  · obtain rfl := Option.some.inj hobject
    exact Nat.lt_succ_self _
  · exact { (h.pending submission hsave).setDraft with }

/-- The invariant survives the start of a save, with the draft and the version of the moment. -/
theorem Inv.onSave (h : Inv b p m s) (hsave : s.onSave b = some s') : Inv b p m s' := by
  obtain ⟨object, hobject, rfl⟩ := Option.map_eq_some_iff.mp hsave
  refine ⟨h.clean, h.left, h.data, h.version, h.serials, fun submission hsubmission => ?_⟩
  obtain rfl := Saving.pending.inj hsubmission
  refine ⟨h.serials object hobject, fun other hother _ => ?_, ?_⟩
  · exact Option.some.inj (hother.symm.trans hobject)
  · rw [← h.version (Option.isSome_of_mem hobject)]

end Screen

section Steps
variable {I : Type} [DecidableEq I] {«media» : List MediaRow} {b : Browser} {p : Platform}
  {servesLocale : String → Bool} {m : ContentMachine I} {s s' : Session} {submission : Submission}
  {id : Uuid} {e : Committed Database Call (List ContentRow)} {row : ContentRow}

/-- The draft that is on the screen when a save of it lands is stored. -/
theorem Sent.stored
    (hrun : Run engine program (fun _ => True) (.start (Database.empty «media»)) m)
    (hissued : ∀ e ∈ m.log, Issued p servesLocale e.call) (h : Sent b s submission)
    (hid : s.screen.id = some id) (haccepted : Accepted p servesLocale m submission.request e row)
    {object : DraftObject} (hobject : object ∈ s.draft)
    (hsame : object.serial = submission.submitted.serial) :
    Kept b p m s.screen object.draft := by
  rw [h.request] at haccepted
  obtain ⟨found, hstored⟩ := haccepted.stored hrun hissued hid
  exact .stored id _ e found row hid haccepted.committed (h.same object hobject hsame ▸ hstored)

/-- The invariant survives the answer to a save. -/
theorem Inv.onSaved
    (hrun : Run engine program (fun _ => True) (.start (Database.empty «media»)) m)
    (hissued : ∀ e ∈ m.log, Issued p servesLocale e.call) (h : Inv b p m s)
    (hsave : s.save = .pending submission)
    (haccepted : Accepted p servesLocale m submission.request e row) (type : AnyContentType)
    (reader : Actor) : Inv b p m
      (s.onSaved b submission row.id (serializeContent type reader row).summary) := by
  have hsent := h.pending submission hsave
  have hcreated := haccepted
  rw [hsent.request] at hcreated
  unfold Session.onSaved
  cases hid : s.screen.id with
  | none =>
    dsimp only
    split
    · -- the screen of the new document mounts with what was answered
      refine .opened (fun content hcontent id hrow => ?_) fun hnew => (by cases hnew)
      obtain rfl := Option.some.inj hcontent
      obtain rfl := Option.some.inj hrow
      exact ⟨e.left, .inr ⟨e, haccepted.committed, rfl⟩, row, hcreated.created hrun hid, type,
        reader, rfl⟩
    · exact ⟨h.clean, h.left, h.data, h.version, h.serials, fun _ hpending => (by cases hpending)⟩
  | some id =>
    have hserved : ∀ content ∈ some (serializeContent type reader row).summary,
        ∀ j ∈ s.screen.id, Served m j content := by
      intro content hcontent j hj
      obtain rfl := Option.some.inj hcontent
      obtain rfl := Option.some.inj (hid.symm.trans hj)
      obtain ⟨found, hstored⟩ := hcreated.stored hrun hissued hid
      exact ⟨e.left, .inr ⟨e, haccepted.committed, rfl⟩, row, hstored.left, type, reader, rfl⟩
    have hkept : s.draft.any (·.serial = submission.submitted.serial) = true →
        ∀ object ∈ s.draft, Kept b p m s.screen object.draft := by
      intro hsame object hobject
      rw [Option.mem_def.mp hobject, Option.any_some, decide_eq_true_eq] at hsame
      exact hsent.stored hrun hissued hid haccepted hobject hsame
    dsimp only
    split
    · exact ⟨h.clean, h.left, hserved, fun _ => rfl, h.serials,
        fun _ hpending => (by cases hpending)⟩
    · rename_i hsame
      replace hkept := hkept (by simpa using hsame)
      split
      · exact ⟨fun _ => hkept, fun _ _ _ => hkept, hserved, fun _ => rfl, h.serials,
          fun _ hpending => (by cases hpending)⟩
      · exact ⟨fun _ => hkept, h.left, hserved, fun _ => rfl, h.serials,
          fun _ hpending => (by cases hpending)⟩

/-- **One event** of the screen keeps the invariant. -/
theorem Inv.step
    (hrun : Run engine program (fun _ => True) (.start (Database.empty «media»)) m)
    (hissued : ∀ e ∈ m.log, Issued p servesLocale e.call) (h : Inv b p m s)
    (hstep : Step b p servesLocale m s s') : Inv b p m s' := by
  cases hstep with
  | fetched hopen id content hid hserved =>
    refine ⟨h.clean, h.left, fun c hc j hj => ?_, fun hdraft => ?_, h.serials,
      fun submission hsave => { h.pending submission hsave with }⟩
    · obtain rfl := Option.some.inj hc
      obtain rfl := Option.some.inj (hid.symm.trans hj)
      exact hserved
    · replace hdraft : s.draft.isSome = true := hdraft
      simp [Session.received, hdraft]
  | seeded hopen id content newIds draft hid hnone hdata hdraft =>
    have hseeded := h.seeded hopen hid (h.data content hdata id hid) hdraft s.dirty s.restore
    rw [← hdata] at hseeded
    exact hseeded
  | patch hopen hdraft next =>
    refine ⟨fun hclean => (by cases hclean), fun how hhow => ?_, h.data, fun _ => h.version hdraft,
      fun object hobject => ?_, fun submission hsave => ?_⟩
    · cases hopen.symm.trans hhow
    · obtain rfl := Option.some.inj hobject
      exact Nat.lt_succ_self _
    · exact { (h.pending submission hsave).setDraft with }
  | save _ hopen hwrites hsave => exact h.onSave hsave
  | saved hopen submission hsave e row haccepted type reader =>
    exact h.onSaved hrun hissued hsave haccepted type reader
  | saveFailed hopen submission hsave => exact { h with pending := fun _ hp => (by cases hp) }
  | restore hopen hwrites id rid hid content hdata =>
    exact { h with pending := fun submission hsave => { h.pending submission hsave with } }
  | restored hopen id rid name body hid hrestore e row haccepted type reader newIds draft hdraft =>
    have hserved : Served m id (serializeContent type reader row).summary :=
      ⟨e.left, .inr ⟨e, haccepted.committed, rfl⟩, row, haccepted.restored hrun, type, reader, rfl⟩
    exact h.seeded hopen hid hserved hdraft false .restored
  | restoreFailed hopen request hrestore =>
    exact { h with pending := fun submission hsave => { h.pending submission hsave with } }
  | navigate hopen =>
    unfold Session.navigate
    split
    · exact { h with pending := fun submission hsave => { h.pending submission hsave with } }
    · rename_i hdirty
      have hkept := h.clean (by simpa using hdirty)
      exact { h with
        left := fun _ _ _ => hkept
        pending := fun submission hsave => { h.pending submission hsave with } }
  | stay hopen =>
    exact { h with pending := fun submission hsave => { h.pending submission hsave with } }
  | discard hopen hblocked =>
    refine { h with
      left := fun how hhow hne => absurd (Option.some.inj hhow).symm hne
      pending := fun submission hsave => { h.pending submission hsave with } }
  | saveThenLeave _ hopen hblocked hwrites hsave =>
    have hnext : Inv b p m { s with leaveAfterSaving := s.blocked } :=
      { h with pending := fun submission hsave => { h.pending submission hsave with } }
    exact hnext.onSave hsave

/-- **Every screen** that can be reached satisfies the invariant. -/
theorem Reachable.inv
    (hrun : Run engine program (fun _ => True) (.start (Database.empty «media»)) m)
    (hissued : ∀ e ∈ m.log, Issued p servesLocale e.call)
    (hs : Reachable b p servesLocale m s) : Inv b p m s := by
  induction hs with
  | start screen => exact .opened (fun content hcontent => (by cases hcontent)) fun _ => rfl
  | step _ hstep ih => exact ih.step hrun hissued hstep

variable (b p servesLocale m) in
/-- What an author may rely on, of a screen as it is now. -/
structure Keeps (s : Session) : Prop where
  /-- A screen that claims no unsaved work, and one that was left without discarding any,
  holds nothing the server does not. -/
  nothing_lost : (s.dirty = false ∨ ∃ how, s.left = some how ∧ how ≠ .discarded) →
    ∀ object ∈ s.draft, Kept b p m s.screen object.draft
  /-- A save that is accepted replaced the version that was last fetched; the version the
  draft was composed of, if nothing was fetched since. -/
  replaces : ∀ submission, s.save = .pending submission → ∀ id, s.screen.id = some id →
    ∀ e row, Accepted p servesLocale m submission.request e row →
      ∃ found, Stored b p s.screen id (submission.fetched.head?.or submission.composed)
        submission.submitted.draft e found row

end Steps
/-! ### A save over work its author never saw

The post is opened at version 1, somebody else saves it, and the document is fetched
again behind the draft.  What the author then saves was composed of version 1 and goes
out with version 2. -/

end EditorSession
end PressLabz
