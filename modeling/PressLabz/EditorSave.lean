import PressLabz.ContentListing
import PressLabz.EditorDates
import PressLabz.PublicationDates

/-! # Opening a document and saving it

`apps/admin/src/routes/content-editor.tsx`: the draft that the screen makes of what the
API sent (`draftFrom`), and the request a save makes of the draft (`onSave`, and
`useSaveContent` of `lib/content.ts`).  Both pass every field through what an input
shows: text for a text that may be null, a local minute for an instant.

So a save that touched nothing changes two fields of some documents: an excerpt that is
there and empty becomes null, and a date moves to the instant its field names.
`Browser.Keeps` says of which documents it changes none, and `untouched_save_iff` that
it is exactly these.
-/
namespace PressLabz
open Calendar LocalTime RowLocks

/-! ## What the API sends -/

/-- The earliest date that a `Date` holds, from which the stored ones count. -/
def earliest : Int := -8640000000000000

/-- The time value of a stored date. -/
def timeOf (date : Nat) : Int := date + earliest

/-- How a time value is stored. -/
def storedAt (time : Int) : Nat := (time - earliest).toNat

theorem timeOf_storedAt {time : Int} (h : IsDate time) : timeOf (storedAt time) = time := by
  have hlower := h.1
  unfold timeOf storedAt earliest
  omega

theorem storedAt_timeOf (date : Nat) : storedAt (timeOf date) = date := by
  unfold timeOf storedAt
  omega

/-- `new Date(text)` on the server reads what `toISOString` writes. -/
def Platform.ReadsDates (p : Platform) : Prop :=
  ∀ time, IsDate time → p.date (.string (toISOString time)) = some (storedAt time)

/-- A status is its own name. -/
def ContentStatus.text : ContentStatus → String
  | .draft => "draft"
  | .scheduled => "scheduled"
  | .published => "published"
  | .archived => "archived"
  | .trash => "trash"

theorem statusSchema_text (status : ContentStatus) :
    statusSchema (.string status.text) = some status := by
  cases status with
  | draft => rfl
  | scheduled => rfl
  | published => rfl
  | archived => rfl
  | trash => rfl

/-- The fields of `contentSummarySchema` that the editor reads. -/
structure ContentSummary where
  slug : String
  status : ContentStatus
  title : String
  excerpt : Option String
  blocks : Blocks
  publishedAt : Option String
  version : Nat
  deriving DecidableEq

/-- What the API serialized, as JSON: an instant is a text. -/
def SerializedContent.summary (content : SerializedContent) : ContentSummary where
  slug := content.slug
  status := content.status
  title := content.title
  excerpt := content.excerpt
  blocks := content.blocks
  publishedAt := content.publishedAt.map fun date => toISOString (timeOf date)
  version := content.version

/-! ## Unique ids -/

def Block.withId (id : UuidText) : Block → Block
  | .paragraph _ content => .paragraph id content
  | .heading _ level content => .heading id level content
  | .quote _ content attribution => .quote id content attribution
  | .list _ ordered items => .list id ordered items
  | .code _ language text => .code id language text
  | .image _ mediaId caption => .image id mediaId caption
  | .divider _ => .divider id

@[simp] theorem Block.withId_id (id : UuidText) (block : Block) : (block.withId id).id = id := by
  cases block <;> rfl

/-- The `while` of `withUniqueIds`, over what `newId` will answer: the first id that is
not seen, and the answers after it. -/
def nextUnseen (seen : List UuidText) : List UuidText → Option (UuidText × List UuidText)
  | [] => none
  | id :: later => if id ∈ seen then nextUnseen seen later else some (id, later)

/-- `withUniqueIds`; none while the loop still asks for ids. -/
def withUniqueIds (seen newIds : List UuidText) : Blocks → Option Blocks
  | [] => some []
  | block :: rest =>
    if block.id ∉ seen then
      (withUniqueIds (block.id :: seen) newIds rest).map fun rest => block :: rest
    else
      (nextUnseen seen newIds).bind fun (replacement, later) =>
        (withUniqueIds (replacement :: seen) later rest).map fun rest =>
          block.withId replacement :: rest

theorem nextUnseen_not_mem {seen newIds : List UuidText} {next : UuidText × List UuidText}
    (h : nextUnseen seen newIds = some next) : next.1 ∉ seen := by
  induction newIds with
  | nil => cases h
  | cons id later ih =>
    rw [nextUnseen] at h
    split at h
    · exact ih h
    · rename_i hnew
      obtain rfl := Option.some.inj h
      exact hnew

/-- **What is repaired has distinct ids**, and none that was seen before. -/
theorem withUniqueIds_nodup {seen newIds : List UuidText} {blocks repaired : Blocks}
    (h : withUniqueIds seen newIds blocks = some repaired) :
    (repaired.map Block.id).Nodup ∧ ∀ id ∈ repaired.map Block.id, id ∉ seen := by
  induction blocks generalizing seen newIds repaired with
  | nil =>
    obtain rfl := Option.some.inj h
    exact ⟨List.nodup_nil, fun _ hid => nomatch hid⟩
  | cons block rest ih =>
    -- either way the block at hand has an id that was not seen, and the rest sees it
    have hcons : ∃ id first later others, id ∉ seen ∧ first.id = id ∧
        withUniqueIds (id :: seen) later rest = some others ∧ repaired = first :: others := by
      rw [withUniqueIds] at h
      split at h
      · rename_i hnew
        obtain ⟨others, hothers, rfl⟩ := Option.map_eq_some_iff.mp h
        exact ⟨block.id, block, newIds, others, hnew, rfl, hothers, rfl⟩
      · obtain ⟨⟨replacement, later⟩, hnext, h⟩ := Option.bind_eq_some_iff.mp h
        obtain ⟨others, hothers, rfl⟩ := Option.map_eq_some_iff.mp h
        exact ⟨replacement, _, later, others, nextUnseen_not_mem hnext,
          block.withId_id replacement, hothers, rfl⟩
    obtain ⟨id, first, later, others, hnew, hfirst, hothers, rfl⟩ := hcons
    obtain ⟨hnodup, hunseen⟩ := ih hothers
    rw [List.map_cons, hfirst]
    refine ⟨List.nodup_cons.mpr ⟨fun hid => hunseen id hid List.mem_cons_self, hnodup⟩, ?_⟩
    intro other hother
    rcases List.mem_cons.mp hother with rfl | hother
    · exact hnew
    · exact fun hseen => hunseen other hother (List.mem_cons_of_mem _ hseen)

/-- **Distinct ids are kept**, whatever `newId` answers. -/
theorem withUniqueIds_of_nodup {seen : List UuidText} (newIds : List UuidText) {blocks : Blocks}
    (hnodup : (blocks.map Block.id).Nodup) (hunseen : ∀ id ∈ blocks.map Block.id, id ∉ seen) :
    withUniqueIds seen newIds blocks = some blocks := by
  induction blocks generalizing seen with
  | nil => rfl
  | cons block rest ih =>
    rw [List.map_cons, List.nodup_cons] at hnodup
    have hrest : withUniqueIds (block.id :: seen) newIds rest = some rest := by
      refine ih hnodup.2 fun id hid hseen => ?_
      rcases List.mem_cons.mp hseen with rfl | hseen
      · exact hnodup.1 hid
      · exact hunseen id (List.mem_cons_of_mem _ hid) hseen
    rw [withUniqueIds, if_pos (hunseen _ List.mem_cons_self), hrest, Option.map_some]

/-! ## The screen -/

/-- The state of the form. -/
structure Draft where
  title : String
  slug : String
  slugTouched : Bool
  excerpt : String
  status : ContentStatus
  publishedAt : String
  blocks : Blocks
  deriving DecidableEq

/-- What the screen knows beside the draft: the address it is at, and the language a new
document is written in. -/
structure EditorScreen where
  type : String
  id : Option Uuid
  documentLocale : String
  group : Option UuidText

/-- The JSON of a value, or null. -/
def nullable {α : Type} (toJson : α → Json) : Option α → Json
  | none => .null
  | some a => toJson a

namespace Browser
variable (b : Browser)

def draftFrom (newIds : List UuidText) (content : Option ContentSummary) : Option Draft :=
  (withUniqueIds [] newIds ((content.map (·.blocks)).getD [])).map fun blocks =>
    { title := (content.map (·.title)).getD ""
      slug := (content.map (·.slug)).getD ""
      slugTouched := content.isSome
      excerpt := (content.bind (·.excerpt)).getD ""
      status := (content.map (·.status)).getD .draft
      publishedAt := b.toLocalInput (content.bind (·.publishedAt))
      blocks }

/-- What `onSave` hands to the mutation.  A creation leaves out what is empty, an edit
sends it as null. -/
def onSave (screen : EditorScreen) (version : Option Nat) (draft : Draft) : Meta :=
  ("locale", .string screen.documentLocale) ::
    presentKey "translationGroupId" .uuid screen.group ++
    [("slug", .string draft.slug), ("title", .string draft.title),
      ("status", .string draft.status.text), ("blocks", blocksToJson draft.blocks)] ++
    match screen.id with
    | none =>
      (if draft.excerpt = "" then [] else [("excerpt", .string draft.excerpt)]) ++
        presentKey "publishedAt" .string (b.fromLocalInput draft.publishedAt)
    | some _ =>
      [("excerpt", if draft.excerpt = "" then .null else .string draft.excerpt),
        ("publishedAt", nullable .string (b.fromLocalInput draft.publishedAt))] ++
        presentKey "expectedVersion" (fun version => .number version) version

/-- The request of `useSaveContent`: a PATCH is sent neither language nor group. -/
def saveRequest (screen : EditorScreen) (version : Option Nat) (draft : Draft) : WriteRequest :=
  match screen.id with
  | none => .post screen.type (b.onSave screen version draft)
  | some id => .patch screen.type (some id) ((b.onSave screen version draft).filter fun field =>
      field.1 ∉ ["locale", "translationGroupId"])

/-- Opening a document and saving it. -/
def untouchedSave (newIds : List UuidText) (screen : EditorScreen) (content : ContentSummary) :
    Option WriteRequest :=
  (b.draftFrom newIds (some content)).map (b.saveRequest screen (some content.version))

/-- The documents that an untouched save keeps: no excerpt that is there and empty, and no
date but one that comes back from its field. -/
def Keeps (columns : Columns) : Prop :=
  columns.excerpt ≠ some "" ∧ ∀ date ∈ columns.publishedAt, b.ReadsBack (timeOf date)

/-! ## The body of such a save -/

/-- The fields that are sent: all of the document but its metadata and its parent. -/
def savedFields (row : ContentRow) : Meta :=
  [("slug", .string row.slug), ("title", .string row.title), ("status", .string row.status.text),
    ("blocks", blocksToJson row.blocks),
    ("excerpt", nullable .string (row.excerpt.filter fun text => text ≠ "")),
    ("publishedAt", nullable .string (b.fromLocalInput (b.toLocalInput
      (row.publishedAt.map fun date => toISOString (timeOf date))))),
    ("expectedVersion", .number row.version)]

theorem excerpt_sent (excerpt : Option String) :
    (if excerpt.getD "" = "" then .null else .string (excerpt.getD "")) =
      nullable .string (excerpt.filter fun text => text ≠ "") := by
  cases excerpt with
  | none => rfl
  | some text =>
    by_cases hempty : text = ""
    · simp [hempty, nullable, Option.filter]
    · simp [hempty, nullable, Option.filter]

/-- **The draft of a document** with distinct ids is made at once, and a save of it sends
these fields. -/
theorem untouchedSave_eq (newIds : List UuidText) {screen : EditorScreen} {id : Uuid}
    (type : AnyContentType) (reader : Actor) {row : ContentRow} (hid : screen.id = some id)
    (hnodup : (row.blocks.map Block.id).Nodup) :
    b.untouchedSave newIds screen (serializeContent type reader row).summary =
      some (.patch screen.type (some id) (b.savedFields row)) := by
  have hblocks : withUniqueIds [] newIds row.blocks = some row.blocks :=
    withUniqueIds_of_nodup newIds hnodup fun _ _ => List.not_mem_nil
  have hrequest : b.untouchedSave newIds screen (serializeContent type reader row).summary =
      (withUniqueIds [] newIds row.blocks).map fun blocks =>
        b.saveRequest screen (some row.version)
          { title := row.title
            slug := row.slug
            slugTouched := true
            excerpt := row.excerpt.getD ""
            status := row.status
            publishedAt := b.toLocalInput (row.publishedAt.map fun date => toISOString (timeOf date))
            blocks } := by
    rw [untouchedSave, draftFrom, Option.map_map]
    rfl
  rw [hrequest, hblocks, Option.map_some, saveRequest, hid]
  simp only [onSave, hid, excerpt_sent, presentKey, savedFields]
  cases screen.group with
  | none => simp
  | some group => simp

end Browser

/-! ## Field by field -/

section Fields
variable {α : Type} {schema : Json → Option α} {name : String} {fields : Meta}

/-- A text field that is always sent becomes what its schema reads of the text. -/
theorem SetTo.sent {value : Json} {before after : α} (hlookup : fields.lookup name = some value)
    (h : SetTo schema name fields before after) : schema value = some after := by
  unfold SetTo at h
  rwa [hlookup] at h

theorem SetTo.absent {before after : α} (hlookup : fields.lookup name = none)
    (h : SetTo schema name fields before after) : after = before := by
  unfold SetTo at h
  rwa [hlookup] at h

theorem SetOrCleared.absent {before after : Option α} (hlookup : fields.lookup name = none)
    (h : SetOrCleared schema name fields before after) : after = before := by
  unfold SetOrCleared at h
  rwa [hlookup] at h

/-- A field that is always sent, and may be null, is cleared by a null and becomes what its
schema reads of a text. -/
theorem SetOrCleared.sent {text : Option String} {before after : Option α}
    (hlookup : fields.lookup name = some (nullable .string text))
    (h : SetOrCleared schema name fields before after) :
    text = none ∧ after = none ∨
      ∃ s a, text = some s ∧ schema (.string s) = some a ∧ after = some a := by
  unfold SetOrCleared at h
  rw [hlookup] at h
  cases text with
  | none => exact .inl ⟨rfl, h⟩
  | some s =>
    obtain ⟨a, ha, hafter⟩ := h
    exact .inr ⟨s, a, rfl, ha, hafter⟩

end Fields

section Kept
variable {p : Platform} {fields : Meta} (b : Browser)

/-- **An excerpt** is kept, unless it is there and empty. -/
theorem excerpt_kept_iff {before after : Option String}
    (hlookup : fields.lookup "excerpt" =
      some (nullable .string (before.filter fun text => text ≠ "")))
    (h : SetOrCleared p.excerptSchema "excerpt" fields before after) :
    after = before ↔ before ≠ some "" := by
  rcases h.sent hlookup with ⟨hnone, rfl⟩ | ⟨text, read, hsome, hread, rfl⟩
  · -- null is sent of an excerpt that is not there, and of one that is empty
    cases before with
    | none => simp
    | some text =>
      have hempty : text = "" := by simpa using hnone
      simp [hempty]
  · obtain ⟨rfl, hfull⟩ := Option.filter_eq_some_iff.mp hsome
    obtain ⟨hsame, -⟩ := Option.filter_eq_some_iff.mp hread
    obtain rfl : text = read := Option.some.inj hsame
    simpa using hfull

theorem Browser.fromLocalInput_isDate {value text : String}
    (h : b.fromLocalInput value = some text) : ∃ time, IsDate time ∧ text = toISOString time := by
  rw [Browser.fromLocalInput] at h
  split at h
  · cases h
  · obtain ⟨time, htime, rfl⟩ := Option.map_eq_some_iff.mp h
    exact ⟨time, b.newDate_isDate htime, rfl⟩

/-- **A date** is kept when its field gives it back. -/
theorem date_kept_iff (hdates : p.ReadsDates) {before after stamped : Option Nat}
    (hlookup : fields.lookup "publishedAt" = some (nullable .string (b.fromLocalInput
      (b.toLocalInput (before.map fun date => toISOString (timeOf date))))))
    (h : SetOrCleared p.date "publishedAt" fields stamped after) :
    after = before ↔ ∀ date ∈ before, b.ReadsBack (timeOf date) := by
  cases before with
  | none =>
    rcases h.sent hlookup with ⟨-, rfl⟩ | ⟨text, read, hsome, -, -⟩
    · simp
    · cases hsome
  | some date =>
    rw [Option.map_some] at hlookup
    have hkept : after = some date ↔ b.ReadsBack (timeOf date) := by
      rcases h.sent hlookup with ⟨hnone, rfl⟩ | ⟨text, read, hsome, hread, rfl⟩
      · -- a date that the field does not show, or cannot read, is cleared
        refine ⟨(fun h => nomatch h), fun hback => ?_⟩
        rw [(b.reads_back_iff hback.1).mpr hback] at hnone
        cases hnone
      · obtain ⟨time, htime, rfl⟩ := b.fromLocalInput_isDate hsome
        obtain rfl : storedAt time = read := Option.some.inj ((hdates time htime).symm.trans hread)
        constructor
        · intro hsame
          have hback : time = timeOf date := by
            rw [← Option.some.inj hsame, timeOf_storedAt htime]
          rw [← hback] at hsome ⊢
          exact (b.reads_back_iff htime).mp hsome
        · intro hback
          rw [(b.reads_back_iff hback.1).mpr hback, Option.some.injEq] at hsome
          rw [← Browser.toISOString_inj hback.1 htime hsome, storedAt_timeOf]
    simpa using hkept

attribute [ext] Columns

/-- **An accepted save that touched nothing** changes no editorial field of exactly the
documents that the screen keeps. -/
theorem MergedInto.untouched {options : ContentTypeOptions} {now : Nat} {current : ContentRow}
    {after : Columns} (hdates : p.ReadsDates)
    (hblocks : blocksAreValid p.isSafeHref current.blocks = true)
    (h : MergedInto p options (withoutVersion (b.savedFields current)) now current.toColumns after) :
    after = current.toColumns ↔ b.Keeps current.toColumns := by
  have hslug : after.slug = current.slug := by
    obtain ⟨hsame, -⟩ := Option.filter_eq_some_iff.mp (h.slug.sent rfl)
    exact (Option.some.inj hsame).symm
  have htitle : after.title = current.title := by
    obtain ⟨hsame, -⟩ := Option.filter_eq_some_iff.mp (h.title.sent rfl)
    exact (Option.some.inj hsame).symm
  have hstatus : after.status = current.status :=
    (Option.some.inj ((statusSchema_text current.status).symm.trans (h.status.sent rfl))).symm
  have hblocks : after.blocks = current.blocks :=
    (Option.some.inj ((blocksSchema_toJson hblocks).symm.trans (h.blocks.sent rfl))).symm
  have hmeta : after.meta = current.meta := h.parsed.absent rfl
  have hparent : after.parentId = current.parentId := h.parentId.absent rfl
  -- six fields come back whatever they were, and the other two as the screen keeps them
  rw [Browser.Keeps, ← excerpt_kept_iff rfl h.excerpt, ← date_kept_iff b hdates rfl h.publishedAt]
  constructor
  · intro hsame
    exact ⟨congrArg Columns.excerpt hsame, congrArg Columns.publishedAt hsame⟩
  · rintro ⟨hexcerpt, hdate⟩
    exact Columns.ext hslug htitle hexcerpt hstatus hblocks hmeta hdate hparent

end Kept

section Runs
variable {I : Type} [DecidableEq I] {«media» : List MediaRow} {m : ContentMachine I} {p : Platform}
  {servesLocale : String → Bool} {e : Committed Database Call (List ContentRow)}
  {newIds : List UuidText} {screen : EditorScreen} {type : AnyContentType} {reader actor : Actor}
  {request : WriteRequest} {moment : Moment} {db : Database} {id : Uuid} {current row : ContentRow}

/-- **Open and save.**  An instant comes back from its field when the minute the field
shows names it; and a save that touched nothing, once it is accepted, changes no
editorial field of exactly the documents that the screen keeps. -/
theorem untouched_save_iff (b : Browser)
    (hrun : Run engine program (fun _ => True) (.start (Database.empty «media»)) m)
    (hissued : ∀ e ∈ m.log, Issued p servesLocale e.call) (he : e ∈ m.log)
    (hdates : p.ReadsDates) (hscreen : screen.id = some id)
    (hcur : e.found.content id = some current)
    (hsave : b.untouchedSave newIds screen (serializeContent type reader current).summary =
      some request)
    (hhandle : request.handle p servesLocale actor moment db = .ok e.call)
    (hanswer : e.answer = [row]) :
    (∀ time, IsDate time →
      (b.fromLocalInput (b.toLocalInput (some (toISOString time))) = some (toISOString time) ↔
        b.ReadsBack time)) ∧
    e.left.content id = some row ∧
      (row.toColumns = current.toColumns ↔ b.Keeps current.toColumns) := by
  have hfound : e.found ∈ m.states := List.mem_cons_of_mem _ (List.mem_map_of_mem he)
  obtain ⟨own, -, -, hfits⟩ := run_fitsTypes hrun hissued e.found hfound id current hcur
  have hnodup : (current.blocks.map Block.id).Nodup := by
    have hvalid := hfits.blocks
    rw [blocksAreValid, Bool.and_eq_true] at hvalid
    exact of_decide_eq_true hvalid.2
  rw [b.untouchedSave_eq newIds type reader hscreen hnodup] at hsave
  obtain rfl := Option.some.inj hsave
  refine ⟨fun _ => b.reads_back_iff, ?_⟩
  rcases accepted_patch hrun hissued he hhandle with ⟨hnone, -⟩ |
    ⟨options, -, before, after, -, hbefore, hafter, -, hsome, hmerged⟩
  · cases hanswer.symm.trans hnone
  · obtain rfl : row = after := List.singleton_inj.mp (hanswer.symm.trans hsome)
    obtain rfl : current = before := Option.some.inj (hcur.symm.trans hbefore)
    exact ⟨hafter, hmerged.untouched b hdates hfits.blocks⟩

end Runs

/-! ### Two pages, opened and saved in London in winter -/

/-- A server that reads the dates that `toISOString` writes, and no link. -/
def datesPlatform : Platform where
  isSafeHref := fun _ => false
  spelled := fun _ => ""
  date := fun
    | .string text => ((readInstant text.toList).filter (IsDate ·)).map storedAt
    | _ => none

theorem datesPlatform_readsDates : datesPlatform.ReadsDates := by
  intro time htime
  have hread : (readInstant (toISOString time).toList).filter (IsDate ·) = some time := by
    rw [toISOString, String.toList_ofList, readInstant_isoChars (year_of_isDate htime)]
    exact Option.filter_eq_some_iff.mpr ⟨rfl, decide_eq_true htime⟩
  generalize toISOString time = text at hread ⊢
  show ((readInstant text.toList).filter (IsDate ·)).map storedAt = _
  rw [hread, Option.map_some]

/-- A clock that shows UTC. -/
def winterBrowser : Browser := ⟨Zone.fixed 0, fun _ => none⟩

/-- 2026-12-01T09:00:27.125Z, as it is stored. -/
def winterNow : Nat := storedAt 1796115627125

def winterMoment : Moment :=
  ⟨winterNow, ⟨1, 101, winterNow⟩, ⟨fun _ => 500, fun _ => winterNow, winterNow⟩, .asFound⟩

/-- The screen of the one page there is. -/
def winterScreen : EditorScreen := ⟨"page", some 1, "en", none⟩

/-- A page as the publisher is sent it. -/
def winterSummary (row : ContentRow) : ContentSummary :=
  (serializeContent (defineContentType datesPlatform.isSafeHref pageOptions) publisher row).summary

/-- The request that saving the page of the winter sends. -/
def winterSave (page : ContentSummary) : WriteRequest :=
  (winterBrowser.untouchedSave [] winterScreen page).getD (.delete "page" none)

def winterRequests (body : Meta) (page : ContentSummary) : List WriteRequest :=
  [.post "page" body, winterSave page]

def winterLife (body : Meta) (page : ContentSummary) : List (Action Call Nat) :=
  ((winterRequests body page).zip [4, 7]).flatMap fun (request, n) =>
    wholeCall 0 (callOf datesPlatform publisher winterMoment request) n

/-- A page is created, opened as it then is, and saved. -/
theorem winter_save {body : Meta} {page : ContentSummary} {check : ContentRow → ContentRow → Bool}
    (heval : ((Machine.start (Database.empty []) : ContentMachine Nat).steps engine program
      (winterLife body page)).any (fun m => m.log.head?.any fun e =>
        (e.found.content 1).any fun before => (e.left.content 1).any fun after =>
          winterSummary before = page && check before after) = true)
    (hcalls : ((Machine.start (Database.empty []) : ContentMachine Nat).steps engine program
      (winterLife body page)).map (fun m => m.log.map (·.call)) =
        some ((winterRequests body page).map (callOf datesPlatform publisher winterMoment)).reverse)
    (hsaves : (winterBrowser.untouchedSave [] winterScreen page).isSome = true)
    (hok : ((winterSave page).handle datesPlatform (fun _ => true) publisher winterMoment
      (Database.empty [])).isOk = true) :
    ∃ (m : ContentMachine Nat) (e : Committed Database Call (List ContentRow))
      (before after : ContentRow),
      Run engine program (fun _ => True) (.start (Database.empty [])) m ∧
      (∀ e ∈ m.log, Issued datesPlatform (fun _ => true) e.call) ∧ e ∈ m.log ∧
      e.found.content 1 = some before ∧
      winterBrowser.untouchedSave [] winterScreen (winterSummary before) =
        some (winterSave page) ∧
      (winterSave page).handle datesPlatform (fun _ => true) publisher winterMoment
        (Database.empty []) = .ok e.call ∧
      e.left.content 1 = some after ∧ check before after = true := by
  obtain ⟨m, e, before, after, hrun, hissued, he, hhandle, hbefore, hafter, hcheck⟩ :=
    callOf_last heval hcalls (List.getLast?_cons_cons ..) hok
  rw [Bool.and_eq_true, decide_eq_true_eq] at hcheck
  obtain ⟨hpage, hcheck⟩ := hcheck
  obtain ⟨request, hrequest⟩ := Option.isSome_iff_exists.mp hsaves
  refine ⟨m, e, before, after, hrun, hissued, he, hbefore, ?_, hhandle, hafter, hcheck⟩
  rw [hpage, winterSave, hrequest]
  rfl

/-- A page whose date is a minute. -/
def datedBody : Meta :=
  [("locale", .string "en"), ("slug", .string "about"), ("title", .string "About"),
    ("excerpt", .string "First"), ("status", .string "published"),
    ("publishedAt", .string "2026-12-01T09:00:00.000Z")]

def datedPage : ContentSummary where
  slug := "about"
  status := .published
  title := "About"
  excerpt := some "First"
  blocks := []
  publishedAt := some "2026-12-01T09:00:00.000Z"
  version := 1

/-- A page that is saved untouched, with a date that is a minute, is saved as it was. -/
theorem untouched_save_iff_dated : ∃ (m : ContentMachine Nat)
    (e : Committed Database Call (List ContentRow)) (current row : ContentRow),
    Run engine program (fun _ => True) (.start (Database.empty [])) m ∧ e ∈ m.log ∧
    e.found.content 1 = some current ∧ e.left.content 1 = some row ∧
    row.version ≠ current.version ∧ row.toColumns = current.toColumns := by
  obtain ⟨m, e, before, after, hrun, hissued, he, hbefore, hsave, hhandle, hafter, hcheck⟩ :=
    @winter_save datedBody datedPage (fun before after => before.excerpt = some "First" ∧
      before.publishedAt = some (storedAt 1796115600000) ∧ after.version ≠ before.version)
      (by decide +kernel) rfl (by decide +kernel) (by decide +kernel)
  obtain ⟨hexcerpt, hdate, hversion⟩ := of_decide_eq_true hcheck
  have hanswer : e.answer = [after] := by
    rcases @accepted_patch _ _ _ _ _ _ _ "page" 1 _ _ _ _ hrun hissued he hhandle with
      ⟨-, hleft⟩ | ⟨options, -, current, row, -, -, hrow, -, hanswer, -⟩
    · rw [hleft, hbefore] at hafter
      exact absurd (congrArg ContentRow.version (Option.some.inj hafter).symm) hversion
    · rw [hanswer, Option.some.inj (hrow.symm.trans hafter)]
  have hkeeps : winterBrowser.Keeps before.toColumns := by
    rw [Browser.Keeps, hexcerpt, hdate]
    refine ⟨by decide, fun date hmem => ?_⟩
    rw [← Option.some.inj hmem, timeOf_storedAt (by decide)]
    refine ⟨by decide, ?_⟩
    rw [if_pos (by decide +kernel)]
    exact (Zone.fixed_names_iff 0 _).mpr (by decide)
  exact ⟨m, e, before, after, hrun, he, hbefore, hafter, hversion,
    (untouched_save_iff winterBrowser hrun hissued he datesPlatform_readsDates rfl hbefore hsave
      hhandle hanswer).2.2.mpr hkeeps⟩

/-- A page that the server stamps. -/
def stampedBody : Meta :=
  [("locale", .string "en"), ("slug", .string "about"), ("title", .string "About"),
    ("status", .string "published")]

def stampedPage : ContentSummary where
  slug := "about"
  status := .published
  title := "About"
  excerpt := none
  blocks := []
  publishedAt := some "2026-12-01T09:00:27.125Z"
  version := 1

/-- **A save that touched nothing moves a publication**: the seconds that the field does
not show are gone. -/
theorem untouched_save_moves_date : ∃ (m : ContentMachine Nat)
    (e : Committed Database Call (List ContentRow)) (current row : ContentRow)
    (request : WriteRequest),
    Run engine program (fun _ => True) (.start (Database.empty [])) m ∧
    (∀ e ∈ m.log, Issued datesPlatform (fun _ => true) e.call) ∧ e ∈ m.log ∧
    datesPlatform.ReadsDates ∧ e.found.content 1 = some current ∧
    (current.blocks.map Block.id).Nodup ∧
    winterBrowser.untouchedSave [] winterScreen (winterSummary current) = some request ∧
    request.handle datesPlatform (fun _ => true) publisher winterMoment (Database.empty []) =
      .ok e.call ∧
    e.left.content 1 = some row ∧ row.version ≠ current.version ∧
    current.publishedAt = some (storedAt 1796115627125) ∧
    row.publishedAt = some (storedAt 1796115600000) ∧
    ¬ winterBrowser.fromLocalInput (winterBrowser.toLocalInput (some (toISOString 1796115627125))) =
      some (toISOString 1796115627125) := by
  obtain ⟨m, e, before, after, hrun, hissued, he, hbefore, hsave, hhandle, hafter, hcheck⟩ :=
    @winter_save stampedBody stampedPage (fun before after => before.blocks = [] ∧
      after.version ≠ before.version ∧ before.publishedAt = some (storedAt 1796115627125) ∧
      after.publishedAt = some (storedAt 1796115600000))
      (by decide +kernel) rfl (by decide +kernel) (by decide +kernel)
  obtain ⟨hblocks, hversion, hfound, hleft⟩ := of_decide_eq_true hcheck
  exact ⟨m, e, before, after, _, hrun, hissued, he, datesPlatform_readsDates, hbefore,
    by rw [hblocks]; exact List.nodup_nil, hsave, hhandle, hafter, hversion, hfound, hleft,
    by decide +kernel⟩

end PressLabz
