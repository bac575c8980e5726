import PressLabz.Database

/-! # What a write announces

`packages/core/src/hooks.events.ts`: the event of a document, and which
announcements a write makes.  One write can be two of them: an edit that also
publishes is announced as both.
-/
namespace PressLabz

/-- The keys of `CoreActions`. -/
inductive ActionName where
  | contentCreated | contentUpdated | contentPublished | contentUnpublished | contentDeleted
  | mediaUploaded | mediaUpdated | mediaDeleted
  deriving DecidableEq

structure ContentEvent where
  id : Uuid
  type : String
  locale : String
  translationGroupId : Uuid
  slug : String
  title : String
  status : ContentStatus
  publishedAt : Option Nat
  authorId : Option Uuid
  deriving DecidableEq

structure ContentTransition extends ContentEvent where
  /-- What the document was before this write. -/
  previousStatus : ContentStatus
  deriving DecidableEq

/-- One announcement of a write. -/
structure Announcement where
  name : ActionName
  payload : ContentTransition
  deriving DecidableEq

/-- The event a write announces, reduced to what an extension may see. -/
def contentEventOf (row : ContentRow) : ContentEvent where
  id := row.id
  type := row.type
  locale := row.locale
  translationGroupId := row.translationGroupId
  slug := row.slug
  title := row.title
  status := row.status
  publishedAt := row.publishedAt
  authorId := row.authorId

/-- `transitionsFor`: the announcements that a write makes. -/
def transitionsFor (previousStatus : ContentStatus) (event : ContentEvent) : List Announcement :=
  let payload : ContentTransition := { event with previousStatus := previousStatus }
  let wasPublic := previousStatus = .published
  let isPublic := event.status = .published
  [⟨.contentUpdated, payload⟩] ++
    (if ¬ wasPublic ∧ isPublic then [⟨.contentPublished, payload⟩] else []) ++
    (if wasPublic ∧ ¬ isPublic then [⟨.contentUnpublished, payload⟩] else [])

variable {previousStatus : ContentStatus} {event : ContentEvent}

/-- Every announcement carries the event, and what the document was before. -/
theorem transitionsFor_payload : ∀ a ∈ transitionsFor previousStatus event,
    a.payload = { event with previousStatus := previousStatus } := by
  intro a ha
  unfold transitionsFor at ha
  simp only [List.mem_append, List.mem_singleton] at ha
  rcases ha with (rfl | ha) | ha
  · rfl
  · split at ha
    · exact List.mem_singleton.mp ha ▸ rfl
    · cases ha
  · split at ha
    · exact List.mem_singleton.mp ha ▸ rfl
    · cases ha

/-- A publication is announced exactly when a document becomes public. -/
theorem published_mem_transitionsFor :
    .contentPublished ∈ (transitionsFor previousStatus event).map (·.name) ↔
      previousStatus ≠ .published ∧ event.status = .published := by
  unfold transitionsFor
  by_cases hwas : previousStatus = .published
  · by_cases his : event.status = .published
    · simp [hwas, his]
    · simp [hwas, his]
  · by_cases his : event.status = .published
    · simp [hwas, his]
    · simp [hwas, his]

/-- A scheduled document that went live is announced as an edit that publishes. -/
theorem transitionsFor_publication (h : event.status = .published) :
    transitionsFor .scheduled event =
      [⟨.contentUpdated, { event with previousStatus := .scheduled }⟩,
        ⟨.contentPublished, { event with previousStatus := .scheduled }⟩] := by
  unfold transitionsFor
  simp [h]

end PressLabz
