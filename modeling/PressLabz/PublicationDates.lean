import PressLabz.ContentPatch

/-! # When a publication is stamped

`stampPublication` gives a document that is published without a date the moment of
the request.  POST asks it of a state whose nulls are gone; PATCH asks it of a merge
in which a null still stands for "clear this", and compares the date with `undefined`
alone.  So a PATCH that publishes and carries `publishedAt: null` stores a published
document without a date, and it is the only one of the two that does
(`stamped_iff`).
-/
namespace PressLabz
open RowLocks

/-- POST and PATCH. -/
def WriteRequest.isSave : WriteRequest → Bool
  | .post _ _ => true
  | .patch _ _ _ => true
  | _ => false

/-- The body of a request; a deletion has none. -/
def WriteRequest.body : WriteRequest → Meta
  | .post _ body => body
  | .patch _ _ body => body
  | .restore _ _ body => body
  | .delete _ _ => []

/-- A patch that carries `publishedAt: null`. -/
def WriteRequest.ClearsDate : WriteRequest → Prop
  | .patch _ _ body => body.lookup "publishedAt" = some .null
  | _ => False

/-- A commit takes a document from not being there, or from another status, into
`published`. -/
structure EntersPublished (e : Committed Database Call (List ContentRow)) (id : Uuid)
    (row : ContentRow) : Prop where
  after : e.left.content id = some row
  published : row.status = .published
  before : ∀ current, e.found.content id = some current → current.status ≠ .published

/-- The date of a publication: the one the request gives, else the stored one, else
the moment of the request, which is also what a null stands for. -/
def entryDate (p : Platform) (body : Meta) (stored : Option Nat) (now : Nat) : Option Nat :=
  match body.lookup "publishedAt" with
  | none => some (stored.getD now)
  | some .null => some now
  | some value => p.date value

/-- The committed row has a date, and it is that one. -/
def IsStamped (p : Platform) (request : WriteRequest) (moment : Moment)
    (e : Committed Database Call (List ContentRow)) (id : Uuid) (row : ContentRow) : Prop :=
  row.publishedAt ≠ none ∧ row.publishedAt =
    entryDate p request.body ((e.found.content id).bind (·.publishedAt)) moment.now

/-! ## The two routes -/

theorem stampPublication_published {state : ContentState} (h : state.status = .published)
    (now : Nat) :
    (stampPublication state now).publishedAt = some (state.publishedAt.getD now) := by
  rw [stampPublication]
  cases hdate : state.publishedAt with
  | none => simp [h]
  | some date => simp [hdate]

theorem lookup_withoutVersion {name : String} (h : name ≠ "expectedVersion") (body : Meta) :
    (withoutVersion body).lookup name = body.lookup name := by
  rw [withoutVersion]
  induction body with
  | nil => rfl
  | cons entry rest ih =>
    obtain ⟨key, value⟩ := entry
    by_cases hkey : key = "expectedVersion"
    · subst hkey
      rw [List.filter_cons_of_neg (by simp), ih, List.lookup_cons, beq_false_of_ne h]
    · rw [List.filter_cons_of_pos (by simpa using hkey), List.lookup_cons, List.lookup_cons, ih]

section Dates
variable {p : Platform} {body : Meta} {now : Nat} {stored : Option Nat}

theorem entryDate_withoutVersion :
    entryDate p (withoutVersion body) stored now = entryDate p body stored now := by
  unfold entryDate
  rw [lookup_withoutVersion (by decide)]

/-- **A creation** that is published has the date of an entry: its null is gone before
the stamp is asked for. -/
theorem created_date {options : ContentTypeOptions} {created : CreateBody}
    (h : options.createSchema p body = some created) (hstatus : created.state.status = .published) :
    (stampPublication created.state now).publishedAt = entryDate p body none now := by
  obtain ⟨fields, hread, -, -, -, -, -, -, hdate, -, -⟩ := options.create_read h
  rw [stampPublication_published hstatus, hdate, entryDate]
  rcases nullishField_cases hread.publishedAt with ⟨hnone, h⟩ | ⟨hnull, h⟩ |
    ⟨value, date, hvalue, hnot, hparsed, h⟩
  · rw [hnone, h]
    rfl
  · rw [hnull, h]
    rfl
  · rw [hvalue, h]
    cases value with
    | null => exact absurd rfl hnot
    | _ => exact hparsed.symm

/-- **A merge** that enters `published` has the date of an entry, unless it clears it. -/
theorem merged_date {before after : Columns} (hentered : before.status ≠ .published)
    (hpublished : after.status = .published)
    (h : SetOrCleared p.date "publishedAt" body (dateOnEntry now before after.status)
      after.publishedAt) :
    (after.publishedAt ≠ none ∧ after.publishedAt = entryDate p body before.publishedAt now) ↔
      body.lookup "publishedAt" ≠ some .null := by
  unfold SetOrCleared at h
  unfold entryDate
  cases hlookup : body.lookup "publishedAt" with
  | none =>
    rw [hlookup] at h
    have hdate : after.publishedAt = some (before.publishedAt.getD now) := by
      rw [show after.publishedAt = _ from h, dateOnEntry]
      cases before.publishedAt with
      | none => simp [hentered, hpublished]
      | some date => simp
    simp [hdate]
  | some value =>
    rw [hlookup] at h
    cases value with
    | null =>
      -- the null is still in the merge when the stamp is asked for, and keeps it away
      have hdate : after.publishedAt = none := h
      simp [hdate]
    | _ =>
      obtain ⟨date, hparsed, hdate⟩ := h
      simp [hdate, hparsed]

end Dates

section Runs
variable {I : Type} [DecidableEq I] {«media» : List MediaRow} {m : ContentMachine I} {p : Platform}
  {servesLocale : String → Bool} {e : Committed Database Call (List ContentRow)}
  {request : WriteRequest} {actor : Actor} {moment : Moment} {db : Database} {id : Uuid}
  {row : ContentRow}

/-- **Publishing stamps a moment**, in every run, unless a PATCH carries
`publishedAt: null`. -/
theorem stamped_iff
    (hrun : Run engine program (fun _ => True) (.start (Database.empty «media»)) m)
    (hissued : ∀ e ∈ m.log, Issued p servesLocale e.call) (he : e ∈ m.log)
    (hsave : request.isSave = true)
    (hhandle : request.handle p servesLocale actor moment db = .ok e.call)
    (henters : EntersPublished e id row) :
    IsStamped p request moment e id row ↔ ¬ request.ClearsDate := by
  cases request with
  | post name body =>
    obtain ⟨options, -, created, join, -, hcreated, hcall⟩ := WriteRequest.handle_post hhandle
    have hpost := (run_log (empty_inv «media») hrun e he).post
    rw [hcall] at hpost
    obtain ⟨-, hnew, -, hleft⟩ := hpost
    have hafter := henters.after
    rw [hleft, content_created] at hafter
    split at hafter
    · rename_i hid
      obtain rfl := Option.some.inj hafter
      have hstatus : created.state.status = .published :=
        (stampPublication_status created.state moment.now).symm.trans henters.published
      refine ⟨fun _ h => h, fun _ => ?_⟩
      rw [IsStamped, ← hid, hnew]
      have hdate : (stampPublication created.state moment.now).publishedAt =
          entryDate p body none moment.now := created_date hcreated hstatus
      refine ⟨?_, hdate⟩
      show (stampPublication created.state moment.now).publishedAt ≠ none
      rw [stampPublication_published hstatus]
      exact Option.some_ne_none _
    · exact absurd henters.published (henters.before row hafter)
  | patch name docId body =>
    obtain ⟨_, _, docId, _, _, _, rfl, -⟩ := WriteRequest.handle_patch hhandle
    -- the document has changed, so that the save found it
    have hbefore : ¬ e.left.content id = e.found.content id := fun hsame =>
      henters.before row (hsame ▸ henters.after) henters.published
    rcases accepted_patch hrun hissued he hhandle with ⟨-, hleft⟩ |
      ⟨options, -, current, after, -, hcur, hafter, hothers, -, hmerged⟩
    · exact absurd (congrArg (·.content id) hleft) hbefore
    · obtain rfl : id = docId := by_contra fun hne => hbefore (hothers id hne)
      obtain rfl := Option.some.inj (henters.after.symm.trans hafter)
      rw [IsStamped, hcur]
      have hdate := merged_date (henters.before current hcur) henters.published hmerged.publishedAt
      rw [entryDate_withoutVersion, lookup_withoutVersion (by decide)] at hdate
      exact hdate
  | restore name ids body => cases hsave
  | delete name docId => cases hsave

end Runs
/-! ### Publishing from the editor -/

/-- A draft without a date, and what the editor sends when the draft is published: the
fields of the screen, the empty ones as null. -/
def publishedDraft : List WriteRequest :=
  [.post "page" [("locale", .string "en"), ("slug", .string "about"), ("title", .string "About")],
    .patch "page" (some 1) [("slug", .string "about"), ("title", .string "About"),
      ("status", .string "published"), ("blocks", .array []), ("excerpt", .null),
      ("publishedAt", .null), ("expectedVersion", .number 1)]]

def publishedDraftLife : List (Action Call Nat) :=
  (publishedDraft.zip [4, 7]).flatMap fun (request, n) => wholeCall 0 (publisherCall request) n

/-- **Published without a date**: the editor publishes a draft whose date is empty. -/
theorem published_without_date : ∃ (m : ContentMachine Nat)
    (e : Committed Database Call (List ContentRow)) (request : WriteRequest) (row : ContentRow),
    Run engine program (fun _ => True) (.start (Database.empty [])) m ∧
    (∀ e ∈ m.log, Issued plainPlatform (fun _ => true) e.call) ∧ e ∈ m.log ∧
    request.isSave = true ∧
    request.handle plainPlatform (fun _ => true) publisher publisherMoment (Database.empty []) =
      .ok e.call ∧
    EntersPublished e 1 row ∧ row.publishedAt = none ∧
    ¬ IsStamped plainPlatform request publisherMoment e 1 row := by
  have heval : ((Machine.start (Database.empty []) : ContentMachine Nat).steps engine program
      publishedDraftLife).any (fun m => m.log.head?.any fun e =>
        (e.found.content 1).any fun before => (e.left.content 1).any fun after =>
          before.status ≠ .published ∧ after.status = .published ∧ after.publishedAt = none)
      = true := by decide +kernel
  obtain ⟨m, e, before, row, hrun, hissued, he, hhandle, hbefore, hafter, hcheck⟩ :=
    @callOf_last plainPlatform publisher publisherMoment _ publishedDraft _ _ heval rfl rfl
      (by decide +kernel)
  obtain ⟨hdraft, hpublished, hdate⟩ := of_decide_eq_true hcheck
  refine ⟨m, e, _, row, hrun, hissued, he, rfl, hhandle, ⟨hafter, hpublished, ?_⟩, hdate,
    fun h => h.1 hdate⟩
  intro current hcurrent
  obtain rfl := Option.some.inj (hbefore.symm.trans hcurrent)
  exact hdraft

/-- A post that is published by a patch without a date is stamped. -/
theorem stamped_iff_patchedPost : ∃ (m : ContentMachine Nat)
    (e : Committed Database Call (List ContentRow)) (request : WriteRequest) (row : ContentRow),
    Run engine program (fun _ => True) (.start (Database.empty [])) m ∧ e ∈ m.log ∧
    EntersPublished e 1 row ∧ IsStamped plainPlatform request publisherMoment e 1 row := by
  have heval : ((Machine.start (Database.empty []) : ContentMachine Nat).steps engine program
      patchedPostLife).any (fun m => m.log.head?.any fun e =>
        (e.found.content 1).any fun before => (e.left.content 1).any fun after =>
          before.status ≠ .published ∧ after.status = .published) = true := by decide +kernel
  obtain ⟨m, e, before, row, hrun, hissued, he, hhandle, hbefore, hafter, hcheck⟩ :=
    @callOf_last plainPlatform publisher publisherMoment _ patchedPost _ _ heval rfl rfl
      (by decide +kernel)
  obtain ⟨hdraft, hpublished⟩ := of_decide_eq_true hcheck
  have henters : EntersPublished e 1 row := by
    refine ⟨hafter, hpublished, fun current hcurrent => ?_⟩
    obtain rfl := Option.some.inj (hbefore.symm.trans hcurrent)
    exact hdraft
  exact ⟨m, e, _, row, hrun, he, henters,
    (stamped_iff hrun hissued he rfl hhandle henters).mpr fun h => nomatch h⟩

end PressLabz
