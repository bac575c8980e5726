import PressLabz.CacheInvalidation
import PressLabz.ContentRoutes

/-! # What the announcements say of the published set

Requests to the write routes and passes of the scheduler, one after the other
from an empty database, each with what it emits; and a handler that keeps the ids
that `content:published` named and neither `content:unpublished` nor
`content:deleted` has taken back.

What one write does to the handler is read off the postcondition of its call
(`hear_commit`): PATCH, restore, DELETE and the scheduler keep the handler at
the published set.  POST announces `content:created` and nothing else, so a
document that is created published is published without the handler being told.
-/
namespace PressLabz
open RowLocks

/-! ## Writes, one after the other -/

/-- A request of somebody signed in, or a pass of the scheduler. -/
inductive ContentWrite where
  | request (actor : Actor) (moment : Moment) (body : ContentRequest)
  | pass (now : Nat) (stamps : Stamps)

/-- What came of a write: the rows it answered, none if it was refused, the database it
left, and what was emitted. -/
structure Performed where
  answer : List ContentRow
  left : Database
  announced : List CoreEvent

/-- A write that threw, or was refused before it began. -/
def Performed.refused (db : Database) : Performed := ⟨[], db, []⟩

/-- The transaction of a call, and the emissions after it.  A throw and a violated
constraint roll back, and skip the emissions. -/
def Call.perform (call : Call) (db : Database) : Performed :=
  match (program call).alone db with
  | .error _ => .refused db
  | .ok (answer, left) =>
    if engine.valid left then ⟨answer, left, emitted db call answer⟩ else .refused db

def ContentWrite.perform (installation : Installation) (db : Database) :
    ContentWrite → Performed
  | .pass now stamps => (Call.publishDueContent now stamps).perform db
  | .request actor moment body =>
    match body.handle installation actor moment db with
    | .error _ => .refused db
    | .ok call => call.perform db

/-! ## The handler -/

/-- One announcement, heard by a handler that keeps ids. -/
def hear (ids : Uuid → Bool) : CoreEvent → Uuid → Bool
  | .content .contentPublished event => Function.update ids event.id true
  | .content .contentUnpublished event => Function.update ids event.id false
  | .content .contentDeleted event => Function.update ids event.id false
  | _ => ids

/-- The database, and what the handler holds. -/
structure Followed where
  db : Database
  ids : Uuid → Bool

namespace Followed

def start («media» : List MediaRow) : Followed := ⟨Database.empty «media», fun _ => false⟩

variable (installation : Installation)

def write (s : Followed) (w : ContentWrite) : Followed :=
  let performed := w.perform installation s.db
  ⟨performed.left, performed.announced.foldl hear s.ids⟩

/-- `P` is so at each write of a run, of the state it finds. -/
def AtEach (P : Followed → ContentWrite → Prop) (s : Followed) : List ContentWrite → Prop
  | [] => True
  | w :: rest => P s w ∧ AtEach P (s.write installation w) rest

end Followed

def Database.isPublished (db : Database) (id : Uuid) : Bool :=
  (db.content id).any (·.status = .published)

/-- The handler holds exactly the ids of the published documents. -/
def Followed.Tracks (s : Followed) : Prop := ∀ id, s.ids id = s.db.isPublished id

/-! ## What a call emits -/

/-- What a call that was performed did: it was refused, or committed. -/
theorem Call.perform_cases {db : Database} (hinv : ContentsInv db) (call : Call) :
    call.perform db = .refused db ∨
      ∃ answer left, ContentsInv left ∧ Post call answer db left ∧
        call.perform db = ⟨answer, left, emitted db call answer⟩ := by
  rw [Call.perform]
  split
  · exact .inl rfl
  · rename_i answer left halone
    split
    · rename_i hvalid
      have hside : (contentsDiscipline AnyOrder).side call db :=
        List.pairwise_of_forall fun _ _ => .inr trivial
      obtain ⟨hleft, -, hpost⟩ := (verified AnyOrder).alone hinv hside halone hvalid
      exact .inr ⟨answer, left, hleft, hpost, rfl⟩
    · exact .inl rfl

section Emissions
variable {ids : Uuid → Bool} {db left : Database} {call : Call} {answer : List ContentRow}

/-- The announcements of a transition take the handler to where the document is. -/
theorem hear_transitions {previousStatus : ContentStatus} {row : ContentRow} {id : Uuid}
    (hid : row.id = id) (h : ids id = decide (previousStatus = .published)) :
    ((transitionsFor previousStatus (contentEventOf row)).map fun a =>
      CoreEvent.content a.name a.payload.toContentEvent).foldl hear ids =
      Function.update ids id (decide (row.status = .published)) := by
  have hevent : (contentEventOf row).id = id := hid
  have hstatus : (contentEventOf row).status = row.status := rfl
  unfold transitionsFor
  by_cases hwas : previousStatus = .published
  · by_cases his : row.status = .published
    · simp [hwas, hstatus, his, hear, h]
    · simp [hwas, hstatus, his, hear, hevent]
  · by_cases his : row.status = .published
    · simp [hwas, hstatus, his, hear, hevent]
    · simp [hwas, hstatus, his, hear, h]

/-- Every row of a pass was scheduled, and goes on the list. -/
theorem hear_pass {now : Nat} {stamps : Stamps} {rows : List ContentRow}
    (hnodup : (rows.map (·.id)).Nodup) (hpublished : ∀ r ∈ rows, r.status = .published)
    (hids : ∀ r ∈ rows, ids r.id = false) (id : Uuid) :
    (emitted db (.publishDueContent now stamps) rows).foldl hear ids id =
      (ids id || rows.any (·.id = id)) := by
  induction rows generalizing ids with
  | nil => simp [emitted]
  | cons r rest ih =>
    obtain ⟨hnot, hrest⟩ := List.nodup_cons.mp hnodup
    have hne : ∀ x ∈ rest, x.id ≠ r.id := fun x hx heq =>
      hnot (List.mem_map.mpr ⟨x, hx, heq⟩)
    have hoff : ids r.id = decide (ContentStatus.scheduled = .published) :=
      hids r List.mem_cons_self
    have hhead := hear_transitions (Eq.refl r.id) hoff
    rw [emitted, List.flatMap_cons, List.foldl_append, hhead,
      hpublished r List.mem_cons_self]
    refine (ih hrest (fun x hx => hpublished x (List.mem_cons_of_mem _ hx)) fun x hx => ?_).trans ?_
    · rw [Function.update_of_ne (hne x hx)]
      exact hids x (List.mem_cons_of_mem _ hx)
    · by_cases hid : id = r.id
      · simp [hid]
      · simp [hid, Ne.symm hid]

/-- The call creates a document that is published from the start. -/
def Call.createsPublished : Call → Bool
  | .createContent input _ => input.state.status = .published
  | _ => false

/-! ### The published documents after a commit -/

theorem isPublished_created {input : CreateContentInput} {fresh : Fresh} :
    (db.created input fresh).isPublished =
      Function.update db.isPublished fresh.id (decide (input.state.status = .published)) := by
  funext id
  rw [Function.update_apply, Database.isPublished]
  split
  · rename_i hid
    rw [hid, content_created, if_pos rfl]
    rfl
  · rename_i hid
    rw [content_created_of_ne hid, Database.isPublished]

theorem isPublished_updated {type : AnyContentType} {current : ContentRow} {next : ContentState}
    {stamps : Stamps} (hcur : db.content current.id = some current) :
    (db.updated type current next stamps).isPublished =
      Function.update db.isPublished current.id (decide (next.status = .published)) := by
  funext id
  rw [Function.update_apply, Database.isPublished]
  split
  · rename_i hid
    rw [hid, content_updated hcur]
    rfl
  · rename_i hid
    rw [content_updated_of_ne hid, Database.isPublished]

/-- A document that is removed is the only one whose publication ends: its children lose
their parent, and keep their status. -/
theorem isPublished_removed {current : ContentRow} :
    (db.removed current).isPublished = Function.update db.isPublished current.id false := by
  funext id
  rw [Function.update_apply, Database.isPublished, content_removed, content_withoutDocument]
  split
  · rfl
  · rw [Option.any_map, Database.isPublished]
    congr 1
    funext r
    by_cases hchild : r.parentId = some current.id
    · simp [hchild, ContentRow.put, ContentRow.detached]
    · simp [hchild]

theorem isPublished_publishEach {stamps : Stamps} {claimed : List ContentRow}
    (hnodup : (claimed.map (·.id)).Nodup) (hrow : ∀ r ∈ claimed, db.content r.id = some r)
    (id : Uuid) : (claimed.foldl (·.published stamps) db).isPublished id =
      (db.isPublished id || claimed.any (·.id = id)) := by
  by_cases hid : ∃ r ∈ claimed, r.id = id
  · obtain ⟨r, hr, rfl⟩ := hid
    have hany : claimed.any (·.id = r.id) = true :=
      List.any_eq_true.mpr ⟨r, hr, decide_eq_true rfl⟩
    rw [hany, Bool.or_true, Database.isPublished, (publishEach_written stamps hnodup hrow hr).1]
    rfl
  · have hany : claimed.any (·.id = id) = false :=
      List.any_eq_false.mpr fun r hr heq => hid ⟨r, hr, of_decide_eq_true heq⟩
    obtain ⟨-, -, hdocs, -⟩ := publishEach_frame stamps hnodup hrow
    have hframe := hdocs id fun r hr heq => hid ⟨r, hr, heq⟩
    rw [hany, Bool.or_false, Database.isPublished, Database.isPublished, hframe.content]

/-- **What a commit does to the handler**: it holds the published set again, unless
the commit created a published document. -/
theorem hear_commit (hpost : Post call answer db left)
    (htracks : ∀ id, ids id = db.isPublished id) :
    (∀ id, (emitted db call answer).foldl hear ids id = left.isPublished id) ↔
      call.createsPublished = false := by
  obtain rfl : ids = db.isPublished := funext htracks
  cases call with
  | createContent input fresh =>
    -- the handler hears nothing that moves it
    obtain ⟨rfl, hnew, -, rfl⟩ := hpost
    have hnone : db.isPublished fresh.id = false := by
      rw [Database.isPublished, hnew]
      rfl
    rw [isPublished_created, Call.createsPublished]
    constructor
    · intro h
      have hid : db.isPublished fresh.id = _ := h fresh.id
      rw [← hnone, hid, Function.update_self]
    · intro h id
      rw [h, ← hnone, Function.update_eq_self]
      rfl
  | updateContent type docId patch options stamps =>
    refine iff_of_true (fun id => ?_) rfl
    rcases hpost with ⟨rfl, rfl⟩ | ⟨current, next, hcur, -, rfl, rfl⟩
    · rfl
    · obtain rfl : current.id = docId := Database.id_of_content hcur
      -- the announcements compare with the status the update found
      have hwas : db.isPublished current.id = decide (current.status = .published) := by
        rw [Database.isPublished, hcur]
        rfl
      have hheard := hear_transitions
        (show (current.put (next.write current stamps)).id = current.id from rfl) hwas
      rw [emitted, List.flatMap_singleton, hcur, Option.map_some, Option.getD_some, hheard,
        isPublished_updated hcur]
      rfl
  | deleteContent docId authorize =>
    refine iff_of_true (fun id => ?_) rfl
    rcases hpost with ⟨rfl, rfl⟩ | ⟨current, hcur, -, rfl, rfl⟩
    · rfl
    · rw [isPublished_removed]
      rfl
  | publishDueContent now stamps =>
    refine iff_of_true (fun id => ?_) rfl
    obtain ⟨claimed, hnodup, hrows, rfl, rfl⟩ := hpost
    have hrow : ∀ r ∈ claimed, db.content r.id = some r := fun r hr => (hrows r hr).1
    -- what is due is scheduled, and so not published yet
    have hwas : ∀ r ∈ claimed, db.isPublished r.id = false := by
      intro r hr
      have hdue := (hrows r hr).2
      rw [isDue, Bool.and_eq_true, decide_eq_true_eq] at hdue
      rw [Database.isPublished, hrow r hr, Option.any_some, hdue.1]
      rfl
    rw [hear_pass (by simpa [Function.comp_def] using hnodup)
      (by simp [ContentRow.put, ContentRow.publication])
      (by simpa [ContentRow.put] using hwas), isPublished_publishEach hnodup hrow, List.any_map]
    rfl

/-- **A publication is announced of a document that was not published.** -/
theorem published_preceded (hpost : Post call answer db left) {event : ContentEvent}
    (hevent : .content .contentPublished event ∈ emitted db call answer) :
    ∃ row, db.content event.id = some row ∧ row.status ≠ .published := by
  -- an announcement of a publication, among those of a transition
  have htransition {row : ContentRow} {previousStatus : ContentStatus}
      (h : CoreEvent.content .contentPublished event ∈
        (transitionsFor previousStatus (contentEventOf row)).map fun a =>
          CoreEvent.content a.name a.payload.toContentEvent) :
      event.id = row.id ∧ previousStatus ≠ .published := by
    obtain ⟨a, ha, heq⟩ := List.mem_map.mp h
    obtain ⟨hname, rfl⟩ := CoreEvent.content.inj heq
    have hmem : ActionName.contentPublished ∈
        (transitionsFor previousStatus (contentEventOf row)).map (·.name) :=
      List.mem_map.mpr ⟨a, ha, hname⟩
    exact ⟨by rw [transitionsFor_payload a ha]; rfl, (published_mem_transitionsFor.mp hmem).1⟩
  cases call with
  | createContent input fresh =>
    obtain ⟨_, _, heq⟩ := List.mem_map.mp hevent
    cases heq
  | updateContent type docId patch options stamps =>
    obtain ⟨row, hrow, hmem⟩ := List.mem_flatMap.mp hevent
    obtain ⟨hid, hwas⟩ := htransition hmem
    rcases hpost with ⟨rfl, -⟩ | ⟨current, next, hcur, -, rfl, -⟩
    · cases hrow
    · obtain rfl := List.mem_singleton.mp hrow
      obtain rfl : current.id = docId := Database.id_of_content hcur
      rw [hcur, Option.map_some, Option.getD_some] at hwas
      exact ⟨current, hid ▸ hcur, hwas⟩
  | deleteContent docId authorize =>
    obtain ⟨_, _, heq⟩ := List.mem_map.mp hevent
    cases heq
  | publishDueContent now stamps =>
    obtain ⟨row, hrow, hmem⟩ := List.mem_flatMap.mp hevent
    obtain ⟨hid, -⟩ := htransition hmem
    obtain ⟨claimed, -, hrows, rfl, -⟩ := hpost
    obtain ⟨r, hr, rfl⟩ := List.mem_map.mp hrow
    obtain ⟨hcontent, hdue⟩ := hrows r hr
    rw [isDue, Bool.and_eq_true, decide_eq_true_eq] at hdue
    exact ⟨r, hid ▸ hcontent, by simp [hdue.1]⟩

/-- What is refused, or finds nothing, writes nothing and is not announced. -/
theorem refused_silent (hpost : Post call answer db left) (hanswer : answer = []) :
    left = db ∧ emitted db call answer = [] := by
  subst hanswer
  cases call with
  | createContent input fresh =>
    obtain ⟨heq, -⟩ := hpost
    cases heq
  | updateContent type docId patch options stamps =>
    rcases hpost with ⟨-, rfl⟩ | ⟨current, next, -, -, heq, -⟩
    · exact ⟨rfl, rfl⟩
    · cases heq
  | deleteContent docId authorize =>
    rcases hpost with ⟨-, rfl⟩ | ⟨current, -, -, heq, -⟩
    · exact ⟨rfl, rfl⟩
    · cases heq
  | publishDueContent now stamps =>
    obtain ⟨claimed, -, -, heq, rfl⟩ := hpost
    obtain rfl := List.map_eq_nil_iff.mp heq.symm
    exact ⟨rfl, rfl⟩

end Emissions

/-! ## Requests -/

/-- A POST that asks for a published document. -/
def ContentRequest.createsPublished : ContentRequest → Bool
  | .post _ (some body) => body.state.status = .published
  | _ => false

/-- A write is a POST that asks for a published document. -/
def ContentWrite.createsPublished : ContentWrite → Bool
  | .request _ _ body => body.createsPublished
  | .pass _ _ => false

/-- A call asks for what its request does. -/
theorem ContentRequest.handle_createsPublished {installation : Installation} {actor : Actor}
    {moment : Moment} {db : Database} {request : ContentRequest} {call : Call}
    (h : request.handle installation actor moment db = .ok call) :
    call.createsPublished = request.createsPublished := by
  cases request with
  | post name body =>
    rw [ContentRequest.handle, handlePost] at h
    obtain ⟨type, -, h⟩ := resolveType_bind h
    split at h
    · cases h
    · split at h
      · cases h
      · split at h
        · cases h
        · -- the stamp is a date, and leaves the status alone
          cases h
          rw [Call.createsPublished, stampPublication_status]
          rfl
  | patch name id expectedVersion fields =>
    rw [ContentRequest.handle, handlePatch] at h
    obtain ⟨type, -, h⟩ := resolveType_bind h
    split at h
    · cases h
    · cases h
    · cases h
    · cases h
      rfl
  | restore name ids expectedVersion =>
    rw [ContentRequest.handle, handleRestore] at h
    obtain ⟨type, -, h⟩ := resolveType_bind h
    split at h
    · cases h
    · cases h
    · split at h
      · cases h
      · split at h
        · cases h
        · split at h
          · cases h
          · cases h
            rfl
  | delete name id =>
    rw [ContentRequest.handle, handleDelete] at h
    obtain ⟨type, -, h⟩ := resolveType_bind h
    split at h
    · cases h
    · cases h
      rfl

section Writes
variable {installation : Installation} {db : Database} {write : ContentWrite}

/-- What a write did: it was refused, or its call was committed. -/
theorem ContentWrite.perform_cases (installation : Installation) (hinv : ContentsInv db) :
    write.perform installation db = .refused db ∨
      ∃ call answer left, ContentsInv left ∧ Post call answer db left ∧
        call.createsPublished = write.createsPublished ∧
        write.perform installation db = ⟨answer, left, emitted db call answer⟩ := by
  have hcall (call : Call) (hcreates : call.createsPublished = write.createsPublished)
      (hperform : write.perform installation db = call.perform db) :
      write.perform installation db = .refused db ∨
        ∃ call answer left, ContentsInv left ∧ Post call answer db left ∧
          call.createsPublished = write.createsPublished ∧
          write.perform installation db = ⟨answer, left, emitted db call answer⟩ := by
    rw [hperform]
    rcases call.perform_cases hinv with h | ⟨answer, left, hleft, hpost, h⟩
    · exact .inl h
    · exact .inr ⟨call, answer, left, hleft, hpost, hcreates, h⟩
  cases write with
  | pass now stamps => exact hcall _ rfl rfl
  | request actor moment body =>
    cases hhandle : body.handle installation actor moment db with
    | error refusal =>
      left
      simp only [ContentWrite.perform, hhandle]
    | ok call =>
      refine hcall call (ContentRequest.handle_createsPublished hhandle) ?_
      simp only [ContentWrite.perform, hhandle]

end Writes

/-! ## Runs -/

namespace Followed
variable {installation : Installation} {s : Followed}

theorem write_inv (hinv : ContentsInv s.db) (write : ContentWrite) :
    ContentsInv (s.write installation write).db := by
  rcases write.perform_cases installation hinv with
    h | ⟨call, answer, left, hleft, -, -, h⟩
  · rw [Followed.write, h]
    exact hinv
  · rw [Followed.write, h]
    exact hleft

/-- What a handler may count on when a write is announced. -/
structure Announces (installation : Installation) (s : Followed) (write : ContentWrite) :
    Prop where
  tracks : (s.write installation write).Tracks
  preceded : ∀ event, .content .contentPublished event ∈
    (write.perform installation s.db).announced →
    ∃ row, s.db.content event.id = some row ∧ row.status ≠ .published
  silent : (write.perform installation s.db).answer = [] →
    (write.perform installation s.db).left = s.db ∧
      (write.perform installation s.db).announced = []

/-- A POST that is accepted, and asks for a published document. -/
def CreatesPublished (installation : Installation) (s : Followed) (write : ContentWrite) : Prop :=
  write.createsPublished = true ∧ (write.perform installation s.db).answer ≠ []

/-- **One write** is announced as handlers may count on exactly if it is no accepted POST
that asks for a published document. -/
theorem announces_iff (installation : Installation) (hinv : ContentsInv s.db)
    (htracks : s.Tracks) (write : ContentWrite) :
    Announces installation s write ↔ ¬ CreatesPublished installation s write := by
  rcases write.perform_cases installation hinv with
    h | ⟨call, answer, left, hleft, hpost, hcreates, h⟩
  · refine iff_of_true ⟨?_, ?_, ?_⟩ ?_
    · rw [Followed.write, h]
      exact htracks
    · rw [h]
      intro event hevent
      cases hevent
    · rw [h]
      exact fun _ => ⟨rfl, rfl⟩
    · rw [CreatesPublished, h]
      exact fun hno => hno.2 rfl
  · have hcommit := hear_commit hpost htracks
    -- a creation that was committed answers a document
    have hanswer : call.createsPublished = true → answer ≠ [] := by
      cases call with
      | createContent input fresh =>
        obtain ⟨rfl, -⟩ := hpost
        exact fun _ => List.cons_ne_nil _ _
      | updateContent => exact fun hno => by cases hno
      | deleteContent => exact fun hno => by cases hno
      | publishDueContent => exact fun hno => by cases hno
    have hiff : Announces installation s write ↔ call.createsPublished = false := by
      refine ⟨fun hann => hcommit.mp ?_, fun hno => ⟨?_, ?_, ?_⟩⟩
      · have := hann.tracks
        rwa [Followed.write, h] at this
      · rw [Followed.write, h]
        exact hcommit.mpr hno
      · rw [h]
        exact fun event => published_preceded hpost
      · rw [h]
        exact refused_silent hpost
    rw [hiff, CreatesPublished, h, ← hcreates, not_and_not_right]
    cases hc : call.createsPublished with
    | false => simp
    | true => simpa using hanswer hc

theorem start_tracks («media» : List MediaRow) : (start «media»).Tracks := fun _ => rfl

/-- A run from any state the handler is at. -/
theorem atEach_announces_iff (hinv : ContentsInv s.db) (htracks : s.Tracks)
    (writes : List ContentWrite) :
    AtEach installation (Announces installation) s writes ↔
      AtEach installation (fun s w => ¬ CreatesPublished installation s w) s writes := by
  induction writes generalizing s with
  | nil => exact Iff.rfl
  | cons w rest ih =>
    have hw := announces_iff installation hinv htracks w
    constructor
    · rintro ⟨hann, hrest⟩
      exact ⟨hw.mp hann, (ih (write_inv hinv w) hann.tracks).mp hrest⟩
    · rintro ⟨hno, hrest⟩
      have hann := hw.mpr hno
      exact ⟨hann, (ih (write_inv hinv w) hann.tracks).mpr hrest⟩

/-- **The announcements track the published set** at every write of a run from an
empty database, if and only if no POST of the run that asked for a published
document was accepted. -/
theorem announcements_track (installation : Installation) («media» : List MediaRow)
    (writes : List ContentWrite) :
    AtEach installation (Announces installation) (start «media») writes ↔
      AtEach installation (fun s w => ¬ CreatesPublished installation s w) (start «media»)
        writes :=
  atEach_announces_iff (empty_inv «media») (start_tracks «media») writes

/-- An editor. -/
def editor : Actor := ⟨[.contentRead, .contentCreate, .contentPublish], some 7⟩

/-- The editor's page, published as it is created. -/
def publishedAtOnce : ContentWrite :=
  .request editor ⟨3, ⟨1, 101, 3⟩, ⟨fun _ => 500, fun _ => 3, 3⟩, .asFound⟩
    (.post "page" (some ⟨"en", none, { emptyPage "about" none with status := .published }⟩))

/-- The page of the editor is published, and the handler was not told. -/
theorem publishedAtOnce_untold : ¬ ∀ (installation : Installation) («media» : List MediaRow)
    (writes : List ContentWrite),
    AtEach installation (Announces installation) (start «media») writes := by
  intro h
  have htracks := (h builtinSite [] [publishedAtOnce]).1.tracks 1
  have hids : ((start []).write builtinSite publishedAtOnce).ids 1 = false := by decide +kernel
  have hdb : ((start []).write builtinSite publishedAtOnce).db.isPublished 1 = true := by
    decide +kernel
  rw [hids, hdb] at htracks
  cases htracks

end Followed
end PressLabz
