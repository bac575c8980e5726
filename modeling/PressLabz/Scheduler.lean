import PressLabz.ContentEvents
import PressLabz.VersionHistory

/-! # The scheduler

`apps/api/src/content/scheduler.ts`: the timer of each API process, over one
database that other calls are written to at the same time.  A pass claims what
is due in one transaction, and then announces each row it got back, one by one;
an announcement that fails is logged, and the next one is made all the same.
While a pass runs, the timer of its process does nothing (`running`).

`Scheduling` is the processes (`N`), with the pass each of them is at, over the
machine of the database and whoever else is connected to it (`I`).  Clocks are
what each pass is given as its `now`.
-/
namespace PressLabz
open RowLocks

/-- Where `run` is. -/
inductive Phase where
  | idle
  /-- `await publishDue()`. -/
  | publishing
  /-- The `for` over what was published, with what is still to announce. -/
  | announcing (rows : List ContentRow)

/-- `running`. -/
def Phase.running : Phase → Bool
  | .idle => false
  | _ => true

/-- The pass is over with the last row. -/
def Phase.after : List ContentRow → Phase
  | [] => .idle
  | rows => .announcing rows

/-- What a pass still has to announce. -/
def Phase.pending : Phase → List ContentRow
  | .announcing rows => rows
  | _ => []

@[simp] theorem Phase.pending_after (rows : List ContentRow) :
    (Phase.after rows).pending = rows := by cases rows <;> rfl

/-- The announcements the wiring makes of a row that went live. -/
def ContentRow.announcements (row : ContentRow) : List Announcement :=
  transitionsFor .scheduled (contentEventOf row)

/-- A call of `announce`, and whether it threw. -/
structure Announced (N : Type) where
  process : N
  row : ContentRow
  threw : Bool

/-- A committed pass. -/
structure Pass (N : Type) where
  process : N
  commit : Committed Database Call (List ContentRow)

structure Scheduling (N I : Type) where
  content : ContentMachine (N ⊕ I)
  phase : N → Phase
  /-- Newest first, as the announcements. -/
  passes : List (Pass N)
  announced : List (Announced N)

/-- A row of the document in this version. -/
def ContentRow.isVersion (j : Uuid) (v : Nat) (row : ContentRow) : Bool :=
  row.id = j && row.version = v

/-- The pass returned the document in this version. -/
def Pass.returned {N : Type} (j : Uuid) (v : Nat) (p : Pass N) : Bool :=
  p.commit.answer.any (·.isVersion j v)

/-- The document was announced in this version. -/
def Announced.about {N : Type} (j : Uuid) (v : Nat) (a : Announced N) : Bool := a.row.isVersion j v

/-- A call of the scheduler's transaction. -/
def Call.isPass : Call → Bool
  | .publishDueContent .. => true
  | _ => false

inductive Scheduling.Event (N I : Type) where
  /-- The timer fires, or the process starts. -/
  | tick (n : N) (now : Nat) (stamps : Stamps)
  /-- A statement of a pass. -/
  | advance (n : N)
  | commit (n : N)
  /-- `publishDue` throws. -/
  | fail (n : N)
  | announce (n : N) (threw : Bool)
  /-- Anybody else; nobody else calls `publishDueContent`. -/
  | other (a : Action Call I)

namespace Scheduling
variable {N I : Type}

/-- Every process is up, and nothing is under way. -/
def start (db : Database) : Scheduling N I := ⟨.start db, fun _ => .idle, [], []⟩

section Phases
variable [DecidableEq N] (s : Scheduling N I) (n : N) (phase : Phase)

def setPhase : Scheduling N I := { s with phase := Function.update s.phase n phase }

@[simp] theorem setPhase_passes : (s.setPhase n phase).passes = s.passes := rfl

@[simp] theorem setPhase_announced : (s.setPhase n phase).announced = s.announced := rfl

@[simp] theorem setPhase_self : (s.setPhase n phase).phase n = phase := Function.update_self ..

theorem setPhase_of_ne {k : N} (h : k ≠ n) : (s.setPhase n phase).phase k = s.phase k :=
  Function.update_of_ne h _ _

/-- What a process has announced. -/
def announcedBy : List ContentRow := (s.announced.filter (·.process = n)).map (·.row)

/-- What the passes of a process returned. -/
def returnedTo : List ContentRow := (s.passes.filter (·.process = n)).flatMap (·.commit.answer)

end Phases

/-- The call an action begins is no pass. -/
def beginsNoPass : Action Call I → Bool
  | .begin_ _ call => !call.isPass
  | _ => true

variable [DecidableEq N] [DecidableEq I]

/-- One step, or none where the event is not possible. -/
def step (s : Scheduling N I) : Event N I → Option (Scheduling N I)
  | .tick n now stamps =>
    if (s.phase n).running then some s
    else do
      let content ← s.content.step engine program (.begin_ (.inl n) (.publishDueContent now stamps))
      return { s with content := content }.setPhase n .publishing
  | .advance n => do
    let content ← s.content.step engine program (.advance (.inl n))
    return { s with content := content }
  | .commit n => do
    let content ← s.content.step engine program (.commit (.inl n))
    let commit ← content.log.head?
    return { s with content := content, passes := ⟨n, commit⟩ :: s.passes }.setPhase n
      (.after commit.answer)
  | .fail n =>
    match s.phase n with
    | .publishing => do
      let content ← s.content.step engine program (.rollback (.inl n))
      return { s with content := content }.setPhase n .idle
    | _ => none
  | .announce n threw =>
    match s.phase n with
    | .announcing (row :: rest) =>
      some ({ s with announced := ⟨n, row, threw⟩ :: s.announced }.setPhase n (.after rest))
    | _ => none
  | .other a =>
    if beginsNoPass a then do
      let content ← s.content.step engine program (a.rename .inr)
      return { s with content := content }
    else none

/-- The steps of a list of events. -/
def steps : List (Event N I) → Scheduling N I → Option (Scheduling N I)
  | [], s => some s
  | event :: rest, s => (s.step event).bind (steps rest)

/-- A run whose states all satisfy `P`. -/
inductive Run (P : Scheduling N I → Prop) (s : Scheduling N I) : Scheduling N I → Prop
  | refl : P s → Run P s s
  | step {s' s'' : Scheduling N I} {event : Event N I} : Run P s s' →
      s'.step event = some s'' → P s'' → Run P s s''

theorem Run.append {P : Scheduling N I → Prop} {s s' s'' : Scheduling N I}
    (hr : Run (fun _ => True) s s') (h : Run P s' s'') : Run (fun _ => True) s s'' := by
  induction h with
  | refl _ => exact hr
  | step _ hs _ ih => exact ih.step hs trivial

theorem Run.of_steps {s s' s'' : Scheduling N I} {events : List (Event N I)}
    (hr : Run (fun _ => True) s s') (h : s'.steps events = some s'') :
    Run (fun _ => True) s s'' := by
  induction events generalizing s' with
  | nil => cases h; exact hr
  | cons event rest ih =>
    obtain ⟨mid, hs, hrest⟩ := Option.bind_eq_some_iff.mp h
    exact ih (hr.step hs trivial) hrest

/-! ## What a step can do -/

/-- A step does one of these, one case for each kind of event. -/
theorem step_cases {s s' : Scheduling N I} {event : Event N I} (h : s.step event = some s') :
    (s' = s) ∨
    (∃ n now stamps content, (s.phase n).running = false ∧
      s.content.step engine program (.begin_ (.inl n) (.publishDueContent now stamps)) =
        some content ∧ s' = { s with content := content }.setPhase n .publishing) ∨
    (∃ n content, s.content.step engine program (.advance (.inl n)) = some content ∧
      s' = { s with content := content }) ∨
    (∃ n content commit, s.content.step engine program (.commit (.inl n)) = some content ∧
      content.log.head? = some commit ∧
      s' = { s with content := content, passes := ⟨n, commit⟩ :: s.passes }.setPhase n
        (.after commit.answer)) ∨
    (∃ n content, s.phase n = .publishing ∧
      s.content.step engine program (.rollback (.inl n)) = some content ∧
      s' = { s with content := content }.setPhase n .idle) ∨
    (∃ n row rest threw, s.phase n = .announcing (row :: rest) ∧
      s' = { s with announced := ⟨n, row, threw⟩ :: s.announced }.setPhase n (.after rest)) ∨
    (∃ a content, beginsNoPass a = true ∧
      s.content.step engine program (a.rename .inr) = some content ∧
      s' = { s with content := content }) := by
  cases event with
  | tick n now stamps =>
    simp only [step] at h
    split at h
    -- a tick while the pass before is still running is skipped
    · exact .inl (Option.some.inj h).symm
    · rename_i hidle
      obtain ⟨content, hc, hs⟩ := Option.bind_eq_some_iff.mp h
      exact .inr (.inl ⟨n, now, stamps, content, Bool.not_eq_true _ ▸ hidle, hc,
        (Option.some.inj hs).symm⟩)
  | advance n =>
    obtain ⟨content, hc, hs⟩ := Option.bind_eq_some_iff.mp h
    exact .inr (.inr (.inl ⟨n, content, hc, (Option.some.inj hs).symm⟩))
  | commit n =>
    obtain ⟨content, hc, hs⟩ := Option.bind_eq_some_iff.mp h
    obtain ⟨commit, hhead, hs⟩ := Option.bind_eq_some_iff.mp hs
    exact .inr (.inr (.inr (.inl ⟨n, content, commit, hc, hhead, (Option.some.inj hs).symm⟩)))
  | fail n =>
    simp only [step] at h
    split at h
    · obtain ⟨content, hc, hs⟩ := Option.bind_eq_some_iff.mp h
      exact .inr (.inr (.inr (.inr (.inl ⟨n, content, ‹_›, hc, (Option.some.inj hs).symm⟩))))
    · cases h
  | announce n threw =>
    simp only [step] at h
    split at h
    · rename_i row rest hphase
      exact .inr (.inr (.inr (.inr (.inr (.inl
        ⟨n, row, rest, threw, hphase, (Option.some.inj h).symm⟩)))))
    · cases h
  | other a =>
    simp only [step] at h
    split at h
    · rename_i hno
      obtain ⟨content, hc, hs⟩ := Option.bind_eq_some_iff.mp h
      exact .inr (.inr (.inr (.inr (.inr (.inr
        ⟨a, content, hno, hc, (Option.some.inj hs).symm⟩)))))
    · cases h

/-- What happens to the database is a run of its machine. -/
theorem Run.content {P : Scheduling N I → Prop} {Q : ContentMachine (N ⊕ I) → Prop}
    (hQ : ∀ s, P s → Q s.content) {s s' : Scheduling N I} (hr : Run P s s') :
    RowLocks.Run engine program Q s.content s'.content := by
  induction hr with
  | refl hp => exact .refl (hQ s hp)
  | step hr hs hp ih =>
    have hq := hQ _ hp
    obtain rfl | ⟨n, now, stamps, content, -, hc, rfl⟩ | ⟨n, content, hc, rfl⟩ |
      ⟨n, content, commit, hc, -, rfl⟩ | ⟨n, content, -, hc, rfl⟩ |
      ⟨n, row, rest, threw, -, rfl⟩ | ⟨a, content, -, hc, rfl⟩ := step_cases hs
    · exact ih
    · exact ih.step hc hq
    · exact ih.step hc hq
    · exact ih.step hc hq
    · exact ih.step hc hq
    · exact ih
    · exact ih.step hc hq

/-! ## The books of the processes -/

/-- The processes make passes, and nobody else does. -/
def Makes : N ⊕ I → Call → Prop
  | .inl _, call => call.isPass = true
  | .inr _, call => call.isPass = false

/-- The invariant of the system. -/
structure Booked (s : Scheduling N I) : Prop where
  calls : ∀ i r, s.content.running i = some r → Makes i r.call
  publishing : ∀ n r, s.content.running (.inl n) = some r → s.phase n = .publishing
  /-- The passes of the log are the passes that came back. -/
  passes : s.passes.map (·.commit) = s.content.log.filter (·.call.isPass)
  /-- Whatever came back is announced, or still to come. -/
  account : ∀ n, (s.announcedBy n ++ (s.phase n).pending).Perm (s.returnedTo n)

omit [DecidableEq I] in
theorem booked_start (db : Database) : Booked (start db : Scheduling N I) := by
  constructor
  · intro i r hr
    cases hr
  · intro n r hr
    cases hr
  · rfl
  · intro n
    exact List.Perm.nil

omit [DecidableEq I] in
/-- The books are kept by a step of the machine that commits no pass, and leaves every
process what it still has to announce. -/
theorem Booked.moved {s s' : Scheduling N I} (h : Booked s)
    (hcalls : ∀ i r, s'.content.running i = some r → Makes i r.call)
    (hpublishing : ∀ n r, s'.content.running (.inl n) = some r → s'.phase n = .publishing)
    (hlog : s'.content.log.filter (·.call.isPass) = s.content.log.filter (·.call.isPass))
    (hpasses : s'.passes = s.passes) (hannounced : s'.announced = s.announced)
    (hpending : ∀ n, (s'.phase n).pending = (s.phase n).pending) : Booked s' where
  calls := hcalls
  publishing := hpublishing
  passes := by rw [hpasses, h.passes, hlog]
  account n := by
    have haccount := h.account n
    unfold announcedBy returnedTo at *
    rw [hpasses, hannounced, hpending n]
    exact haccount

/-- A step that is no commit leaves the log as it was. -/
theorem log_of_step {m m' : ContentMachine (N ⊕ I)} {a : Action Call (N ⊕ I)}
    (h : m.step engine program a = some m') (ha : ∀ i, a ≠ .commit i) : m'.log = m.log := by
  rcases Machine.step_db h with ⟨-, hlog⟩ | ⟨i, call, answer, own, hcommit, -⟩
  · exact hlog
  · exact absurd hcommit (ha i)

section Steps
variable {s : Scheduling N I} {content : ContentMachine (N ⊕ I)} {n : N}

omit [DecidableEq I] in
/-- A process that did not act is where it was. -/
theorem Booked.publishing_of_ne (h : Booked s) {k : N}
    {r : Running Database RowKey ContentError Call (List ContentRow)}
    (hothers : ∀ j, j ≠ Sum.inl n → content.running j = s.content.running j) (hk : k ≠ n)
    (hr : content.running (.inl k) = some r) : s.phase k = .publishing :=
  h.publishing k r ((hothers _ fun heq => hk (Sum.inl.inj heq)).symm.trans hr)

omit [DecidableEq I] in
/-- A process whose pass is over may be in any phase. -/
theorem Booked.publishing_left (h : Booked s) {phase : Phase}
    (hothers : ∀ j, j ≠ Sum.inl n → content.running j = s.content.running j)
    (hnone : content.running (.inl n) = none) :
    ∀ k r, content.running (.inl k) = some r → (s.setPhase n phase).phase k = .publishing := by
  intro k r hr
  by_cases hk : k = n
  · rw [hk, hnone] at hr
    cases hr
  · rw [setPhase_of_ne _ _ _ hk]
    exact h.publishing_of_ne hothers hk hr

/-- Whoever was making a call still makes it, where none begins. -/
theorem Booked.calls_kept (h : Booked s) {a : Action Call (N ⊕ I)}
    (hc : s.content.step engine program a = some content) (ha : ∀ i call, a ≠ .begin_ i call) :
    ∀ i r, content.running i = some r → Makes i r.call :=
  Machine.step_calls hc h.calls fun i call heq => absurd heq (ha i call)

/-- The books are kept when a pass begins. -/
theorem Booked.tick (h : Booked s) {now : Nat} {stamps : Stamps}
    (hphase : (s.phase n).running = false)
    (hc : s.content.step engine program (.begin_ (.inl n) (.publishDueContent now stamps)) =
      some content) : Booked ({ s with content := content }.setPhase n .publishing) := by
  obtain ⟨hothers, -⟩ := Machine.step_running hc
  have hidle : (s.phase n).pending = [] := by
    cases hp : s.phase n with
    | idle => rfl
    | publishing => rfl
    | announcing rows =>
      rw [hp] at hphase
      cases hphase
  refine h.moved ?_ ?_ (congrArg _ (log_of_step hc (by simp))) rfl rfl ?_
  · apply Machine.step_calls hc h.calls
    intro i call hbegin
    cases hbegin
    rfl
  · intro k r hr
    by_cases hk : k = n
    · rw [hk, setPhase_self]
    · rw [setPhase_of_ne _ _ _ hk]
      exact h.publishing_of_ne hothers hk hr
  · intro k
    by_cases hk : k = n
    · rw [hk, setPhase_self, hidle]
      rfl
    · rw [setPhase_of_ne _ _ _ hk]

theorem Booked.advance (h : Booked s)
    (hc : s.content.step engine program (.advance (.inl n)) = some content) :
    Booked { s with content := content } := by
  obtain ⟨hothers, r, r', hr, hr', -⟩ := Machine.step_running hc
  refine h.moved (h.calls_kept hc (by simp)) ?_ (congrArg _ (log_of_step hc (by simp))) rfl rfl
    fun _ => rfl
  intro k r2 hr2
  by_cases hk : k = n
  · rw [hk]
    exact h.publishing n r hr
  · exact h.publishing_of_ne hothers hk hr2

/-- The books are kept when a pass comes back. -/
theorem Booked.commit (h : Booked s) {commit : Committed Database Call (List ContentRow)}
    (hc : s.content.step engine program (.commit (.inl n)) = some content)
    (hhead : content.log.head? = some commit) :
    Booked ({ s with content := content, passes := ⟨n, commit⟩ :: s.passes }.setPhase n
      (.after commit.answer)) := by
  obtain ⟨hothers, hnone⟩ := Machine.step_running hc
  obtain ⟨call, answer, own, hr, -, -, hlog⟩ := Machine.step_commit hc
  have hpass : call.isPass = true := h.calls _ _ hr
  obtain rfl : (⟨call, answer, s.content.db, own s.content.db⟩ : Committed _ _ _) = commit := by
    rw [hlog, List.head?_cons] at hhead
    exact Option.some.inj hhead
  refine ⟨h.calls_kept hc (by simp), h.publishing_left hothers hnone, ?_, ?_⟩
  · show _ :: s.passes.map _ = content.log.filter _
    rw [hlog, List.filter_cons_of_pos (by simpa using hpass), h.passes]
  · intro k
    have haccount := h.account k
    by_cases hk : k = n
    · subst hk
      rw [h.publishing k _ hr] at haccount
      simp only [Phase.pending, List.append_nil] at haccount
      rw [setPhase_self, Phase.pending_after]
      unfold announcedBy returnedTo at *
      rw [setPhase_passes, List.filter_cons_of_pos (by simp), List.flatMap_cons]
      exact (haccount.append_right answer).trans List.perm_append_comm
    · rw [setPhase_of_ne _ _ _ hk]
      unfold announcedBy returnedTo at *
      rw [setPhase_passes, List.filter_cons_of_neg (by simpa using Ne.symm hk)]
      exact haccount

theorem Booked.fail (h : Booked s) (hphase : s.phase n = .publishing)
    (hc : s.content.step engine program (.rollback (.inl n)) = some content) :
    Booked ({ s with content := content }.setPhase n .idle) := by
  obtain ⟨hothers, hnone⟩ := Machine.step_running hc
  refine h.moved (h.calls_kept hc (by simp)) (h.publishing_left hothers hnone)
    (congrArg _ (log_of_step hc (by simp))) rfl rfl ?_
  intro k
  by_cases hk : k = n
  · rw [hk, setPhase_self, hphase]
    rfl
  · rw [setPhase_of_ne _ _ _ hk]

omit [DecidableEq I] in
/-- The books are kept by one more announcement, whatever came of it. -/
theorem Booked.announce (h : Booked s) {row : ContentRow} {rest : List ContentRow} {threw : Bool}
    (hphase : s.phase n = .announcing (row :: rest)) :
    Booked ({ s with announced := ⟨n, row, threw⟩ :: s.announced }.setPhase n (.after rest)) := by
  refine ⟨h.calls, ?_, h.passes, ?_⟩
  · intro k r hr
    have hpublishing := h.publishing k r hr
    have hk : k ≠ n := by
      rintro rfl
      rw [hphase] at hpublishing
      cases hpublishing
    rw [setPhase_of_ne _ _ _ hk]
    exact hpublishing
  · intro k
    have haccount := h.account k
    by_cases hk : k = n
    · subst hk
      rw [hphase] at haccount
      rw [setPhase_self, Phase.pending_after]
      unfold announcedBy returnedTo at *
      rw [setPhase_announced, List.filter_cons_of_pos (by simp), List.map_cons]
      exact List.perm_middle.symm.trans haccount
    · rw [setPhase_of_ne _ _ _ hk]
      unfold announcedBy returnedTo at *
      rw [setPhase_announced, List.filter_cons_of_neg (by simpa using Ne.symm hk)]
      exact haccount

/-- The books are kept by everybody else, who makes no pass and ends none. -/
theorem Booked.other (h : Booked s) {a : Action Call I} (hno : beginsNoPass a = true)
    (hc : s.content.step engine program (a.rename .inr) = some content) :
    Booked { s with content := content } := by
  obtain ⟨hothers, -⟩ := Machine.step_running hc
  refine h.moved ?_ ?_ ?_ rfl rfl fun _ => rfl
  · apply Machine.step_calls hc h.calls
    intro i call hbegin
    cases a with
    | begin_ j call' =>
      cases hbegin
      show call.isPass = false
      simpa [beginsNoPass] using hno
    | advance j => cases hbegin
    | commit j => cases hbegin
    | rollback j => cases hbegin
  · intro k r hr
    refine h.publishing k r ((hothers _ ?_).symm.trans hr)
    rw [Action.actor_rename]
    exact Sum.inl_ne_inr
  · rcases Machine.step_db hc with ⟨-, hlog⟩ | ⟨i, call, answer, own, ha, hr, -, -, hlog⟩
    · exact congrArg _ hlog
    · have hcall : call.isPass = false := by
        cases a with
        | commit j =>
          cases ha
          exact h.calls _ _ hr
        | begin_ j call' => cases ha
        | advance j => cases ha
        | rollback j => cases ha
      show content.log.filter _ = _
      rw [hlog, List.filter_cons_of_neg (by simp [hcall])]

end Steps

/-- **One step** keeps the books. -/
theorem Booked.step {s s' : Scheduling N I} {event : Event N I} (h : Booked s)
    (hs : s.step event = some s') : Booked s' := by
  obtain rfl | ⟨n, now, stamps, content, hphase, hc, rfl⟩ | ⟨n, content, hc, rfl⟩ |
    ⟨n, content, commit, hc, hhead, rfl⟩ | ⟨n, content, hphase, hc, rfl⟩ |
    ⟨n, row, rest, threw, hphase, rfl⟩ | ⟨a, content, hno, hc, rfl⟩ := step_cases hs
  · exact h
  · exact h.tick hphase hc
  · exact h.advance hc
  · exact h.commit hc hhead
  · exact h.fail hphase hc
  · exact h.announce hphase
  · exact h.other hno hc

theorem Run.booked {P : Scheduling N I → Prop} {db : Database} {s : Scheduling N I}
    (hr : Run P (start db) s) : Booked s := by
  induction hr with
  | refl _ => exact booked_start db
  | step _ hs _ ih => exact ih.step hs

end Scheduling

/-! ## What one pass does -/

section Pass
variable {e : Committed Database Call (List ContentRow)} {now : Nat} {stamps : Stamps} {j : Uuid}
  {r row : ContentRow}

theorem Call.isPass_iff {call : Call} :
    call.isPass = true ↔ ∃ now stamps, call = .publishDueContent now stamps := by
  constructor
  · intro h
    cases call with
    | publishDueContent now stamps => exact ⟨now, stamps, rfl⟩
    | createContent _ _ => cases h
    | updateContent _ _ _ _ _ => cases h
    | deleteContent _ _ => cases h
  · rintro ⟨now, stamps, rfl⟩
    rfl

/-- A document that a pass finds: published, if it is due, and left alone if not. -/
theorem pass_row (he : e.Meets (contentsDiscipline AnyOrder))
    (hcall : e.call = .publishDueContent now stamps) (hr : e.found.content j = some r) :
    (isDue now r = true ∧ e.left.content j = some (r.put (r.publication stamps)) ∧
      Superseded e.found e.left r (r.put (r.publication stamps)) ∧
      e.answer.filter (·.id = j) = [r.put (r.publication stamps)]) ∨
    (e.left.content j = some r ∧ e.left.revisionsOf j = e.found.revisionsOf j ∧
      ∀ row ∈ e.answer, row.id ≠ j) := by
  have hpost := he.post
  rw [hcall] at hpost
  obtain ⟨claimed, hnodup, hrows, hanswer, hleft⟩ := hpost
  have hfound : ∀ x ∈ claimed, e.found.content x.id = some x := fun x hx => (hrows x hx).1
  rw [hanswer, hleft]
  by_cases hj : ∃ x ∈ claimed, x.id = j
  · left
    obtain ⟨x, hx, rfl⟩ := hj
    obtain rfl := Option.some.inj ((hfound x hx).symm.trans hr)
    obtain ⟨hcontent, hsuperseded⟩ := publishEach_written stamps hnodup hfound hx
    refine ⟨(hrows x hx).2, hcontent, hsuperseded, ?_⟩
    have hone := Rows.filter_of_mem hnodup hx
    rw [List.filter_map]
    exact congrArg _ hone
  · right
    have hno : ∀ x ∈ claimed, x.id ≠ j := fun x hx heq => hj ⟨x, hx, heq⟩
    obtain ⟨-, -, hdocs, -⟩ := publishEach_frame stamps hnodup hfound
    refine ⟨(hdocs j hno).content.trans hr, (hdocs j hno).revisions, fun row hrow => ?_⟩
    obtain ⟨x, hx, rfl⟩ := List.mem_map.mp hrow
    exact hno x hx

/-- A row that a pass returns is what it made of a document that was due. -/
theorem pass_answer (he : e.Meets (contentsDiscipline AnyOrder))
    (hcall : e.call = .publishDueContent now stamps) (hrow : row ∈ e.answer) :
    ∃ r, e.found.content row.id = some r ∧ isDue now r = true ∧
      row = r.put (r.publication stamps) ∧ e.left.content row.id = some row := by
  have hpost := he.post
  rw [hcall] at hpost
  obtain ⟨claimed, hnodup, hrows, hanswer, hleft⟩ := hpost
  rw [hanswer] at hrow
  obtain ⟨r, hr, rfl⟩ := List.mem_map.mp hrow
  obtain ⟨hcontent, -⟩ := publishEach_written stamps hnodup (fun x hx => (hrows x hx).1) hr
  exact ⟨r, (hrows r hr).1, (hrows r hr).2, rfl, hleft ▸ hcontent⟩

end Pass

namespace Scheduling
variable {N I : Type} [DecidableEq N] [DecidableEq I] {«media» : List MediaRow}
  {s : Scheduling N I} {p : Pass N} {row : ContentRow}

omit [DecidableEq I] in
/-- Parts with nothing in them can be left out of a concatenation. -/
theorem flatMap_filter {α β : Type} {l : List α} {f : α → List β} {q : α → Bool}
    (h : ∀ x ∈ l, q x = false → f x = []) : l.flatMap f = (l.filter q).flatMap f := by
  induction l with
  | nil => rfl
  | cons x rest ih =>
    have ih := ih fun y hy => h y (List.mem_cons_of_mem _ hy)
    rw [List.flatMap_cons, ih]
    cases hx : q x with
    | true => rw [List.filter_cons_of_pos hx, List.flatMap_cons]
    | false => rw [List.filter_cons_of_neg (by simp [hx]), h x List.mem_cons_self hx, List.nil_append]

section Once
variable (hrun : Run (fun _ => True) (start (Database.empty «media»)) s)
include hrun

theorem Run.machine :
    RowLocks.Run engine program (fun _ => True) (.start (Database.empty «media»)) s.content :=
  hrun.content fun _ _ => trivial

/-- A pass is a commit of `publishDueContent`. -/
theorem Run.pass (hp : p ∈ s.passes) : p.commit.Meets (contentsDiscipline AnyOrder) ∧
    ∃ now stamps, p.commit.call = .publishDueContent now stamps := by
  have hmem : p.commit ∈ s.content.log.filter (·.call.isPass) :=
    hrun.booked.passes ▸ List.mem_map_of_mem hp
  obtain ⟨hlog, hpass⟩ := List.mem_filter.mp hmem
  exact ⟨run_log (empty_inv «media») hrun.machine _ hlog, Call.isPass_iff.mp hpass⟩

/-- **A version of a document is returned by one pass at most.** -/
theorem Run.returned_once (j : Uuid) (v : Nat) : (s.passes.filter (·.returned j v)).length ≤ 1 := by
  have hlog := run_log (empty_inv «media») hrun.machine
  have hpair := hrun.machine.linked.entries Progress.trans
    (fun e he => meets_progress (hlog e he)) fun e he => .refl (hlog e he).left.constraints
  have hpasses : s.passes.Pairwise fun later earlier =>
      Progress earlier.commit.left later.commit.found := by
    have hfilter := hpair.sublist (List.filter_sublist (p := fun e => e.call.isPass))
    rw [← hrun.booked.passes] at hfilter
    exact List.pairwise_map.mp hfilter
  refine atMostOne_of_pairwise hpasses fun later hlater earlier hearlier hret hret' hprogress => ?_
  obtain ⟨hmeets, now, stamps, hcall⟩ := hrun.pass hlater
  obtain ⟨hmeets', now', stamps', hcall'⟩ := hrun.pass hearlier
  obtain ⟨row, hrow, hversion⟩ := List.any_eq_true.mp hret
  obtain ⟨row', hrow', hversion'⟩ := List.any_eq_true.mp hret'
  unfold ContentRow.isVersion at hversion hversion'
  simp only [Bool.and_eq_true, decide_eq_true_eq] at hversion hversion'
  obtain ⟨r, hfound, -, hput, -⟩ := pass_answer hmeets hcall hrow
  obtain ⟨-, -, -, -, hleft⟩ := pass_answer hmeets' hcall' hrow'
  rw [hversion'.1, ← hversion.1] at hleft
  have hle := hprogress.version _ _ _ hleft hfound
  have hnext : row.version = r.version + 1 := by rw [hput]; rfl
  omega

/-- Whatever was announced came back from a pass of the process that announced it. -/
theorem Run.announced_returned {a : Announced N} (ha : a ∈ s.announced) :
    ∃ q ∈ s.passes, q.process = a.process ∧ a.row ∈ q.commit.answer := by
  have hmem : a.row ∈ s.announcedBy a.process := by
    unfold announcedBy
    exact List.mem_map_of_mem (List.mem_filter.mpr ⟨ha, by simp⟩)
  have hret := (hrun.booked.account a.process).subset (List.mem_append_left _ hmem)
  unfold returnedTo at hret
  obtain ⟨q, hq, hrow⟩ := List.mem_flatMap.mp hret
  obtain ⟨hq, hprocess⟩ := List.mem_filter.mp hq
  exact ⟨q, hq, of_decide_eq_true hprocess, hrow⟩

/-- **What a pass returned is announced once**, or is still to come. -/
theorem Run.announced_once (hp : p ∈ s.passes) (hrow : row ∈ p.commit.answer) :
    (∀ a ∈ s.announced, a.about row.id row.version = true → a.process = p.process ∧ a.row = row) ∧
      ((s.announced.filter (·.about row.id row.version)).map (·.row) ++
        (s.phase p.process).pending.filter (·.isVersion row.id row.version)).Perm [row] := by
  have hversion : row.isVersion row.id row.version = true := by simp [ContentRow.isVersion]
  have hone := filter_eq_singleton (hrun.returned_once row.id row.version) hp
    (List.any_eq_true.mpr ⟨row, hrow, hversion⟩)
  obtain ⟨hmeets, now, stamps, hcall⟩ := hrun.pass hp
  -- The pass returned the document once.
  have hanswer : p.commit.answer.filter (·.isVersion row.id row.version) = [row] := by
    obtain ⟨r, hfound, -, -, -⟩ := pass_answer hmeets hcall hrow
    rcases pass_row hmeets hcall hfound with ⟨-, -, -, hfilter⟩ | ⟨-, -, hno⟩
    · have hmem : row ∈ p.commit.answer.filter (·.id = row.id) :=
        List.mem_filter.mpr ⟨hrow, by simp⟩
      rw [hfilter] at hmem
      rw [← List.mem_singleton.mp hmem] at hfilter
      have hboth : p.commit.answer.filter (·.isVersion row.id row.version) =
          (p.commit.answer.filter (·.id = row.id)).filter (·.version = row.version) := by
        rw [List.filter_filter]
        refine List.filter_congr fun x _ => ?_
        simp [ContentRow.isVersion, Bool.and_comm]
      rw [hboth, hfilter]
      simp
    · exact absurd rfl (hno row hrow)
  have hwho : ∀ a ∈ s.announced, a.about row.id row.version = true →
      a.process = p.process ∧ a.row = row := by
    intro a ha habout
    obtain ⟨q, hq, hprocess, hqrow⟩ := hrun.announced_returned ha
    have hmem : q ∈ s.passes.filter (·.returned row.id row.version) :=
      List.mem_filter.mpr ⟨hq, List.any_eq_true.mpr ⟨a.row, hqrow, habout⟩⟩
    rw [hone] at hmem
    obtain rfl := List.mem_singleton.mp hmem
    have hmem : a.row ∈ q.commit.answer.filter (·.isVersion row.id row.version) :=
      List.mem_filter.mpr ⟨hqrow, habout⟩
    rw [hanswer] at hmem
    exact ⟨hprocess.symm, List.mem_singleton.mp hmem⟩
  refine ⟨hwho, ?_⟩
  have haccount := (hrun.booked.account p.process).filter (·.isVersion row.id row.version)
  rw [List.filter_append] at haccount
  -- All announcements of the row are of the process of the pass.
  have hby : (s.announcedBy p.process).filter (·.isVersion row.id row.version) =
      (s.announced.filter (·.about row.id row.version)).map (·.row) := by
    unfold announcedBy
    rw [List.filter_map, List.filter_filter]
    refine congrArg _ (List.filter_congr fun a ha => ?_)
    show (a.about row.id row.version && decide (a.process = p.process)) = _
    cases habout : a.about row.id row.version with
    | true => simp [(hwho a ha habout).1]
    | false => rfl
  have hto : (s.returnedTo p.process).filter (·.isVersion row.id row.version) = [row] := by
    unfold returnedTo
    have hmine : (s.passes.filter (·.process = p.process)).filter
        (·.returned row.id row.version) = [p] := by
      rw [List.filter_filter]
      refine (List.filter_congr fun q _ => Bool.and_comm _ _).trans ?_
      rw [← List.filter_filter, hone]
      simp
    rw [List.filter_flatMap, flatMap_filter (q := (·.returned row.id row.version)), hmine]
    · simpa using hanswer
    · intro q _ hno
      unfold Pass.returned at hno
      rw [List.any_eq_false] at hno
      exact List.filter_eq_nil_iff.mpr hno
  rwa [hby, hto] at haccount

/-- What a pass has locked is what it commits on. -/
theorem Run.locked {n : N} {call : Call} {j : Uuid} {next : Database → Transaction (List ContentRow)}
    {own : Database → Database} {r : ContentRow} {s1 s2 s3 : Scheduling N I}
    (hlock : s.content.running (.inl n) = some ⟨call, .lock (.doc j) next, own⟩)
    (hr : s.content.db.content j = some r) (hgrant : s.step (.advance n) = some s1)
    (hheld : Run (fun t => t.content.holder (.doc j) = some (.inl n)) s1 s2)
    (hcommit : s2.step (.commit n) = some s3) :
    ∃ p, s3.passes = p :: s2.passes ∧ p.process = n ∧ p.commit.call = call ∧
      p.commit.found.content j = some r := by
  have hsides : ∀ m : ContentMachine (N ⊕ I), True → Sides (contentsDiscipline AnyOrder) m :=
    fun m _ => sides_anyOrder m
  obtain ⟨content, hstep, hs1⟩ := Option.bind_eq_some_iff.mp hgrant
  obtain rfl := Option.some.inj hs1
  have hsound : Sound (contentsDiscipline AnyOrder) engine content :=
    (verified AnyOrder).holds hsides (start_sound AnyOrder (empty_inv «media»))
      (hrun.machine.step hstep trivial)
  have hdb : content.db = s.content.db := by
    rcases Machine.step_db hstep with ⟨hdb, -⟩ | ⟨_, _, _, _, h, -⟩
    · exact hdb
    · cases h
  obtain ⟨-, r0, r1, hr0, hr1, hcall⟩ := Machine.step_running hstep
  obtain rfl := Option.some.inj (hlock.symm.trans hr0)
  obtain ⟨hframe, hgoes⟩ := (verified AnyOrder).held hsides hsound
    (hheld.content (Q := fun m => True ∧ m.holder (.doc j) = some (.inl n)) fun t ht => ⟨trivial, ht⟩)
  obtain ⟨r2, hr2, hcall2⟩ := hgoes r1 hr1
  have hrow : content.db.content j = some r := hdb ▸ hr
  have hstays : s2.content.db.content j = some r := ((hframe ⟨r, hrow⟩).content).trans hrow
  obtain ⟨content3, hstep3, hs3⟩ := Option.bind_eq_some_iff.mp hcommit
  obtain ⟨commit, hhead, hs3⟩ := Option.bind_eq_some_iff.mp hs3
  obtain rfl := Option.some.inj hs3
  obtain ⟨call3, answer, own3, hr3, -, -, hlog⟩ := Machine.step_commit hstep3
  rw [hlog, List.head?_cons] at hhead
  obtain rfl := Option.some.inj hhead
  obtain rfl := Option.some.inj (hr2.symm.trans hr3)
  exact ⟨_, rfl, rfl, hcall2.trans hcall, hstays⟩

end Once

/-- What the passes of a run made of the documents that were due. -/
structure PublishedOnce (s : Scheduling N I) : Prop where
  /-- The passes are the committed calls of `publishDueContent`. -/
  passes : s.passes.map (·.commit) = s.content.log.filter (·.call.isPass)
  /-- A document that a pass makes public gets the next version, and one revision
  of what it was.  It is returned by that pass only, once, and when the process is
  done with its passes it has announced it, once, and nobody else has. -/
  transition : ∀ p ∈ s.passes, ∀ j r r', p.commit.found.content j = some r →
    p.commit.left.content j = some r' → r.status = .scheduled → r'.status = .published →
    Superseded p.commit.found p.commit.left r r' ∧ p.commit.answer.filter (·.id = j) = [r'] ∧
    s.passes.filter (·.returned j r'.version) = [p] ∧
    (s.phase p.process = .idle → ∃ threw,
      s.announced.filter (·.about j r'.version) = [⟨p.process, r', threw⟩])
  /-- A document that is not due when its lock is granted is left alone. -/
  locked : ∀ n call j next own r s1 s2 s3,
    s.content.running (.inl n) = some ⟨call, .lock (.doc j) next, own⟩ →
    s.content.db.content j = some r → s.step (.advance n) = some s1 →
    Run (fun t => t.content.holder (.doc j) = some (.inl n)) s1 s2 →
    s2.step (.commit n) = some s3 →
    ∃ p now stamps, s3.passes = p :: s2.passes ∧ p.process = n ∧
      call = .publishDueContent now stamps ∧
      (isDue now r = false → p.commit.left.content j = some r ∧
        p.commit.left.revisionsOf j = p.commit.found.revisionsOf j ∧
        ∀ row ∈ p.commit.answer, row.id ≠ j)
  /-- Nothing else is announced, nothing twice, and everything as an edit that
  publishes. -/
  announced : ∀ a ∈ s.announced,
    (∃ p ∈ s.passes, p.process = a.process ∧ a.row ∈ p.commit.answer) ∧
    (∀ b ∈ s.announced, b.about a.row.id a.row.version = true → b.process = a.process) ∧
    (s.announced.filter (·.about a.row.id a.row.version)).length = 1 ∧
    a.row.announcements.map (·.name) = [.contentUpdated, .contentPublished]
  /-- Whatever comes of an announcement, the others are made. -/
  goesOn : ∀ n row rest threw, s.phase n = .announcing (row :: rest) →
    ∃ s', s.step (.announce n threw) = some s' ∧ (s'.phase n).pending = rest

/-- **Scheduled publication happens once**, however many processes make passes at
once, whatever their clocks say and whoever else writes. -/
theorem scheduled_once (hrun : Run (fun _ => True) (start (Database.empty «media»)) s) :
    PublishedOnce s where
  passes := hrun.booked.passes
  transition p hp j r r' hr hr' hscheduled hpublished := by
    obtain ⟨hmeets, now, stamps, hcall⟩ := hrun.pass hp
    rcases pass_row hmeets hcall hr with ⟨-, hleft, hsuperseded, hanswer⟩ | ⟨hleft, -, -⟩
    · obtain rfl := Option.some.inj (hleft.symm.trans hr')
      have hrow : r.put (r.publication stamps) ∈ p.commit.answer :=
        List.mem_of_mem_filter (hanswer ▸ List.mem_singleton_self _)
      have hid : (r.put (r.publication stamps)).id = j := Database.id_of_content hr'
      have hreturned : p.returned j (r.put (r.publication stamps)).version = true := by
        refine List.any_eq_true.mpr ⟨_, hrow, ?_⟩
        unfold ContentRow.isVersion
        rw [decide_eq_true hid, decide_eq_true rfl, Bool.true_and]
      refine ⟨hsuperseded, hanswer, filter_eq_singleton (hrun.returned_once _ _) hp hreturned,
        fun hidle => ?_⟩
      -- once the process is idle, what it returned has been announced
      obtain ⟨hwho, hperm⟩ := hrun.announced_once hp hrow
      rw [hidle, hid] at hperm
      simp only [Phase.pending, List.filter_nil, List.append_nil] at hperm
      obtain ⟨a, ha, hrowa⟩ := List.map_eq_singleton_iff.mp (List.perm_singleton.mp hperm)
      have hmem : a ∈ s.announced.filter (·.about j (r.put (r.publication stamps)).version) :=
        ha ▸ List.mem_singleton_self a
      obtain ⟨hmem, habout⟩ := List.mem_filter.mp hmem
      obtain ⟨hprocess, -⟩ := hwho a hmem (by rw [hid]; exact habout)
      exact ⟨a.threw, by rw [ha, ← hprocess, ← hrowa]⟩
    -- a row that the pass left alone has not become public
    · obtain rfl := Option.some.inj (hleft.symm.trans hr')
      rw [hscheduled] at hpublished
      cases hpublished
  locked n call j next own r s1 s2 s3 hlock hr hgrant hheld hcommit := by
    obtain ⟨p, hpasses, hprocess, hcall, hfound⟩ := hrun.locked hlock hr hgrant hheld hcommit
    have hrun3 := ((hrun.step hgrant trivial).append hheld).step hcommit trivial
    obtain ⟨hmeets, now, stamps, hpass⟩ := hrun3.pass (hpasses ▸ List.mem_cons_self)
    refine ⟨p, now, stamps, hpasses, hprocess, hcall.symm.trans hpass, fun hnot => ?_⟩
    rcases pass_row hmeets hpass hfound with ⟨hdue, -⟩ | hleft
    · rw [hnot] at hdue
      cases hdue
    · exact hleft
  announced a ha := by
    obtain ⟨p, hp, hprocess, hrow⟩ := hrun.announced_returned ha
    obtain ⟨hwho, hperm⟩ := hrun.announced_once hp hrow
    obtain ⟨hmeets, now, stamps, hcall⟩ := hrun.pass hp
    obtain ⟨r, -, -, hput, -⟩ := pass_answer hmeets hcall hrow
    refine ⟨⟨p, hp, hprocess, hrow⟩, fun b hb habout => ?_, ?_, ?_⟩
    · exact (hwho b hb habout).1.trans hprocess
    -- the announcements and what is still to be announced are one, and this is one
    · have hlength := hperm.length_eq
      rw [List.length_append, List.length_map, List.length_singleton] at hlength
      have hself : a ∈ s.announced.filter (·.about a.row.id a.row.version) :=
        List.mem_filter.mpr ⟨ha, by simp [Announced.about, ContentRow.isVersion]⟩
      have hpos := List.length_pos_of_mem hself
      omega
    · have hstatus : a.row.status = .published := by rw [hput]; rfl
      unfold ContentRow.announcements
      rw [transitionsFor_publication hstatus]
      rfl
  goesOn n row rest threw hphase := by
    refine ⟨{ s with announced := ⟨n, row, threw⟩ :: s.announced }.setPhase n (.after rest), ?_, ?_⟩
    · simp only [step, hphase]
    · rw [setPhase_self, Phase.pending_after]

/-! ### Two processes and one page -/

/-- A page that is due at 5. -/
def duePage : ContentState :=
  { emptyPage "news" none with status := .scheduled, publishedAt := some 5 }

/-- What a pass writes with. -/
def passStamps : Stamps := ⟨fun _ => 500, fun _ => 20, 20⟩

/-- Two processes look at once: the first one publishes, the second waits for the
page and finds it published; the announcement throws. -/
def twoPasses : List (Event Bool Unit) :=
  (wholeCall () (createPage duePage 1 none) 4).map .other ++
    [.tick false 10 passStamps, .tick true 12 passStamps, .advance false, .advance true,
      .advance false, .advance false, .advance false, .advance false, .advance false,
      .commit false, .tick false 13 passStamps, .advance true, .commit true, .announce false true]

theorem scheduled_once_two_passes : ∃ s : Scheduling Bool Unit,
    (start (Database.empty [])).steps twoPasses = some s ∧ PublishedOnce s ∧
    s.passes.length = 2 ∧ s.announced.length = 1 := by
  have heval : ((start (Database.empty []) : Scheduling Bool Unit).steps twoPasses).any
      (fun s => s.passes.length = 2 && s.announced.length = 1) = true := by decide +kernel
  cases hs : (start (Database.empty []) : Scheduling Bool Unit).steps twoPasses with
  | none =>
    rw [hs] at heval
    cases heval
  | some s =>
    rw [hs, Option.any_some, Bool.and_eq_true, decide_eq_true_eq, decide_eq_true_eq] at heval
    exact ⟨s, rfl, scheduled_once (Run.of_steps (.refl trivial) hs), heval⟩

end Scheduling
end PressLabz
