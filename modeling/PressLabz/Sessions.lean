import PressLabz.ContentTypes

/-! # Sessions

`packages/db/src/repositories/sessions.ts` under the `onRequest` hook of
`apps/api/src/auth/plugin.ts`.  A request looks its session up, decides on the
row it got whether the session is due for renewal, and then extends it with a
statement that asks nothing of the row.  Three clock readings and two statements,
each at a later moment than the one before, and anything may happen in between:
other requests of the same token, a logout, a sign-out everywhere, a sweep.

A session that is over is one whose row is gone or whose expiry has passed.
`Over` is what holds from the moment a look-up found one so: it is kept by every
step but one, an extension that lands on a row that expired on the way.
-/
namespace PressLabz

/-- A row of `sessions`; `id` is the hash of the token. -/
structure SessionRow where
  id : String
  userId : Uuid
  expiresAt : Nat
  deriving DecidableEq

/-! ## `session.ts` -/

def SESSION_TTL_MS : Nat := 30 * 24 * 60 * 60 * 1000

/-- Below this remaining lifetime, an active session is extended on use. -/
def RENEW_BELOW_MS : Nat := 15 * 24 * 60 * 60 * 1000

def sessionExpiry (since : Nat) : Nat := since + SESSION_TTL_MS

def shouldRenew (expiresAt now : Nat) : Bool :=
  let remaining : Int := expiresAt - now
  remaining > 0 && remaining < RENEW_BELOW_MS

/-- An expired session is not renewable. -/
theorem shouldRenew_live {expiresAt now : Nat} (h : shouldRenew expiresAt now = true) :
    now < expiresAt := by
  simp only [shouldRenew, Bool.and_eq_true, decide_eq_true_eq] at h
  omega

/-! ## The statements -/

/-- `INSERT`; the id is the primary key. -/
def createSession (sessions : List SessionRow) (tokenHash : String) (userId : Uuid)
    (expiresAt : Nat) : Option (List SessionRow) :=
  if sessions.any (·.id = tokenHash) then none
  else some (⟨tokenHash, userId, expiresAt⟩ :: sessions)

/-- The row of the token that expires after `now`.  The join with `users` finds
its user: `user_id` references it, and a user's deletion takes the sessions along. -/
def findValidSession (sessions : List SessionRow) (tokenHash : String) (now : Nat) :
    Option SessionRow :=
  sessions.find? fun s => s.id = tokenHash && s.expiresAt > now

def extendSession (sessions : List SessionRow) (tokenHash : String) (expiresAt : Nat) :
    List SessionRow :=
  sessions.map fun s => if s.id = tokenHash then { s with expiresAt } else s

def deleteSession (sessions : List SessionRow) (tokenHash : String) : List SessionRow :=
  sessions.filter (·.id ≠ tokenHash)

def deleteSessionsForUser (sessions : List SessionRow) (userId : Uuid) : List SessionRow :=
  sessions.filter (·.userId ≠ userId)

/-- What is left, and how many went. -/
def deleteExpiredSessions (sessions : List SessionRow) (now : Nat) : List SessionRow × Nat :=
  (sessions.filter (¬ ·.expiresAt < now), sessions.countP (·.expiresAt < now))

theorem findValidSession_eq_none {sessions : List SessionRow} {tokenHash : String} {now : Nat} :
    findValidSession sessions tokenHash now = none ↔
      ∀ s ∈ sessions, s.id = tokenHash → s.expiresAt ≤ now := by
  simp [findValidSession]

/-- A valid session stays valid for everyone who asks before its expiry. -/
theorem findValidSession_extendSession {sessions : List SessionRow} {s : SessionRow}
    (hs : s ∈ sessions) {expiresAt now : Nat} (h : now < expiresAt) :
    findValidSession (extendSession sessions s.id expiresAt) s.id now ≠ none := by
  intro hnone
  have hmem : ({ s with expiresAt } : SessionRow) ∈ extendSession sessions s.id expiresAt :=
    List.mem_map.mpr ⟨s, hs, by simp⟩
  exact absurd (findValidSession_eq_none.mp hnone _ hmem rfl) (by simpa using h)

/-! ## Requests in flight -/

/-- Where the hook of a request is. -/
inductive SessionStage where
  /-- `findValidSession` is under way, with the `new Date()` of its query. -/
  | asked (at_ : Nat)
  | found (session : SessionRow)
  /-- `shouldRenew` said yes. -/
  | renewing
  /-- `extendSession` is under way. -/
  | extending (next : Nat)
  /-- The hook is over, with or without a user. -/
  | done (signedIn : Bool)
  deriving DecidableEq

/-- A request that carries a session token. -/
structure SessionRequest where
  tokenHash : String
  stage : SessionStage
  deriving DecidableEq

/-- The table, the hashes it ever had a row of, and the requests in the order of
their look-ups. -/
structure SessionSystem where
  clock : Nat
  sessions : List SessionRow
  issued : List String
  requests : List SessionRequest
  deriving DecidableEq

inductive SessionEvent where
  | tick (ms : Nat)
  /-- A sign-in, with the moment its expiry was counted from. -/
  | login (tokenHash : String) (userId : Uuid) (at_ : Nat)
  | ask (tokenHash : String)
  | answer (i : Nat)
  | shouldRenew (i : Nat)
  | sessionExpiry (i : Nat)
  | extend (i : Nat)
  | logout (tokenHash : String)
  | signOutEverywhere (userId : Uuid)
  | sweep (at_ : Nat)
  deriving DecidableEq

namespace SessionSystem

/-- No one has signed in yet. -/
def start (clock : Nat) : SessionSystem := ⟨clock, [], [], []⟩

def setStage (s : SessionSystem) (i : Nat) (stage : SessionStage) : SessionSystem :=
  { s with requests := s.requests.modify i fun r => { r with stage } }

/-- One event, where it can happen.  A token is 256 random bits: no two sign-ins
get the same. -/
def step (s : SessionSystem) : SessionEvent → Option SessionSystem
  | .tick ms => some { s with clock := s.clock + ms }
  | .login tokenHash userId at_ =>
    if s.clock < at_ || s.issued.contains tokenHash then none
    else (createSession s.sessions tokenHash userId (PressLabz.sessionExpiry at_)).map fun sessions =>
      { s with sessions, issued := tokenHash :: s.issued }
  | .ask tokenHash => some { s with requests := s.requests ++ [⟨tokenHash, .asked s.clock⟩] }
  | .answer i =>
    match s.requests[i]? with
    | some ⟨tokenHash, .asked at_⟩ =>
      match findValidSession s.sessions tokenHash at_ with
      | none => some (s.setStage i (.done false))
      | some session => some (s.setStage i (.found session))
    | _ => none
  | .shouldRenew i =>
    match s.requests[i]? with
    | some ⟨_, .found session⟩ =>
      some (s.setStage i
        (if PressLabz.shouldRenew session.expiresAt s.clock then .renewing else .done true))
    | _ => none
  | .sessionExpiry i =>
    match s.requests[i]? with
    | some ⟨_, .renewing⟩ => some (s.setStage i (.extending (PressLabz.sessionExpiry s.clock)))
    | _ => none
  | .extend i =>
    match s.requests[i]? with
    | some ⟨tokenHash, .extending next⟩ =>
      some ({ s with sessions := extendSession s.sessions tokenHash next }.setStage i (.done true))
    | _ => none
  | .logout tokenHash => some { s with sessions := deleteSession s.sessions tokenHash }
  | .signOutEverywhere userId =>
    some { s with sessions := deleteSessionsForUser s.sessions userId }
  | .sweep at_ =>
    if s.clock < at_ then none
    else some { s with sessions := (deleteExpiredSessions s.sessions at_).1 }

/-- The runs whose steps are all allowed. -/
inductive Runs (allowed : SessionSystem → SessionEvent → Prop) :
    SessionSystem → SessionSystem → Prop
  | refl (s : SessionSystem) : Runs allowed s s
  | tail {s t u : SessionSystem} (e : SessionEvent) : Runs allowed s t → allowed t e →
      t.step e = some u → Runs allowed s u

/-- The events of a list, one after the other. -/
def run (s : SessionSystem) (events : List SessionEvent) : Option SessionSystem :=
  events.foldlM step s

/-- Every step there is. -/
def everything (_ : SessionSystem) (_ : SessionEvent) : Prop := True

/-- An extension finds no row that has expired meanwhile. -/
def RenewsLive (s : SessionSystem) (e : SessionEvent) : Prop :=
  ∀ i tokenHash next, e = .extend i → s.requests[i]? = some ⟨tokenHash, .extending next⟩ →
    ∀ row ∈ s.sessions, row.id = tokenHash → s.clock < row.expiresAt

/-- A look-up of a token that someone signed in with found nothing in `s`. -/
def FoundNothing (s : SessionSystem) (tokenHash : String) (i : Nat) : Prop :=
  tokenHash ∈ s.issued ∧ ∃ at_, s.requests[i]? = some ⟨tokenHash, .asked at_⟩ ∧
    findValidSession s.sessions tokenHash at_ = none

/-- A session that is over stays over: in every run whose steps are allowed, a
look-up that found nothing (at `s`) is followed by no look-up (asked at `t`,
answered at `u`) that finds a session of the token. -/
def OverStaysOver (allowed : SessionSystem → SessionEvent → Prop) : Prop :=
  ∀ (clock : Nat) (s s' t t' u : SessionSystem) (tokenHash : String) (i : Nat) (at_ : Nat),
    Runs allowed (start clock) s → s.FoundNothing tokenHash i → s.step (.answer i) = some s' →
    Runs allowed s' t → t.step (.ask tokenHash) = some t' → Runs allowed t' u →
    u.requests[t.requests.length]? = some ⟨tokenHash, .asked at_⟩ →
    findValidSession u.sessions tokenHash at_ = none

/-! ## What a step does -/

variable {s s' : SessionSystem} {e : SessionEvent}

/-- A request that is asking after another one has moved was asking before. -/
theorem setStage_asked {i j : Nat} {stage : SessionStage} {r : SessionRequest} {at_ : Nat}
    (hstage : ∀ at_, stage ≠ .asked at_) (hr : (s.setStage i stage).requests[j]? = some r)
    (hasked : r.stage = .asked at_) : s.requests[j]? = some r := by
  rw [setStage, List.getElem?_modify] at hr
  obtain ⟨r₀, hr₀, rfl⟩ := Option.map_eq_some_iff.mp hr
  by_cases hij : i = j
  · simp only [hij, if_true] at hasked
    exact absurd hasked (hstage at_)
  · simpa [hij] using hr₀

/-- **What a step can do.** -/
theorem step_cases (h : s.step e = some s') :
    (∃ ms, s' = { s with clock := s.clock + ms }) ∨
    (∃ row : SessionRow, row.id ∉ s.issued ∧
      s' = { s with sessions := row :: s.sessions, issued := row.id :: s.issued }) ∨
    (∃ keep : SessionRow → Bool, s' = { s with sessions := s.sessions.filter keep }) ∨
    (∃ tokenHash, s' = { s with requests := s.requests ++ [⟨tokenHash, .asked s.clock⟩] }) ∨
    (∃ i stage, (∀ at_, stage ≠ .asked at_) ∧ s' = s.setStage i stage) ∨
    ∃ i tokenHash next, e = .extend i ∧
      s.requests[i]? = some ⟨tokenHash, .extending next⟩ ∧
      s' = { s with sessions := extendSession s.sessions tokenHash next }.setStage i (.done true) := by
  cases e with
  | tick ms => exact .inl ⟨ms, (Option.some.inj h).symm⟩
  | login tokenHash userId at_ =>
    simp only [step] at h
    split at h
    · cases h
    · rename_i hfresh
      obtain ⟨sessions, hcreated, rfl⟩ := Option.map_eq_some_iff.mp h
      rw [createSession] at hcreated
      split at hcreated
      · cases hcreated
      · cases hcreated
        exact .inr (.inl ⟨⟨tokenHash, userId, PressLabz.sessionExpiry at_⟩, by simp_all, rfl⟩)
  | ask tokenHash => exact .inr (.inr (.inr (.inl ⟨tokenHash, (Option.some.inj h).symm⟩)))
  | answer i =>
    simp only [step] at h
    repeat' split at h
    all_goals cases h
    -- whatever the lookup found, only the stage of the request changes
    all_goals exact .inr (.inr (.inr (.inr (.inl ⟨i, _, by simp, rfl⟩))))
  | shouldRenew i =>
    simp only [step] at h
    split at h
    · cases h
      exact .inr (.inr (.inr (.inr (.inl ⟨i, _, by intro at_; split <;> simp, rfl⟩))))
    · cases h
  | sessionExpiry i =>
    simp only [step] at h
    split at h
    · cases h
      exact .inr (.inr (.inr (.inr (.inl ⟨i, _, by simp, rfl⟩))))
    · cases h
  | extend i =>
    simp only [step] at h
    split at h
    · rename_i tokenHash next hi
      cases h
      exact .inr (.inr (.inr (.inr (.inr ⟨i, tokenHash, next, rfl, hi, rfl⟩))))
    · cases h
  | logout tokenHash => exact .inr (.inr (.inl ⟨_, (Option.some.inj h).symm⟩))
  | signOutEverywhere userId => exact .inr (.inr (.inl ⟨_, (Option.some.inj h).symm⟩))
  | sweep at_ =>
    simp only [step] at h
    split at h
    · cases h
    · exact .inr (.inr (.inl ⟨_, (Option.some.inj h).symm⟩))

/-- Time does not go back, requests stay, and a question carries the moment it was
asked at. -/
theorem step_requests (h : s.step e = some s') : s.clock ≤ s'.clock ∧
    s.requests.length ≤ s'.requests.length ∧
    ∀ j r at_, s'.requests[j]? = some r → r.stage = .asked at_ →
      s.requests[j]? = some r ∨ s.requests.length ≤ j ∧ at_ = s.clock := by
  rcases step_cases h with ⟨ms, rfl⟩ | ⟨row, -, rfl⟩ | ⟨keep, rfl⟩ | ⟨tokenHash, rfl⟩ |
    ⟨i, stage, hstage, rfl⟩ | ⟨i, tokenHash, next, -, -, rfl⟩
  · exact ⟨Nat.le_add_right _ _, Nat.le_refl _, fun j r at_ hr _ => Or.inl hr⟩
  · exact ⟨Nat.le_refl _, Nat.le_refl _, fun j r at_ hr _ => Or.inl hr⟩
  · exact ⟨Nat.le_refl _, Nat.le_refl _, fun j r at_ hr _ => Or.inl hr⟩
  · refine ⟨Nat.le_refl _, by simp, fun j r at_ hr hasked => ?_⟩
    rcases Nat.lt_or_ge j s.requests.length with hlt | hge
    · exact Or.inl (by rwa [List.getElem?_append_left hlt] at hr)
    · rw [List.getElem?_append_right hge] at hr
      obtain rfl := List.mem_singleton.mp (List.mem_of_getElem? hr)
      exact Or.inr ⟨hge, by simpa using hasked.symm⟩
  · exact ⟨Nat.le_refl _, by simp [setStage],
      fun j r at_ hr hasked => Or.inl (setStage_asked hstage hr hasked)⟩
  · exact ⟨Nat.le_refl _, by simp [setStage],
      fun j r at_ hr hasked => Or.inl (setStage_asked (by simp) hr hasked)⟩

/-- Where a row of the table comes from: it was there, someone signed in with a
new token, or a request extended it. -/
theorem step_sessions (h : s.step e = some s') : s.issued ⊆ s'.issued ∧
    ∀ row ∈ s'.sessions, row ∈ s.sessions ∨ row.id ∉ s.issued ∨
      ∃ i row₀, e = .extend i ∧ row₀ ∈ s.sessions ∧ row₀.id = row.id ∧
        s.requests[i]? = some ⟨row.id, .extending row.expiresAt⟩ := by
  rcases step_cases h with ⟨ms, rfl⟩ | ⟨new, hnew, rfl⟩ | ⟨keep, rfl⟩ | ⟨tokenHash, rfl⟩ |
    ⟨i, stage, -, rfl⟩ | ⟨i, tokenHash, next, rfl, hi, rfl⟩
  · exact ⟨List.Subset.refl _, fun row hrow => Or.inl hrow⟩
  · refine ⟨List.subset_cons_self _ _, fun row hrow => ?_⟩
    rcases List.mem_cons.mp hrow with rfl | hrow
    · exact Or.inr (Or.inl hnew)
    · exact Or.inl hrow
  · exact ⟨List.Subset.refl _, fun row hrow => Or.inl (List.filter_subset_self _ hrow)⟩
  · exact ⟨List.Subset.refl _, fun row hrow => Or.inl hrow⟩
  · exact ⟨List.Subset.refl _, fun row hrow => Or.inl hrow⟩
  · refine ⟨List.Subset.refl _, fun row hrow => ?_⟩
    obtain ⟨row₀, hrow₀, rfl⟩ := List.mem_map.mp hrow
    by_cases heq : row₀.id = tokenHash
    · exact Or.inr (Or.inr ⟨i, row₀, rfl, hrow₀, by simp [heq], by simpa [heq] using hi⟩)
    · exact Or.inl (by simpa [heq] using hrow₀)

/-- No question carries a moment that is still to come. -/
theorem asked_le_clock {allowed : SessionSystem → SessionEvent → Prop} {clock : Nat}
    (hrun : Runs allowed (start clock) s) {j : Nat} {r : SessionRequest} {at_ : Nat}
    (hr : s.requests[j]? = some r) (hasked : r.stage = .asked at_) : at_ ≤ s.clock := by
  induction hrun generalizing j r at_ with
  | refl => simp [start] at hr
  | tail e _ _ hstep ih =>
    obtain ⟨hclock, -, hstamp⟩ := step_requests hstep
    rcases hstamp j r at_ hr hasked with hold | ⟨-, rfl⟩
    · exact Nat.le_trans (ih hold hasked) hclock
    · exact hclock

theorem Runs.run {t : SessionSystem} (h : Runs everything t s) {events : List SessionEvent}
    (hevents : s.run events = some s') : Runs everything t s' := by
  induction events generalizing s with
  | nil =>
    cases hevents
    exact h
  | cons e events ih =>
    rw [SessionSystem.run, List.foldlM_cons] at hevents
    obtain ⟨u, hu, hrest⟩ := Option.bind_eq_some_iff.mp hevents
    exact ih (h.tail e trivial hu) hrest

/-! ## A session that is over -/

/-- The session of the token was over at `since`, when there were `n` requests;
whoever asked after them asked later. -/
structure Over (tokenHash : String) (since n : Nat) (s : SessionSystem) : Prop where
  issued : tokenHash ∈ s.issued
  clock : since ≤ s.clock
  expired : ∀ row ∈ s.sessions, row.id = tokenHash → row.expiresAt ≤ since
  requests : n ≤ s.requests.length
  asked : ∀ j r at_, n ≤ j → s.requests[j]? = some r → r.stage = .asked at_ → since ≤ at_

variable {tokenHash : String} {since n : Nat}

theorem Over.step (h : Over tokenHash since n s) (hlive : s.RenewsLive e)
    (hstep : s.step e = some s') : Over tokenHash since n s' := by
  obtain ⟨hclock, hlength, hstamp⟩ := step_requests hstep
  obtain ⟨hissued, hrows⟩ := step_sessions hstep
  refine ⟨hissued h.issued, Nat.le_trans h.clock hclock, fun row hrow hid => ?_,
    Nat.le_trans h.requests hlength, fun j r at_ hj hr hasked => ?_⟩
  · rcases hrows row hrow with hold | hnew | ⟨i, row₀, rfl, hrow₀, hid₀, hi⟩
    · exact h.expired row hold hid
    · exact absurd (hid ▸ h.issued) hnew
    · -- the row that was extended had expired, so this is no step of the run
      have hexpired := h.expired row₀ hrow₀ (hid₀.trans hid)
      have hunexpired := hlive i row.id _ rfl hi row₀ hrow₀ hid₀
      have hpast := h.clock
      omega
  · rcases hstamp j r at_ hr hasked with hold | ⟨-, rfl⟩
    · exact h.asked j r at_ hj hold hasked
    · exact h.clock

theorem Over.runs (h : Over tokenHash since n s) (hrun : Runs RenewsLive s s') :
    Over tokenHash since n s' := by
  induction hrun with
  | refl => exact h
  | tail e _ hlive hstep ih => exact ih.step hlive hstep

/-- A look-up that found nothing was of a session that is over. -/
theorem FoundNothing.over {allowed : SessionSystem → SessionEvent → Prop} {clock i : Nat}
    (hrun : Runs allowed (start clock) s) (h : s.FoundNothing tokenHash i) :
    Over tokenHash s.clock s.requests.length s where
  issued := h.1
  clock := Nat.le_refl _
  expired row hrow hid := by
    obtain ⟨-, at_, hi, hnone⟩ := h
    exact Nat.le_trans (findValidSession_eq_none.mp hnone row hrow hid)
      (asked_le_clock hrun hi rfl)
  requests := Nat.le_refl _
  asked j r at_ hj hr _ := by
    rw [List.getElem?_eq_none hj] at hr
    cases hr

/-- While every extension finds its row unexpired, a session that is over stays
over. -/
theorem over_stays_over {clock : Nat} {s s' t t' u : SessionSystem} {tokenHash : String}
    {i at_ : Nat} (hstart : Runs RenewsLive (start clock) s)
    (hnothing : s.FoundNothing tokenHash i) (hanswer : s.step (.answer i) = some s')
    (hbetween : Runs RenewsLive s' t) (hask : t.step (.ask tokenHash) = some t')
    (hafter : Runs RenewsLive t' u)
    (hasked : u.requests[t.requests.length]? = some ⟨tokenHash, .asked at_⟩) :
    findValidSession u.sessions tokenHash at_ = none := by
  have hover : Over tokenHash s.clock s.requests.length s' :=
    (hnothing.over hstart).step (fun _ _ _ he => by cases he) hanswer
  have ht := hover.runs hbetween
  have hu := (ht.step (fun _ _ _ he => by cases he) hask).runs hafter
  refine findValidSession_eq_none.mpr fun row hrow hid => ?_
  exact Nat.le_trans (hu.expired row hrow hid) (hu.asked _ _ at_ ht.requests hasked rfl)

/-- A session that is asked for at its last instant is over when it is asked for once more. -/
theorem over_stays_over_asked_twice :
    findValidSession [⟨"a", 1, 2592000000⟩] "a" 2592000001 = none := by
  have hlive {s : SessionSystem} {e : SessionEvent} (he : ∀ i, e ≠ .extend i) : s.RenewsLive e :=
    fun i _ _ h => absurd h (he i)
  have hstart : Runs RenewsLive (start 0)
      ⟨2592000000, [⟨"a", 1, 2592000000⟩], ["a"], [⟨"a", .asked 2592000000⟩]⟩ :=
    (((Runs.refl (start 0)).tail (.login "a" 1 0) (hlive (by simp)) rfl).tail
      (.tick 2592000000) (hlive (by simp)) rfl).tail (.ask "a") (hlive (by simp)) rfl
  have hnothing : FoundNothing ⟨2592000000, [⟨"a", 1, 2592000000⟩], ["a"],
      [⟨"a", .asked 2592000000⟩]⟩ "a" 0 := ⟨by decide, 2592000000, rfl, rfl⟩
  exact over_stays_over hstart hnothing rfl
    ((Runs.refl _).tail (.tick 1) (hlive (by simp)) rfl) rfl (.refl _) rfl

/-- An extension that lands on a row that has expired signs its token in again:
nothing but the row's being there matters. -/
theorem extend_revives {i next : Nat} {row : SessionRow}
    (hi : s.requests[i]? = some ⟨row.id, .extending next⟩) (hrow : row ∈ s.sessions)
    (hnext : s.clock < next) : ∃ s', s.step (.extend i) = some s' ∧
      findValidSession s'.sessions row.id s'.clock ≠ none := by
  refine ⟨{ s with sessions := extendSession s.sessions row.id next }.setStage i (.done true),
    by simp only [step, hi], ?_⟩
  exact findValidSession_extendSession hrow hnext

/-- The last millisecond of a session: a request has found it, and is about to
extend it. -/
def lateRenewal : List SessionEvent :=
  [.login "a" 1 0, .tick 2591999999, .ask "a", .answer 0, .shouldRenew 0, .sessionExpiry 0,
    .tick 1, .ask "a"]

/-- A second request is told that the session is over; then the first extends it,
and a third request is signed in. -/
theorem not_overStaysOver : ¬ OverStaysOver everything := by
  intro h
  have hfound := h 0 _ _ _ _ _ "a" 1 2592000000
    ((Runs.refl _).run (show (start 0).run lateRenewal = some ⟨2592000000,
      [⟨"a", 1, 2592000000⟩], ["a"],
      [⟨"a", .extending 5183999999⟩, ⟨"a", .asked 2592000000⟩]⟩ from rfl))
    ⟨by decide, 2592000000, rfl, rfl⟩ rfl
    ((Runs.refl _).tail (.extend 0) trivial rfl) rfl (.refl _) rfl
  cases hfound

end SessionSystem
end PressLabz
