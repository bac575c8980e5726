import Mathlib.Logic.Relation
import PressLabz.InitialAdministrator
import PressLabz.Sessions

/-! # Who a request is

`apps/api/src/auth`: the hook that turns a cookie into `request.user`, the two guards
behind it, and the routes that sign in and out, over the tables `users` and `sessions`.

Any number of requests are under way, each somewhere between two of its statements.
Time passes between them, sessions are swept, and the users may change in any way:
accounts come and go, are renamed, promoted and demoted, and get other passwords.
`handled_for` says what a handler behind a guard may rely on.
-/
namespace PressLabz

/-! ## Capabilities -/

inductive Role where
  | subscriber | contributor | author | editor | administrator
  deriving DecidableEq

def Role.label : Role → String
  | .subscriber => "subscriber"
  | .contributor => "contributor"
  | .author => "author"
  | .editor => "editor"
  | .administrator => "administrator"

def DEFAULT_ROLE : Role := .subscriber

/-- The role a label names, if `isRole` says it is one. -/
def roleOf (label : String) : Option Role :=
  [Role.subscriber, .contributor, .author, .editor, .administrator].find? (·.label = label)

def SUBSCRIBER : List Capability := [.contentRead, .mediaRead]

def CONTRIBUTOR : List Capability :=
  SUBSCRIBER ++ [.contentCreate, .contentUpdateOwn, .contentDeleteOwn]

def AUTHOR : List Capability := CONTRIBUTOR ++ [.contentPublish, .mediaUpload, .mediaUpdateOwn]

def EDITOR : List Capability :=
  AUTHOR ++ [.contentUpdateAny, .contentDeleteAny, .mediaUpdateAny, .mediaDeleteAny,
    .termsManage, .usersRead]

def ADMINISTRATOR : List Capability := EDITOR ++ [.usersManage, .settingsManage, .pluginsManage]

def capabilitiesFor : Role → List Capability
  | .subscriber => SUBSCRIBER
  | .contributor => CONTRIBUTOR
  | .author => AUTHOR
  | .editor => EDITOR
  | .administrator => ADMINISTRATOR

/-! ## Users -/

structure AuthenticatedUser where
  id : Uuid
  email : String
  displayName : String
  role : Role
  locale : String
  themePreference : String
  capabilities : List Capability
  deriving DecidableEq

/-- The stored row, brought back inside its vocabularies. -/
def toAuthenticatedUser (row : UserRow) : AuthenticatedUser :=
  let role := (roleOf row.role).getD DEFAULT_ROLE
  { id := row.id
    email := row.email
    displayName := row.displayName
    role
    locale := if row.locale ∈ LOCALES then row.locale else DEFAULT_LOCALE
    themePreference :=
      if row.themePreference ∈ THEME_PREFERENCES then row.themePreference else "system"
    capabilities := capabilitiesFor role }

def actorOf (user : AuthenticatedUser) : Actor := ⟨user.capabilities, some user.id⟩

namespace Authentication

/-- What the routes are given: `lower` of the database, SHA-256, Argon2, which may
throw, and the environment. -/
structure Platform where
  lower : String → String
  hashSessionToken : String → String
  verify : String → String → Option Bool
  isProduction : Bool

structure Tables where
  users : List UserRow
  sessions : List SessionRow

/-! ## Statements -/

section Statements
variable (p : Platform)

def findUserByEmail (users : List UserRow) (email : String) : Option UserRow :=
  users.find? fun user => p.lower user.email = p.lower email

/-- A digest that Argon2 cannot read denies access. -/
def verifyPassword (digest password : String) : Bool := (p.verify digest password).getD false

/-- `findValidSession`, with the user of its join. -/
def findSessionAndUser (tables : Tables) (tokenHash : String) (now : Nat) :
    Option (SessionRow × UserRow) :=
  (findValidSession tables.sessions tokenHash now).bind fun session =>
    (tables.users.find? (·.id = session.userId)).map fun user => (session, user)

/-- `createSession`, which the foreign key refuses for a user who is gone. -/
def openSession (tables : Tables) (tokenHash : String) (userId : Uuid) (expiresAt : Nat) :
    Option Tables :=
  if tables.users.any (·.id = userId) then
    (createSession tables.sessions tokenHash userId expiresAt).map fun sessions =>
      { tables with sessions }
  else none

end Statements

/-! ## Requests -/

structure CookieOptions where
  httpOnly : Bool
  sameSite : String
  secure : Bool
  path : String
  maxAge : Nat

def sessionCookieOptions (isProduction : Bool) : CookieOptions where
  httpOnly := true
  sameSite := "lax"
  secure := isProduction
  path := "/"
  maxAge := SESSION_TTL_MS / 1000

inductive SetCookie where
  | session (token : String) (options : CookieOptions)
  | cleared (path : String)

/-- `none` for a body that is no object with these two texts. -/
structure LoginBody where
  email : String
  password : String

def LoginBody.accepted (body : LoginBody) : Bool :=
  1 ≤ jsLength body.email && jsLength body.email ≤ 320 &&
    1 ≤ jsLength body.password && jsLength body.password ≤ 1024

/-- What the request is for: behind `requireAuth`, `requireCapability` or no guard, if it
is neither of the two routes that open and close sessions. -/
inductive Route where
  | login (body : Option LoginBody)
  | logout
  | guarded (required : Option Capability)
  | unguarded

inductive Answer where
  | badRequest
  | unauthorized
  | forbidden (required : Capability)
  | invalidCredentials
  | signedIn (user : AuthenticatedUser)
  | signedOut
  /-- The statement failed. -/
  | failed

def Answer.status : Answer → Nat
  | .badRequest => 400
  | .unauthorized => 401
  | .forbidden _ => 403
  | .invalidCredentials => 401
  | .signedIn _ => 200
  | .signedOut => 204
  | .failed => 500

def Answer.error : Answer → Option String
  | .badRequest => some "invalid_request"
  | .unauthorized => some "unauthorized"
  | .forbidden _ => some "forbidden"
  | .invalidCredentials => some "invalid_credentials"
  | .signedIn _ => none
  | .signedOut => none
  | .failed => some "internal"

/-- Where a request is on its way through the hook and the route. -/
inductive Stage where
  /-- `findValidSession` is under way, with the `new Date()` of its query. -/
  | looking (at_ : Nat)
  /-- `findValidSession` has found a session and its user. -/
  | found (session : SessionRow) (user : UserRow)
  /-- `extendSession` is under way. -/
  | extending (next : Nat)
  /-- The hook is over, and the guard of the route comes next. -/
  | routing
  /-- `findUserByEmail` is under way. -/
  | finding (body : LoginBody)
  | verifying (body : LoginBody) (user : UserRow) (digest : String)
  | equalizing
  /-- `createSession` is under way, for a password that was right. -/
  | creating (body : LoginBody) (user : UserRow) (token : String) (expiresAt : Nat)
  /-- Answered: the session is there, and its token is handed out. -/
  | opened (body : LoginBody) (user : UserRow) (token : String)
  /-- `deleteSession` is under way. -/
  | closing (token : String)
  /-- The request is past its guard. -/
  | handling
  | answered (answer : Answer)

structure Request where
  cookie : Option String
  route : Route
  user : Option AuthenticatedUser
  setCookies : List SetCookie
  /-- The sessions the request gave a lifetime to, and when it counted from. -/
  lifetimes : List (String × Nat)
  stage : Stage

/-- `if (!token) return` passes an empty cookie over. -/
def Request.token (request : Request) : Option String := request.cookie.filter (· ≠ "")

/-- A request that arrives: the hook asks at once, if there is something to ask. -/
def Request.arrive (cookie : Option String) (route : Route) (clock : Nat) : Request where
  cookie
  route
  user := none
  setCookies := []
  lifetimes := []
  stage := if (cookie.filter (· ≠ "")).isSome then .looking clock else .routing

section Requests
variable (p : Platform)

def Request.answer (request : Request) (answer : Answer) : Request :=
  { request with stage := .answered answer }

def Request.set (request : Request) (cookie : SetCookie) : Request :=
  { request with setCookies := request.setCookies ++ [cookie] }

def Request.lives (request : Request) (tokenHash : String) (since : Nat) : Request :=
  { request with lifetimes := (tokenHash, since) :: request.lifetimes }

/-- The guard of the route, and what is behind it. -/
def Request.routed (request : Request) : Request :=
  match request.route with
  | .login body =>
    match body.filter LoginBody.accepted with
    | none => request.answer .badRequest
    | some body => { request with stage := .finding body }
  | .logout =>
    match request.token with
    | some token => { request with stage := .closing token }
    | none => (request.set (.cleared "/")).answer .signedOut
  | .guarded required =>
    match request.user with
    | none => request.answer .unauthorized
    | some user =>
      match required.filter (· ∉ user.capabilities) with
      | none => { request with stage := .handling }
      | some missing => request.answer (.forbidden missing)
  | .unguarded => { request with stage := .handling }

/-- What a request does next: the statement it waits for, as the tables are now, or what
it makes of the last one, up to its next.  `clock` is now, `later` when a second look at the
clock is taken, and `drawn` what `generateSessionToken` would draw. -/
def Request.advance (clock later : Nat) (drawn : String) (tables : Tables) (request : Request) :
    Option (Tables × Request) :=
  match request.stage with
  | .looking at_ =>
    match request.token with
    | none => none
    | some token =>
      match findSessionAndUser tables (p.hashSessionToken token) at_ with
      | none => some (tables, { request.set (.cleared "/") with stage := .routing })
      | some (session, user) => some (tables, { request with stage := .found session user })
  | .found session user =>
    let request := { request with user := some (toAuthenticatedUser user) }
    if shouldRenew session.expiresAt clock then
      some (tables,
        { request.lives session.id later with stage := .extending (sessionExpiry later) })
    else some (tables, { request with stage := .routing })
  | .extending next =>
    match request.token with
    | none => none
    | some token =>
      some ({ tables with
          sessions := extendSession tables.sessions (p.hashSessionToken token) next },
        { request.set (.session token (sessionCookieOptions p.isProduction)) with
          stage := .routing })
  | .routing => some (tables, request.routed)
  | .finding body =>
    match findUserByEmail p tables.users body.email with
    | none => some (tables, { request with stage := .equalizing })
    | some user =>
      -- no digest and an empty one are one
      match user.passwordHash.filter (· ≠ "") with
      | none => some (tables, { request with stage := .equalizing })
      | some digest => some (tables, { request with stage := .verifying body user digest })
  | .verifying body user digest =>
    if verifyPassword p digest body.password then
      some (tables, { request.lives (p.hashSessionToken drawn) later with
        stage := .creating body user drawn (sessionExpiry later) })
    else some (tables, request.answer .invalidCredentials)
  | .equalizing => some (tables, request.answer .invalidCredentials)
  | .creating body user token expiresAt =>
    match openSession tables (p.hashSessionToken token) user.id expiresAt with
    | none => some (tables, request.answer .failed)
    | some tables =>
      some (tables, { request.set (.session token (sessionCookieOptions p.isProduction)) with
        stage := .opened body user token })
  | .closing token =>
    some ({ tables with sessions := deleteSession tables.sessions (p.hashSessionToken token) },
      (request.set (.cleared "/")).answer .signedOut)
  | .opened .. | .handling | .answered _ => none

def Request.reply (request : Request) : Option Answer :=
  match request.stage with
  | .opened _ user _ => some (.signedIn (toAuthenticatedUser user))
  | .answered answer => some answer
  | _ => none

end Requests

/-! ## Runs -/

structure State where
  clock : Nat
  tables : Tables
  requests : List Request

/-- One step of the system: a request arrives, moves on or fails, the clock runs, or others
change the users. -/
inductive Step (p : Platform) : State → State → Prop
  | tick (s : State) (ms : Nat) : Step p s { s with clock := s.clock + ms }
  | arrive (s : State) (cookie : Option String) (route : Route) :
      Step p s { s with requests := s.requests ++ [Request.arrive cookie route s.clock] }
  | advance (s : State) (i : Nat) (request next : Request) (later : Nat) (drawn : String)
      (tables : Tables) (hrequest : s.requests[i]? = some request) (hlater : s.clock ≤ later)
      (hnext : request.advance p s.clock later drawn s.tables = some (tables, next)) :
      Step p s ⟨later, tables, s.requests.set i next⟩
  /-- A statement fails, or the connection of the request is lost. -/
  | fail (s : State) (i : Nat) (request : Request) (hrequest : s.requests[i]? = some request)
      (hunder : request.reply = none) :
      Step p s { s with requests := s.requests.set i (request.answer .failed) }
  /-- Whatever becomes of the users, the sessions of those who are gone go with them. -/
  | users (s : State) (users : List UserRow) :
      Step p s { s with tables := ⟨users,
        s.tables.sessions.filter fun session => users.any (·.id = session.userId)⟩ }
  | signOutEverywhere (s : State) (userId : Uuid) :
      Step p s { s with tables.sessions := deleteSessionsForUser s.tables.sessions userId }
  | sweep (s : State) (at_ : Nat) :
      Step p s { s with tables.sessions := (deleteExpiredSessions s.tables.sessions at_).1 }

abbrev Runs (p : Platform) : State → State → Prop := Relation.ReflTransGen (Step p)

/-- The system before anybody has signed in. -/
def start (clock : Nat) (users : List UserRow) : State := ⟨clock, ⟨users, []⟩, []⟩

def Reachable (p : Platform) (s : State) : Prop := ∃ clock users, Runs p (start clock users) s

/-- Some earlier state on the way to here had a property. -/
def Once (p : Platform) (s : State) (P : State → Prop) : Prop :=
  ∃ before, Reachable p before ∧ Runs p before s ∧ P before

section Evidence
variable (p : Platform)

/-- A password that was right for a user found by the address it came with. -/
structure Proven (body : LoginBody) (user : UserRow) (s : State) : Prop where
  accepted : body.accepted = true
  found : findUserByEmail p s.tables.users body.email = some user
  right : ∃ digest, user.passwordHash = some digest ∧ p.verify digest body.password = some true

/-- The sign-in whose token a session answers to. -/
structure Opens (session : SessionRow) (body : LoginBody) (user : UserRow) (token : String)
    (s : State) (request : Request) : Prop where
  route : request.route = .login (some body)
  stage : request.stage = .opened body user token
  hash : p.hashSessionToken token = session.id
  owner : user.id = session.userId
  proven : Once p s (Proven p body user)

/-- The look-up that made a request the request of a user. -/
structure LookedUp (i : Nat) (token : String) (session : SessionRow) (user : UserRow)
    (s : State) : Prop where
  asked : ∃ waiting at_, s.requests[i]? = some waiting ∧ waiting.stage = .looking at_ ∧
    at_ ≤ s.clock ∧ at_ < session.expiresAt
  session_mem : session ∈ s.tables.sessions
  hash : session.id = p.hashSessionToken token
  user_mem : user ∈ s.tables.users
  owner : user.id = session.userId

/-- What the stage of a request says of its past. -/
def Staged (s : State) (i : Nat) (request : Request) : Prop :=
  match request.stage with
  | .looking at_ => at_ ≤ s.clock
  | .found session user =>
    ∃ token, request.token = some token ∧ Once p s (LookedUp p i token session user)
  | .extending next => ∃ token since, request.token = some token ∧
      (p.hashSessionToken token, since) ∈ request.lifetimes ∧ next = sessionExpiry since
  | .finding body => request.route = .login (some body) ∧ body.accepted = true
  | .verifying body user digest => request.route = .login (some body) ∧
      body.accepted = true ∧ user.passwordHash = some digest ∧
      Once p s fun before => findUserByEmail p before.tables.users body.email = some user
  | .creating body user token expiresAt => request.route = .login (some body) ∧
      Once p s (Proven p body user) ∧
      ∃ since, (p.hashSessionToken token, since) ∈ request.lifetimes ∧
        expiresAt = sessionExpiry since
  | .opened body user _ => request.route = .login (some body) ∧ Once p s (Proven p body user)
  | .handling => ∀ required, request.route = .guarded required →
      ∃ user, request.user = some user ∧ ∀ capability ∈ required, capability ∈ user.capabilities
  | .routing | .equalizing | .closing _ | .answered _ => True

/-- What is known of a request. -/
structure Explained (s : State) (i : Nat) (request : Request) : Prop where
  user : ∀ user, request.user = some user → ∃ token session row, request.token = some token ∧
    user = toAuthenticatedUser row ∧ Once p s (LookedUp p i token session row)
  lifetimes : ∀ l ∈ request.lifetimes, l.2 ≤ s.clock
  staged : Staged p s i request

/-- Every session was opened by a sign-in, and lives from when a request said. -/
structure Inv (s : State) : Prop where
  requests : ∀ (i : Nat) request, s.requests[i]? = some request → Explained p s i request
  opened : ∀ session ∈ s.tables.sessions, ∃ (j : Nat) (request : Request) (body : LoginBody)
    (user : UserRow) (token : String),
    s.requests[j]? = some request ∧ Opens p session body user token s request
  lived : ∀ session ∈ s.tables.sessions, ∃ (j : Nat) (request : Request) (since : Nat),
    s.requests[j]? = some request ∧ (session.id, since) ∈ request.lifetimes ∧
      session.expiresAt = sessionExpiry since

end Evidence

/-! ## What a step keeps -/

section Steps
variable {p : Platform} {s s' : State} {i : Nat} {request next : Request} {tables : Tables}

theorem Reachable.runs (h : Reachable p s) (hruns : Runs p s s') : Reachable p s' := by
  obtain ⟨clock, users, hstart⟩ := h
  exact ⟨clock, users, hstart.trans hruns⟩

theorem Once.now {P : State → Prop} (hr : Reachable p s) (h : P s) : Once p s P :=
  ⟨s, hr, .refl, h⟩

theorem Once.later {P : State → Prop} (h : Once p s P) (hruns : Runs p s s') : Once p s' P := by
  obtain ⟨before, hr, hbefore, hP⟩ := h
  exact ⟨before, hr, hbefore.trans hruns, hP⟩

theorem Once.imp {P Q : State → Prop} (h : Once p s P) (hPQ : ∀ before, P before → Q before) :
    Once p s Q := by
  obtain ⟨before, hr, hbefore, hP⟩ := h
  exact ⟨before, hr, hbefore, hPQ before hP⟩

/-- What is known of a request stays known. -/
theorem Explained.later (h : Explained p s i request) (hruns : Runs p s s')
    (hclock : s.clock ≤ s'.clock) : Explained p s' i request := by
  refine ⟨fun user huser => ?_, fun l hl => Nat.le_trans (h.lifetimes l hl) hclock, ?_⟩
  · obtain ⟨token, session, row, htoken, hrow, hlooked⟩ := h.user user huser
    exact ⟨token, session, row, htoken, hrow, hlooked.later hruns⟩
  · have hstaged := h.staged
    unfold Staged at hstaged ⊢
    cases hstage : request.stage with
    | looking at_ => rw [hstage] at hstaged; exact Nat.le_trans hstaged hclock
    | found session user =>
      rw [hstage] at hstaged
      obtain ⟨token, htoken, hlooked⟩ := hstaged
      exact ⟨token, htoken, hlooked.later hruns⟩
    | verifying body user digest =>
      rw [hstage] at hstaged
      obtain ⟨hroute, haccepted, hdigest, hfound⟩ := hstaged
      exact ⟨hroute, haccepted, hdigest, hfound.later hruns⟩
    | creating body user token expiresAt =>
      rw [hstage] at hstaged
      obtain ⟨hroute, hproven, hlives⟩ := hstaged
      exact ⟨hroute, hproven.later hruns, hlives⟩
    | opened body user token =>
      rw [hstage] at hstaged
      exact ⟨hstaged.1, hstaged.2.later hruns⟩
    | _ => rw [hstage] at hstaged; exact hstaged

theorem findSessionAndUser_some {tokenHash : String} {at_ : Nat} {session : SessionRow}
    {user : UserRow} (h : findSessionAndUser tables tokenHash at_ = some (session, user)) :
    session ∈ tables.sessions ∧ session.id = tokenHash ∧ at_ < session.expiresAt ∧
      user ∈ tables.users ∧ user.id = session.userId := by
  obtain ⟨found, hfound, huser⟩ := Option.bind_eq_some_iff.mp h
  obtain ⟨owner, howner, hpair⟩ := Option.map_eq_some_iff.mp huser
  cases hpair
  have hvalid := List.find?_some hfound
  simp only [Bool.and_eq_true, decide_eq_true_eq] at hvalid
  exact ⟨List.mem_of_find?_eq_some hfound, hvalid.1, hvalid.2, List.mem_of_find?_eq_some howner,
    by simpa using List.find?_some howner⟩

/-- **What becomes of the sessions**: one that is there after a step was there before,
was extended by the request, or was opened by it. -/
theorem advance_sessions {clock later : Nat} {drawn : String} {tables' : Tables}
    {session : SessionRow}
    (h : request.advance p clock later drawn tables = some (tables', next))
    (hsession : session ∈ tables'.sessions) :
    session ∈ tables.sessions ∨
    (∃ token expiresAt old, request.stage = .extending expiresAt ∧ request.token = some token ∧
      old ∈ tables.sessions ∧ old.id = p.hashSessionToken token ∧
      session = { old with expiresAt }) ∨
    ∃ body user token expiresAt, request.stage = .creating body user token expiresAt ∧
      next.stage = .opened body user token ∧
      session = ⟨p.hashSessionToken token, user.id, expiresAt⟩ := by
  unfold Request.advance at h
  cases hstage : request.stage with
  | extending expiresAt =>
    rw [hstage] at h
    dsimp only at h
    split at h
    · cases h
    · rename_i token htoken
      cases h
      obtain ⟨old, hold, rfl⟩ := List.mem_map.mp hsession
      by_cases heq : old.id = p.hashSessionToken token
      · exact .inr (.inl ⟨token, expiresAt, old, rfl, htoken, hold, heq, by rw [if_pos heq]⟩)
      · rw [if_neg heq]
        exact .inl hold
  | creating body user token expiresAt =>
    rw [hstage] at h
    dsimp only at h
    split at h
    · cases h
      exact .inl hsession
    · rename_i opened hopened
      cases h
      unfold openSession at hopened
      split at hopened
      · obtain ⟨sessions, hcreated, rfl⟩ := Option.map_eq_some_iff.mp hopened
        rw [createSession] at hcreated
        split at hcreated
        · cases hcreated
        · cases hcreated
          rcases List.mem_cons.mp hsession with rfl | hold
          · exact .inr (.inr ⟨body, user, token, expiresAt, rfl, rfl, rfl⟩)
          · exact .inl hold
      · cases hopened
  | closing token =>
    rw [hstage] at h
    cases h
    exact .inl (List.mem_filter.mp hsession).1
  | _ =>
    rw [hstage] at h
    dsimp only at h
    -- no other stage writes to the table
    repeat' split at h
    all_goals cases h
    all_goals exact .inl hsession

/-- The guard changes nothing of what is known of a request. -/
theorem routed_keeps (request : Request) : request.routed.cookie = request.cookie ∧
    request.routed.route = request.route ∧ request.routed.user = request.user ∧
    request.routed.lifetimes = request.lifetimes := by
  unfold Request.routed
  repeat' split
  all_goals exact ⟨rfl, rfl, rfl, rfl⟩

/-- A request keeps what it came with, and the lifetimes it gave, and has not been
answered. -/
theorem advance_keeps {clock later : Nat} {drawn : String} {tables' : Tables}
    (h : request.advance p clock later drawn tables = some (tables', next)) :
    next.cookie = request.cookie ∧ next.route = request.route ∧
      request.lifetimes ⊆ next.lifetimes ∧ request.reply = none := by
  have hrouted := routed_keeps request
  unfold Request.advance at h
  unfold Request.reply
  cases hstage : request.stage with
  | routing =>
    rw [hstage] at h
    cases h
    exact ⟨hrouted.1, hrouted.2.1, hrouted.2.2.2 ▸ List.Subset.refl _, rfl⟩
  | opened body user token => rw [hstage] at h; cases h
  | answered answer => rw [hstage] at h; cases h
  | found session user =>
    rw [hstage] at h
    dsimp only at h
    split at h
    · cases h
      exact ⟨rfl, rfl, List.subset_cons_self _ _, rfl⟩
    · cases h
      exact ⟨rfl, rfl, List.Subset.refl _, rfl⟩
  | verifying body user digest =>
    rw [hstage] at h
    dsimp only at h
    split at h
    · cases h
      exact ⟨rfl, rfl, List.subset_cons_self _ _, rfl⟩
    · cases h
      exact ⟨rfl, rfl, List.Subset.refl _, rfl⟩
  | _ =>
    rw [hstage] at h
    dsimp only at h
    repeat' split at h
    all_goals cases h
    all_goals exact ⟨rfl, rfl, List.Subset.refl _, rfl⟩

/-- A request that passes its guard, or is turned away, has the past that its stage says. -/
theorem staged_routed (s : State) (i : Nat) (request : Request) :
    Staged p s i request.routed := by
  unfold Request.routed
  cases request.route with
  | login body =>
    dsimp only
    split
    · trivial
    · rename_i accepted haccepted
      obtain ⟨rfl, hlength⟩ := Option.filter_eq_some_iff.mp haccepted
      exact ⟨rfl, hlength⟩
  | logout => dsimp only; split <;> trivial
  | guarded required =>
    dsimp only
    split
    · trivial
    · rename_i user huser
      split
      · rename_i hpass
        intro required' hrequired
        obtain rfl : required = required' := Route.guarded.inj hrequired
        refine ⟨user, huser, fun capability hcapability => ?_⟩
        simpa using Option.filter_eq_none_iff.mp hpass capability hcapability
      · trivial
  | unguarded =>
    intro required hrequired
    replace hrequired : Route.unguarded = .guarded required := hrequired
    cases hrequired

/-- **One step of a request** keeps what is known of it, and adds what it found out. -/
theorem Explained.advance {later : Nat} {drawn : String} (h : Explained p s i request)
    (hr : Reachable p s) (hrequest : s.requests[i]? = some request) (hlater : s.clock ≤ later)
    (hnext : request.advance p s.clock later drawn s.tables = some (tables, next)) :
    Explained p ⟨later, tables, s.requests.set i next⟩ i next := by
  have hruns : Runs p s ⟨later, tables, s.requests.set i next⟩ :=
    .single (.advance s i request next later drawn tables hrequest hlater hnext)
  have hold := h.later hruns hlater
  have hstaged := h.staged
  have hrouted := routed_keeps request
  unfold Staged at hstaged
  unfold Request.advance at hnext
  cases hstage : request.stage with
  | looking at_ =>
    rw [hstage] at hstaged hnext
    dsimp only at hnext
    split at hnext
    · cases hnext
    · rename_i token htoken
      split at hnext
      · cases hnext
        exact ⟨hold.user, hold.lifetimes, trivial⟩
      · rename_i session user hfound
        cases hnext
        obtain ⟨hmem, hid, hlive, huser, howner⟩ := findSessionAndUser_some hfound
        exact ⟨hold.user, hold.lifetimes, token, htoken, Once.later (.now hr
          ⟨⟨request, at_, hrequest, hstage, hstaged, hlive⟩, hmem, hid, huser, howner⟩) hruns⟩
  | found session user =>
    rw [hstage] at hstaged hnext
    obtain ⟨token, htoken, hlooked⟩ := hstaged
    have huser : ∀ found, some (toAuthenticatedUser user) = some found →
        ∃ token session row, request.token = some token ∧ found = toAuthenticatedUser row ∧
          Once p ⟨later, tables, s.requests.set i next⟩ (LookedUp p i token session row) := by
      rintro found hfound
      exact ⟨token, session, user, htoken, (Option.some.inj hfound).symm, hlooked.later hruns⟩
    dsimp only at hnext
    split at hnext
    · cases hnext
      refine ⟨huser, fun l hl => ?_, token, later, htoken, ?_, rfl⟩
      · rcases List.mem_cons.mp hl with rfl | hl
        · exact Nat.le_refl _
        · exact hold.lifetimes l hl
      · obtain ⟨_, -, -, hlooked⟩ := hlooked
        rw [← hlooked.hash]
        exact List.mem_cons_self
    · cases hnext
      exact ⟨huser, hold.lifetimes, trivial⟩
  | extending expiresAt =>
    rw [hstage] at hnext
    dsimp only at hnext
    split at hnext
    · cases hnext
    · cases hnext
      exact ⟨hold.user, hold.lifetimes, trivial⟩
  | routing =>
    rw [hstage] at hnext
    cases hnext
    refine ⟨fun user huser => ?_, hrouted.2.2.2 ▸ hold.lifetimes, staged_routed _ i request⟩
    obtain ⟨token, session, row, htoken, hrow⟩ := hold.user user (hrouted.2.2.1 ▸ huser)
    exact ⟨token, session, row, by rw [Request.token, hrouted.1]; exact htoken, hrow⟩
  | finding body =>
    rw [hstage] at hstaged hnext
    dsimp only at hnext
    split at hnext
    · cases hnext
      exact ⟨hold.user, hold.lifetimes, trivial⟩
    · rename_i user hfound
      split at hnext
      · cases hnext
        exact ⟨hold.user, hold.lifetimes, trivial⟩
      · rename_i digest hdigest
        cases hnext
        exact ⟨hold.user, hold.lifetimes, hstaged.1, hstaged.2,
          (Option.filter_eq_some_iff.mp hdigest).1, Once.later (.now hr hfound) hruns⟩
  | verifying body user digest =>
    rw [hstage] at hstaged hnext
    obtain ⟨hroute, haccepted, hdigest, hfound⟩ := hstaged
    dsimp only at hnext
    split at hnext
    · rename_i hright
      cases hnext
      refine ⟨hold.user, fun l hl => ?_, hroute, (hfound.imp fun before hbefore =>
        ⟨haccepted, hbefore, digest, hdigest, ?_⟩).later hruns, later, List.mem_cons_self, rfl⟩
      · rcases List.mem_cons.mp hl with rfl | hl
        · exact Nat.le_refl _
        · exact hold.lifetimes l hl
      · unfold verifyPassword at hright
        cases hverify : p.verify digest body.password with
        | none => rw [hverify] at hright; cases hright
        | some right => rw [hverify] at hright; exact congrArg some hright
    · cases hnext
      exact ⟨hold.user, hold.lifetimes, trivial⟩
  | creating body user token expiresAt =>
    rw [hstage] at hstaged hnext
    obtain ⟨hroute, hproven, -⟩ := hstaged
    dsimp only at hnext
    split at hnext
    · cases hnext
      exact ⟨hold.user, hold.lifetimes, trivial⟩
    · cases hnext
      exact ⟨hold.user, hold.lifetimes, hroute, hproven.later hruns⟩
  | equalizing =>
    rw [hstage] at hnext
    cases hnext
    exact ⟨hold.user, hold.lifetimes, trivial⟩
  | closing token =>
    rw [hstage] at hnext
    cases hnext
    exact ⟨hold.user, hold.lifetimes, trivial⟩
  | opened body user token => rw [hstage] at hnext; cases hnext
  | handling => rw [hstage] at hnext; cases hnext
  | answered answer => rw [hstage] at hnext; cases hnext

/-- Requests stay where they are; the lifetimes they gave stay, and so do the answers. -/
def Continues (s s' : State) : Prop :=
  ∀ (j : Nat) request, s.requests[j]? = some request → ∃ request', s'.requests[j]? = some request' ∧
    request.lifetimes ⊆ request'.lifetimes ∧ (request.reply ≠ none → request' = request)

theorem Continues.same {s s' : State} (h : s'.requests = s.requests) : Continues s s' :=
  fun _ request hrequest => ⟨request, h ▸ hrequest, List.Subset.refl _, fun _ => rfl⟩

/-- One request moves on which has not been answered, and the others stay where they are. -/
theorem Continues.set {clock : Nat} (hrequest : s.requests[i]? = some request)
    (hkept : request.lifetimes ⊆ next.lifetimes) (hunder : request.reply = none) :
    Continues s ⟨clock, tables, s.requests.set i next⟩ := by
  intro j other hother
  by_cases hij : i = j
  · subst hij
    obtain rfl : request = other := Option.some.inj (hrequest.symm.trans hother)
    refine ⟨next, ?_, hkept, fun h => absurd hunder h⟩
    exact List.getElem?_set_self (List.getElem?_eq_some_iff.mp hrequest).1
  · exact ⟨other, (List.getElem?_set_ne hij).trans hother, List.Subset.refl _, fun _ => rfl⟩

theorem Step.continues (h : Step p s s') : Continues s s' ∧ s.clock ≤ s'.clock := by
  cases h with
  | tick ms => exact ⟨.same rfl, Nat.le_add_right _ _⟩
  | arrive cookie route =>
    refine ⟨fun j request hrequest => ⟨request, ?_, List.Subset.refl _, fun _ => rfl⟩,
      Nat.le_refl _⟩
    exact List.getElem?_append_left (List.getElem?_eq_some_iff.mp hrequest).1 ▸ hrequest
  | advance i request next later drawn tables hrequest hlater hnext =>
    obtain ⟨-, -, hkept, hunder⟩ := advance_keeps hnext
    exact ⟨.set hrequest hkept hunder, hlater⟩
  | fail i request hrequest hunder =>
    exact ⟨.set hrequest (List.Subset.refl _) hunder, Nat.le_refl _⟩
  | users users => exact ⟨.same rfl, Nat.le_refl _⟩
  | signOutEverywhere userId => exact ⟨.same rfl, Nat.le_refl _⟩
  | sweep at_ => exact ⟨.same rfl, Nat.le_refl _⟩

/-- A session keeps the sign-in that opened it. -/
theorem opened_continues (hcont : Continues s s') (hruns : Runs p s s') {session : SessionRow}
    (h : ∃ (j : Nat) (request : Request) (body : LoginBody) (user : UserRow) (token : String),
      s.requests[j]? = some request ∧ Opens p session body user token s request) :
    ∃ (j : Nat) (request : Request) (body : LoginBody) (user : UserRow) (token : String),
      s'.requests[j]? = some request ∧ Opens p session body user token s' request := by
  obtain ⟨j, request, body, user, token, hrequest, hopens⟩ := h
  obtain ⟨request', hrequest', -, hsame⟩ := hcont j request hrequest
  obtain rfl : request' = request := hsame (by simp [Request.reply, hopens.stage])
  exact ⟨j, request', body, user, token, hrequest',
    { hopens with proven := hopens.proven.later hruns }⟩

theorem lived_continues (hcont : Continues s s') {session : SessionRow}
    (h : ∃ (j : Nat) (request : Request) (since : Nat), s.requests[j]? = some request ∧
      (session.id, since) ∈ request.lifetimes ∧ session.expiresAt = sessionExpiry since) :
    ∃ (j : Nat) (request : Request) (since : Nat), s'.requests[j]? = some request ∧
      (session.id, since) ∈ request.lifetimes ∧ session.expiresAt = sessionExpiry since := by
  obtain ⟨j, request, since, hrequest, hlives, hexpires⟩ := h
  obtain ⟨request', hrequest', hkept, -⟩ := hcont j request hrequest
  exact ⟨j, request', since, hrequest', hkept hlives, hexpires⟩

/-- What every step keeps that opens and extends no session. -/
theorem Inv.keep (h : Inv p s) (hstep : Step p s s')
    (hsessions : ∀ session ∈ s'.tables.sessions, session ∈ s.tables.sessions)
    (hrequests : ∀ (i : Nat) request, s'.requests[i]? = some request →
      s.requests[i]? = some request ∨ Explained p s' i request) : Inv p s' := by
  obtain ⟨hcont, hclock⟩ := hstep.continues
  refine ⟨fun i request hrequest => ?_, fun session hsession => ?_, fun session hsession => ?_⟩
  · rcases hrequests i request hrequest with hold | hnew
    · exact (h.requests i request hold).later (.single hstep) hclock
    · exact hnew
  · exact opened_continues hcont (.single hstep) (h.opened session (hsessions session hsession))
  · exact lived_continues hcont (h.lived session (hsessions session hsession))

/-- A request that has just arrived is explained. -/
theorem explained_arrive (s : State) (i : Nat) (cookie : Option String) (route : Route) :
    Explained p s i (Request.arrive cookie route s.clock) := by
  refine ⟨fun user huser => ?_, fun l hl => ?_, ?_⟩
  · cases huser
  · cases hl
  · unfold Staged Request.arrive
    by_cases hasks : (cookie.filter (· ≠ "")).isSome
    · simp only [hasks, if_true]
      exact Nat.le_refl _
    · simp only [hasks]
      trivial

/-- **One step of the system** keeps what is known of every request and every session. -/
theorem Inv.step (h : Inv p s) (hr : Reachable p s) (hstep : Step p s s') : Inv p s' := by
  have hkeep := @Inv.keep p s s' h hstep
  have hruns : Runs p s s' := .single hstep
  obtain ⟨hcont, hclock⟩ := hstep.continues
  cases hstep with
  | tick ms => exact hkeep (fun _ hsession => hsession) fun _ _ hrequest => .inl hrequest
  | arrive cookie route =>
    refine hkeep (fun _ hsession => hsession) fun j request hrequest => ?_
    rcases Nat.lt_or_ge j s.requests.length with hlt | hge
    · exact .inl (by rwa [List.getElem?_append_left hlt] at hrequest)
    · rw [List.getElem?_append_right hge] at hrequest
      obtain rfl := List.mem_singleton.mp (List.mem_of_getElem? hrequest)
      exact .inr (explained_arrive _ j cookie route)
  | advance i request next later drawn tables hrequest hlater hnext =>
    have hold := h.requests i request hrequest
    have hset : (s.requests.set i next)[i]? = some next :=
      List.getElem?_set_self (List.getElem?_eq_some_iff.mp hrequest).1
    have hnow : Explained p ⟨later, tables, s.requests.set i next⟩ i next :=
      hold.advance hr hrequest hlater hnext
    obtain ⟨-, -, hkept, -⟩ := advance_keeps hnext
    have hstaged := hold.staged
    unfold Staged at hstaged
    refine ⟨fun j other hother => ?_, fun session hsession => ?_, fun session hsession => ?_⟩
    · by_cases hij : i = j
      · subst hij
        obtain rfl : next = other := Option.some.inj (hset.symm.trans hother)
        exact hnow
      · exact (h.requests j other ((List.getElem?_set_ne hij).symm.trans hother)).later hruns hlater
    · rcases advance_sessions hnext hsession with hmem | hextended | hcreated
      · exact opened_continues hcont hruns (h.opened session hmem)
      · -- it is the row of the sign-in that it was, with another expiry
        obtain ⟨token, expiresAt, old, -, -, hmem, -, rfl⟩ := hextended
        obtain ⟨j, opener, body, user, opening, hopener, hopens⟩ :=
          opened_continues hcont hruns (h.opened old hmem)
        exact ⟨j, opener, body, user, opening, hopener, { hopens with }⟩
      · obtain ⟨body, user, token, expiresAt, hstage, hopened, rfl⟩ := hcreated
        have hstaged' := hnow.staged
        unfold Staged at hstaged'
        rw [hopened] at hstaged'
        exact ⟨i, next, body, user, token, hset, hstaged'.1, hopened, rfl, rfl, hstaged'.2⟩
    · rcases advance_sessions hnext hsession with hmem | hextended | hcreated
      · exact lived_continues hcont (h.lived session hmem)
      · obtain ⟨token, expiresAt, old, hstage, htoken, -, hid, rfl⟩ := hextended
        rw [hstage] at hstaged
        obtain ⟨token', since, htoken', hlives, rfl⟩ := hstaged
        obtain rfl : token' = token := Option.some.inj (htoken'.symm.trans htoken)
        exact ⟨i, next, since, hset, hkept (hid ▸ hlives), rfl⟩
      · obtain ⟨body, user, token, expiresAt, hstage, -, rfl⟩ := hcreated
        rw [hstage] at hstaged
        obtain ⟨-, -, since, hlives, rfl⟩ := hstaged
        exact ⟨i, next, since, hset, hkept hlives, rfl⟩
  | fail i request hrequest hunder =>
    refine hkeep (fun _ hsession => hsession) fun j other hother => ?_
    by_cases hij : i = j
    · subst hij
      have hset := List.getElem?_set_self (a := request.answer .failed)
        (List.getElem?_eq_some_iff.mp hrequest).1
      obtain rfl : request.answer .failed = other := Option.some.inj (hset.symm.trans hother)
      have hold := (h.requests i request hrequest).later hruns hclock
      exact .inr ⟨hold.user, hold.lifetimes, trivial⟩
    · exact .inl ((List.getElem?_set_ne hij).symm.trans hother)
  | users users =>
    exact hkeep (fun _ hsession => (List.mem_filter.mp hsession).1) fun _ _ hrequest => .inl hrequest
  | signOutEverywhere userId =>
    exact hkeep (fun _ hsession => (List.mem_filter.mp hsession).1) fun _ _ hrequest => .inl hrequest
  | sweep at_ =>
    exact hkeep (fun _ hsession => (List.mem_filter.mp hsession).1) fun _ _ hrequest => .inl hrequest

/-- **In every run** what is known of the requests and the sessions holds. -/
theorem Reachable.inv (hr : Reachable p s) : Inv p s := by
  obtain ⟨clock, users, hruns⟩ := hr
  induction hruns with
  | refl =>
    exact ⟨fun i request h => by simp [start] at h, fun session h => (by cases h),
      fun session h => (by cases h)⟩
  | tail hbefore hstep ih => exact ih.step ⟨clock, users, hbefore⟩ hstep

/-! ## Behind the guards -/

variable (p) in
/-- What is true of the user for whom a request is handled: its cookie found a session and a
row of `users` in a state of the run in which the request was under way. -/
structure HandledFor (s : State) (i : Nat) (request : Request) (required : Option Capability)
    (token : String) (session : SessionRow) (row : UserRow) (before : State) : Prop where
  carries : request.token = some token
  /-- The request is that user as the table had them. -/
  user : request.user = some (toAuthenticatedUser row)
  runs : Runs p before s
  looked : LookedUp p i token session row before
  /-- The role that was stored then gives what the guard asks for. -/
  may : ∀ capability ∈ required, capability ∈ capabilitiesFor ((roleOf row.role).getD DEFAULT_ROLE)
  /-- The thirty days of the session count from a request of this run that used it. -/
  recent : ∃ (j : Nat) (other : Request) (since : Nat), before.requests[j]? = some other ∧
    (session.id, since) ∈ other.lifetimes ∧ since ≤ before.clock ∧
    session.expiresAt = since + SESSION_TTL_MS
  /-- Somebody had signed in to the session who knew the password its user then had. -/
  opened : ∃ (j : Nat) (opener : Request) (body : LoginBody) (found : UserRow) (opening : String),
    before.requests[j]? = some opener ∧ Opens p session body found opening before opener ∧
    found.id = row.id

/-- **Who a handler works for.**  In every run, a request that is past its guard is one
whose cookie answers to a session that a sign-in opened with the right password, that
was used in the last thirty days, and whose user has, by the role stored when the
request was under way, what the guard asks for. -/
theorem handled_for (hr : Reachable p s) {required : Option Capability}
    (hrequest : s.requests[i]? = some request) (hstage : request.stage = .handling)
    (hroute : request.route = .guarded required) :
    ∃ token session row before, HandledFor p s i request required token session row before := by
  have hexplained := hr.inv.requests i request hrequest
  have hstaged := hexplained.staged
  unfold Staged at hstaged
  rw [hstage] at hstaged
  obtain ⟨user, huser, hmay⟩ := hstaged required hroute
  obtain ⟨token, session, row, htoken, rfl, before, hbefore, hruns, hlooked⟩ :=
    hexplained.user user huser
  obtain ⟨k, other, since, hother, hlives, hexpires⟩ :=
    hbefore.inv.lived session hlooked.session_mem
  obtain ⟨j, opener, body, found, opening, hopener, hopens⟩ :=
    hbefore.inv.opened session hlooked.session_mem
  have hsince := (hbefore.inv.requests k other hother).lifetimes _ hlives
  exact ⟨token, session, row, before,
    { carries := htoken
      user := huser
      runs := hruns
      looked := hlooked
      may := hmay
      recent := ⟨k, other, since, hother, hlives, hsince, hexpires⟩
      opened := ⟨j, opener, body, found, opening, hopener, hopens,
        hopens.owner.trans hlooked.owner.symm⟩ }⟩

end Steps

/-! ### The administrator lists the users -/

/-- Passwords are stored as they are. -/
def plainAuth : Platform where
  lower := id
  hashSessionToken := fun token => token ++ "#"
  verify := fun digest password => some (digest = password)
  isProduction := false

def administratorRow : UserRow :=
  ⟨7, "root@example.org", some "hunter2", "Root", "administrator", "en", "system", 0, 0⟩

/-- Request `i` moves on, at the moment it is. -/
def State.advanced (s : State) (i : Nat) : Option State :=
  match s.requests[i]? with
  | none => none
  | some request =>
    match request.advance plainAuth s.clock s.clock "t" s.tables with
    | none => none
    | some (tables, next) => some ⟨s.clock, tables, s.requests.set i next⟩

theorem advanced_runs {s s' : State} {script : List Nat}
    (h : script.foldlM State.advanced s = some s') : Runs plainAuth s s' := by
  induction script generalizing s with
  | nil =>
    cases h
    exact .refl
  | cons i script ih =>
    rw [List.foldlM_cons] at h
    obtain ⟨mid, hmid, hrest⟩ := Option.bind_eq_some_iff.mp h
    refine .head ?_ (ih hrest)
    unfold State.advanced at hmid
    split at hmid
    · cases hmid
    · rename_i request hrequest
      split at hmid
      · cases hmid
      · rename_i tables next hnext
        cases hmid
        exact .advance s i request next s.clock "t" tables hrequest (Nat.le_refl _) hnext

/-- A sign-in with the right password, and a request for the list of users with the cookie
it gave. -/
def listsUsers : State :=
  { start 1000 [administratorRow] with requests :=
    [.arrive none (.login (some ⟨"root@example.org", "hunter2"⟩)) 1000,
      .arrive (some "t") (.guarded (some .usersRead)) 1000] }

theorem listsUsers_reachable : Reachable plainAuth listsUsers :=
  ⟨1000, [administratorRow], .tail (.single (.arrive _ none _)) (.arrive _ (some "t") _)⟩

def isHandling (s : State) : Bool :=
  s.requests[1]?.any fun request =>
    match request.route, request.stage with
    | .guarded (some .usersRead), .handling => true
    | _, _ => false

theorem handled_for_administrator : ∃ s request token session row before,
    [0, 0, 0, 0, 1, 1, 1].foldlM State.advanced listsUsers = some s ∧
    s.requests[1]? = some request ∧
    HandledFor plainAuth s 1 request (some .usersRead) token session row before := by
  have heval : ([0, 0, 0, 0, 1, 1, 1].foldlM State.advanced listsUsers).any isHandling = true := by
    decide +kernel
  cases hs : [0, 0, 0, 0, 1, 1, 1].foldlM State.advanced listsUsers with
  | none => rw [hs] at heval; cases heval
  | some s =>
    rw [hs, Option.any_some, isHandling] at heval
    obtain ⟨request, hrequest, hcheck⟩ := (Option.any_eq_true _ _).mp heval
    split at hcheck
    · rename_i hroute hstage
      obtain ⟨token, session, row, before, h⟩ := handled_for
        (listsUsers_reachable.runs (advanced_runs hs)) hrequest hstage hroute
      exact ⟨s, request, token, session, row, before, rfl, hrequest, h⟩
    · cases hcheck

end Authentication
end PressLabz
