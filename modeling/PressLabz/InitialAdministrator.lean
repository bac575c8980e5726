import PressLabz.PublicSite
import PressLabz.RowLockLogic

/-! # The first administrator

`createInitialAdministrator` of `packages/db/src/repositories/users.ts`: any number of calls at
once, each a transaction at READ COMMITTED behind one advisory lock.  The lock is a row of its
own to the machine; what it protects is the whole table (`bootstrapDiscipline`).  What the
constraints of the table allow is a parameter.
-/
namespace PressLabz
open RowLocks

/-! ## Users -/

def ROLES : List String := ["subscriber", "contributor", "author", "editor", "administrator"]

def THEME_PREFERENCES : List String := ["light", "dark", "system"]

structure UserRow where
  id : Uuid
  email : String
  passwordHash : Option String
  displayName : String
  role : String
  locale : String
  themePreference : String
  createdAt : Nat
  updatedAt : Nat
  deriving DecidableEq

/-- The argument of `createUser`, in which what is left out has a default. -/
structure NewUser where
  id : Option Uuid := none
  email : String
  passwordHash : Option String := none
  displayName : String
  role : Option String := none
  locale : Option String := none
  themePreference : Option String := none
  createdAt : Option Nat := none
  updatedAt : Option Nat := none

inductive VocabularyField where
  | role
  | locale
  | themePreference
  deriving DecidableEq

/-- Why a call rejects, where the database does not. -/
inductive BootstrapError where
  /-- `UserVocabularyError`: the value is cut to 40 code units. -/
  | vocabulary (field : VocabularyField) (value : List UInt16)
  | insertReturnedNoRow
  deriving DecidableEq

/-- The first 40 code units of a value; the cut may leave half of a surrogate pair. -/
def boundedValue (value : String) : List UInt16 :=
  if 40 < jsLength value then (Utf16.textUnits value).take 40 ++ Utf16.textUnits "…"
  else Utf16.textUnits value

/-- One of the three checks: what is left out passes. -/
def checkVocabulary (known : List String) (field : VocabularyField) (value : Option String) :
    Except BootstrapError Unit :=
  match value with
  | none => .ok ()
  | some value => if value ∈ known then .ok () else .error (.vocabulary field (boundedValue value))

def assertKnownVocabulary (user : NewUser) : Except BootstrapError Unit := do
  checkVocabulary ROLES .role user.role
  checkVocabulary LOCALES .locale user.locale
  checkVocabulary THEME_PREFERENCES .themePreference user.themePreference

/-! ## The call -/

def BOOTSTRAP_LOCK : Int := 8315002026

structure BootstrapResult where
  created : Option UserRow
  existing : Nat
  deriving DecidableEq

/-- The argument, and what the database would draw for the row. -/
structure BootstrapCall where
  user : NewUser
  drawn : Uuid
  now : Nat

/-- The row of the insert.  The role comes after the fields of the caller. -/
def BootstrapCall.row (call : BootstrapCall) : UserRow where
  id := call.user.id.getD call.drawn
  email := call.user.email
  passwordHash := call.user.passwordHash
  displayName := call.user.displayName
  role := "administrator"
  locale := call.user.locale.getD "en"
  themePreference := call.user.themePreference.getD "system"
  createdAt := call.user.createdAt.getD call.now
  updatedAt := call.user.updatedAt.getD call.now

/-- `insert into users … returning *`. -/
def insertUser (row : UserRow) : Tx (List UserRow) Int BootstrapError (List UserRow) := do
  Tx.modify (· ++ [row])
  return [row]

def createInitialAdministrator (call : BootstrapCall) :
    Tx (List UserRow) Int BootstrapError BootstrapResult :=
  match assertKnownVocabulary call.user with
  | .error e => Tx.throw e
  | .ok () => do
    Tx.forUpdate BOOTSTRAP_LOCK fun _ => ()
    -- a statement of its own, with a snapshot of its own
    let existing ← Tx.select List.length
    if existing > 0 then return ⟨none, existing⟩
    else do
      let rows ← insertUser call.row
      match rows with
      | [] => Tx.throw .insertReturnedNoRow
      | created :: _ => return ⟨some created, 0⟩

/-! ## What the calls promise each other -/

/-- An advisory lock is there for whoever asks. -/
def usersEngine (constraints : List UserRow → Bool) : Engine (List UserRow) Int :=
  ⟨fun _ _ => true, constraints⟩

/-- What a call found and left, by its answer. -/
def BootstrapResult.Meets (result : BootstrapResult) (found left : List UserRow) : Prop :=
  match result.created with
  | none => left = found ∧ found ≠ [] ∧ result.existing = found.length
  | some row => found = [] ∧ left = [row] ∧ row.role = "administrator" ∧ result.existing = 0

/-- Who does not hold the lock leaves the table alone. -/
def bootstrapDiscipline :
    Discipline (List UserRow) Int BootstrapCall BootstrapResult where
  inv _ := True
  always _ _ := True
  frame k s s' := k = BOOTSTRAP_LOCK → s = s'
  side _ _ := True
  before _ _ := False
  post _ result found left := result.Meets found left
  always_refl _ := trivial
  always_trans _ _ _ _ := trivial
  frame_refl _ _ _ := rfl
  frame_trans h h' hk := (h hk).trans (h' hk)

section Calls
variable {constraints : List UserRow → Bool} {call : BootstrapCall} {db db' : List UserRow}

/-- The table stands as it was counted while the lock is held. -/
theorem table_stands
    (h : Rely bootstrapDiscipline call (insert BOOTSTRAP_LOCK ∅) db db') : db = db' :=
  h.frame BOOTSTRAP_LOCK (Set.mem_insert _ _) rfl

/-- A call may change the table, since it holds the lock. -/
theorem others_frame {own : List UserRow → List UserRow} :
    ∀ k ∉ insert BOOTSTRAP_LOCK (∅ : Set Int), bootstrapDiscipline.frame k db (own db) :=
  fun _ hk hlock => absurd (hlock ▸ Set.mem_insert _ _) hk

theorem refusal_commits (hcounted : db ≠ []) :
    Commits bootstrapDiscipline (usersEngine constraints) call ⟨none, db.length⟩
      (insert BOOTSTRAP_LOCK ∅) id db := by
  intro db' hrely _
  obtain rfl := table_stands hrely
  exact ⟨trivial, trivial, others_frame, rfl, hcounted, rfl⟩

theorem creation_commits (hcounted : db = []) :
    Commits bootstrapDiscipline (usersEngine constraints) call ⟨some call.row, 0⟩
      (insert BOOTSTRAP_LOCK ∅) (· ++ [call.row]) db := by
  intro db' hrely _
  obtain rfl := table_stands hrely
  subst hcounted
  exact ⟨trivial, trivial, others_frame, rfl, rfl, rfl, rfl⟩

theorem verified_bootstrap (constraints : List UserRow → Bool) :
    Verified bootstrapDiscipline (usersEngine constraints) createInitialAdministrator := by
  intro call db _ _
  rw [createInitialAdministrator]
  cases assertKnownVocabulary call.user with
  | error e => exact wp_throw
  | ok _ =>
    refine wp_forUpdate (fun h hmem => absurd hmem (Set.notMem_empty h)) ?_ ?_
    · intro locked _ _
      refine wp_select fun counted _ => ?_
      by_cases hcounted : counted = []
      · have hnone : ¬ counted.length > 0 := by simp [hcounted]
        rw [id, if_neg hnone, insertUser]
        exact creation_commits hcounted
      · have hsome : counted.length > 0 := List.length_pos_iff.mpr hcounted
        rw [id, if_pos hsome]
        exact refusal_commits hcounted
    · intro locked _ habsent
      cases habsent

end Calls

/-! ## Every run -/

/-- The table is what it was, or holds the one user that was created. -/
def TableFrom (db s : List UserRow) : Prop :=
  s = db ∨ db = [] ∧ ∃ row, row.role = "administrator" ∧ s = [row]

/-- What a run of calls may come to from the table `db`. -/
structure OneAdministrator {I : Type} (db : List UserRow)
    (m : Machine (List UserRow) Int BootstrapError BootstrapCall BootstrapResult I) : Prop where
  table : TableFrom db m.db
  once : (m.log.filter fun e => e.answer.created.isSome).length ≤ 1
  none_added : db ≠ [] → ∀ e ∈ m.log, e.answer.created = none
  role : ∀ e ∈ m.log, ∀ row, e.answer.created = some row → row.role = "administrator"
  existing : ∀ e ∈ m.log, e.answer.created = none → 0 < e.answer.existing

section Runs
variable {I : Type} [DecidableEq I] {constraints : List UserRow → Bool} {db : List UserRow}
  {m : Machine (List UserRow) Int BootstrapError BootstrapCall BootstrapResult I}

theorem log_meets (hrun : Run (usersEngine constraints) createInitialAdministrator
    (fun _ => True) (.start db) m) : ∀ e ∈ m.log, e.answer.Meets e.found e.left := by
  intro e he
  have hsound : Sound bootstrapDiscipline (usersEngine constraints)
      (.start db : Machine _ _ BootstrapError _ _ I) :=
    .quiet trivial (fun _ => rfl) fun _ => rfl
  have hnone : ∀ e ∈ (.start db : Machine (List UserRow) Int BootstrapError BootstrapCall
      BootstrapResult I).log, e.Meets bootstrapDiscipline := fun e he => nomatch he
  exact ((verified_bootstrap constraints).log (fun _ _ _ _ _ => trivial) hsound hrun hnone e
    he).post

theorem BootstrapResult.Meets.of_created {result : BootstrapResult} {found left : List UserRow}
    {row : UserRow} (h : result.Meets found left) (hrow : result.created = some row) :
    found = [] ∧ left = [row] ∧ row.role = "administrator" := by
  rw [Meets, hrow] at h
  exact ⟨h.1, h.2.1, h.2.2.1⟩

theorem BootstrapResult.Meets.of_none {result : BootstrapResult} {found left : List UserRow}
    (h : result.Meets found left) (hnone : result.created = none) :
    left = found ∧ found ≠ [] ∧ result.existing = found.length := by
  rw [Meets, hnone] at h
  exact h

/-- A table with users in it stays so. -/
theorem BootstrapResult.Meets.stays {result : BootstrapResult} {found left : List UserRow}
    (h : result.Meets found left) (hfound : found ≠ []) : left ≠ [] := by
  cases hcreated : result.created with
  | none => exact (h.of_none hcreated).1 ▸ hfound
  | some row => exact absurd (h.of_created hcreated).1 hfound

theorem BootstrapResult.Meets.table {result : BootstrapResult} {found left : List UserRow}
    (h : result.Meets found left) (hfound : TableFrom db found) : TableFrom db left := by
  cases hcreated : result.created with
  | none => exact (h.of_none hcreated).1 ▸ hfound
  | some row =>
    obtain ⟨rfl, rfl, hrole⟩ := h.of_created hcreated
    rcases hfound with rfl | ⟨hempty, -⟩
    · exact .inr ⟨rfl, row, hrole, rfl⟩
    · exact .inr ⟨hempty, row, hrole, rfl⟩

/-- **One initial administrator**, in every run of calls from any table. -/
theorem one_initial_administrator (hrun : Run (usersEngine constraints)
    createInitialAdministrator (fun _ => True) (.start db) m) : OneAdministrator db m := by
  have hmeets := log_meets hrun
  have hlinked := hrun.linked
  have hfound : ∀ {P : List UserRow → Prop}, P db → (∀ e ∈ m.log, P e.found → P e.left) →
      ∀ e ∈ m.log, P e.found := fun hfirst hstep e he =>
    hlinked.invariant hfirst hstep e.found (List.mem_cons_of_mem _ (List.mem_map_of_mem he))
  refine ⟨?_, ?_, fun hdb e he => ?_, fun e he row hrow => ?_, fun e he hnone => ?_⟩
  · exact hlinked.invariant (P := TableFrom db) (.inl rfl) (fun e he => (hmeets e he).table) _
      List.mem_cons_self
  · -- what one creation left is not empty, and no later commit finds it so
    have hlater := hlinked.entries (R := fun s s' => s ≠ [] → s' ≠ [])
      (fun _ _ _ h h' hs => h' (h hs)) (fun e he => (hmeets e he).stays) fun _ _ h => h
    refine atMostOne_of_pairwise hlater fun later hl earlier he hcl hce hstays => ?_
    obtain ⟨row, hrow⟩ := Option.isSome_iff_exists.mp hce
    obtain ⟨row', hrow'⟩ := Option.isSome_iff_exists.mp hcl
    refine hstays ?_ ((hmeets later hl).of_created hrow').1
    rw [((hmeets earlier he).of_created hrow).2.1]
    exact List.cons_ne_nil row []
  · cases hcreated : e.answer.created with
    | none => rfl
    | some row =>
      have hne := hfound (P := (· ≠ [])) hdb (fun e he => (hmeets e he).stays) e he
      exact absurd ((hmeets e he).of_created hcreated).1 hne
  · exact ((hmeets e he).of_created hrow).2.2
  · obtain ⟨-, hne, hexisting⟩ := (hmeets e he).of_none hnone
    rw [hexisting]
    exact List.length_pos_iff.mpr hne

end Runs

/-! ## Two processes at once -/

def firstCall : BootstrapCall := ⟨{ email := "a@example.org", displayName := "A" }, 1, 10⟩

def secondCall : BootstrapCall := ⟨{ email := "b@example.org", displayName := "B" }, 2, 11⟩

/-- Two processes begin at once; the second gets the lock when the first has committed. -/
def twoProcesses : List (Action BootstrapCall (Fin 2)) :=
  [.begin_ 0 firstCall, .begin_ 1 secondCall, .advance 0, .advance 0, .advance 0, .commit 0,
    .advance 1, .advance 1, .commit 1]

theorem one_of_two_processes : ∃ m : Machine (List UserRow) Int BootstrapError BootstrapCall
    BootstrapResult (Fin 2),
    m.log.map (fun e => e.answer) = [⟨none, 1⟩, ⟨some firstCall.row, 0⟩] ∧
      OneAdministrator [] m := by
  have heval : ((Machine.start [] : Machine (List UserRow) Int BootstrapError BootstrapCall
      BootstrapResult (Fin 2)).steps (usersEngine fun _ => true) createInitialAdministrator
      twoProcesses).any (fun m => m.log.map (fun e => e.answer) =
        [⟨none, 1⟩, ⟨some firstCall.row, 0⟩]) = true := by decide +kernel
  obtain ⟨m, -, hrun, hcheck⟩ := Run.of_eval heval
  exact ⟨m, decide_eq_true_eq.mp hcheck, one_initial_administrator hrun⟩

end PressLabz
