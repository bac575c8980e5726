import Mathlib.Logic.Function.Basic

/-! # Transactions over a store with row locks

Transactions of a relational store at READ COMMITTED, as far as row locks and
visibility go.  A transaction is a tree of statements (`Tx`): a plain read
(`read`), a read of one row `FOR UPDATE` (`lock`), a change of its own
(`write`), an answer or a refusal.  A statement sees the last committed state
with the transaction's own changes on top of it, which are kept as one function
until the commit (`Running.own`).

A `Machine` runs any number of transactions, one statement at a time in any
order.  A `lock` waits while another transaction holds the row, and then reads
what is committed at that moment; the lock is kept until the transaction ends.
A row that does not exist is read as absent and locks nothing.  A commit is one
step, and is refused where it would break the constraints of the store; a
rollback can come at any time, whatever its reason: a refusal, a violated
constraint, a dropped connection, the victim of a deadlock.

`Machine.log` is the history of the run: every committed call, with the state
it found and the state it left.  A `Trace` keeps every state of the run, and `since`
picks those that a transaction under way has lived through.
-/
namespace RowLocks

/-- A transaction over states `S`, with rows `K` to lock. -/
inductive Tx (S K E α : Type) where
  | ret (answer : α)
  | raise (error : E)
  | lock (row : K) (next : S → Tx S K E α)
  | read (next : S → Tx S K E α)
  | write (change : S → S) (next : Tx S K E α)

namespace Tx
variable {S K E α β : Type}

def bind : Tx S K E α → (α → Tx S K E β) → Tx S K E β
  | .ret a, f => f a
  | .raise e, _ => .raise e
  | .lock k next, f => .lock k fun s => (next s).bind f
  | .read next, f => .read fun s => (next s).bind f
  | .write w next, f => .write w (next.bind f)

instance : Monad (Tx S K E) where
  pure := .ret
  bind := .bind

/-- A plain `SELECT`. -/
def select (query : S → α) : Tx S K E α := .read fun s => .ret (query s)

/-- `SELECT … FOR UPDATE` of one row. -/
def forUpdate (row : K) (query : S → α) : Tx S K E α := .lock row fun s => .ret (query s)

/-- `INSERT`, `UPDATE` and `DELETE`, of rows that need no waiting for. -/
def modify (change : S → S) : Tx S K E Unit := .write change (.ret ())

/-- Throws, which rolls the transaction back. -/
def throw (error : E) : Tx S K E α := .raise error

/-- The transaction in a store with more rows: its own are known under `f` there. -/
def within {K' : Type} (f : K → K') : Tx S K E α → Tx S K' E α
  | .ret a => .ret a
  | .raise e => .raise e
  | .lock k next => .lock (f k) fun s => (next s).within f
  | .read next => .read fun s => (next s).within f
  | .write w next => .write w (next.within f)

/-- The transaction with nothing else under way: its answer and what it leaves. -/
def alone : Tx S K E α → S → Except E (α × S)
  | .ret a, s => .ok (a, s)
  | .raise e, _ => .error e
  | .lock _ next, s => (next s).alone s
  | .read next, s => (next s).alone s
  | .write w next, s => next.alone (w s)

@[simp] theorem ret_bind (a : α) (f : α → Tx S K E β) : (Tx.ret a >>= f) = f a := rfl

@[simp] theorem pure_bind (a : α) (f : α → Tx S K E β) :
    ((pure a : Tx S K E α) >>= f) = f a := rfl

@[simp] theorem raise_bind (e : E) (f : α → Tx S K E β) : (Tx.raise e >>= f) = .raise e := rfl

@[simp] theorem lock_bind (k : K) (next : S → Tx S K E α) (f : α → Tx S K E β) :
    (Tx.lock k next >>= f) = .lock k fun s => next s >>= f := rfl

@[simp] theorem read_bind (next : S → Tx S K E α) (f : α → Tx S K E β) :
    (Tx.read next >>= f) = .read fun s => next s >>= f := rfl

@[simp] theorem write_bind (w : S → S) (next : Tx S K E α) (f : α → Tx S K E β) :
    (Tx.write w next >>= f) = .write w (next >>= f) := rfl

theorem bind_pure (x : Tx S K E α) : (x >>= fun a => pure a) = x := by
  induction x with
  | ret a => rfl
  | raise e => rfl
  | lock k next ih => exact congrArg (Tx.lock k) (funext ih)
  | read next ih => exact congrArg Tx.read (funext ih)
  | write w next ih => exact congrArg (Tx.write w) ih

theorem bind_assoc {γ : Type} (x : Tx S K E α) (f : α → Tx S K E β) (g : β → Tx S K E γ) :
    (x >>= f >>= g) = x >>= fun a => f a >>= g := by
  induction x with
  | ret a => rfl
  | raise e => rfl
  | lock k next ih => exact congrArg (Tx.lock k) (funext ih)
  | read next ih => exact congrArg Tx.read (funext ih)
  | write w next ih => exact congrArg (Tx.write w) ih

end Tx

/-- What a store knows of itself: which rows there are to lock, and whether a
state meets its constraints. -/
structure Engine (S K : Type) where
  present : S → K → Bool
  valid : S → Bool

/-- A call under way: the rest of its transaction, and its own changes so far. -/
structure Running (S K E Call α : Type) where
  call : Call
  rest : Tx S K E α
  own : S → S

/-- A committed call: its answer, the state it found and the state it left. -/
structure Committed (S Call α : Type) where
  call : Call
  answer : α
  found : S
  left : S

/-- The store, the locks, the transactions under way, and the history. -/
structure Machine (S K E Call α I : Type) where
  db : S
  holder : K → Option I
  running : I → Option (Running S K E Call α)
  log : List (Committed S Call α)

inductive Action (Call I : Type) where
  | begin_ (i : I) (call : Call)
  | advance (i : I)
  | commit (i : I)
  | rollback (i : I)

def Action.actor {Call I : Type} : Action Call I → I
  | .begin_ i _ | .advance i | .commit i | .rollback i => i

/-- The action under another name. -/
def Action.rename {Call I J : Type} (f : I → J) : Action Call I → Action Call J
  | .begin_ i call => .begin_ (f i) call
  | .advance i => .advance (f i)
  | .commit i => .commit (f i)
  | .rollback i => .rollback (f i)

@[simp] theorem Action.actor_rename {Call I J : Type} (f : I → J) (a : Action Call I) :
    (a.rename f).actor = f a.actor := by cases a <;> rfl

namespace Machine
variable {S K E Call α I : Type} [DecidableEq I]

/-- A store with nothing under way. -/
def start (db : S) : Machine S K E Call α I := ⟨db, fun _ => none, fun _ => none, []⟩

/-- A transaction goes on with `rest`. -/
def resume (m : Machine S K E Call α I) (i : I) (r : Running S K E Call α) :
    Machine S K E Call α I :=
  { m with running := Function.update m.running i (some r) }

/-- A transaction ends, and its locks with it. -/
def finish (m : Machine S K E Call α I) (i : I) : Machine S K E Call α I :=
  { m with
    running := Function.update m.running i none
    holder := fun k => if m.holder k = some i then none else m.holder k }

section Accessors
variable (m : Machine S K E Call α I) (i : I) (r : Running S K E Call α)

@[simp] theorem resume_db : (m.resume i r).db = m.db := rfl

@[simp] theorem resume_holder : (m.resume i r).holder = m.holder := rfl

@[simp] theorem resume_self : (m.resume i r).running i = some r := Function.update_self ..

theorem resume_of_ne {j : I} (h : j ≠ i) : (m.resume i r).running j = m.running j :=
  Function.update_of_ne h _ _

@[simp] theorem finish_db : (m.finish i).db = m.db := rfl

@[simp] theorem finish_self : (m.finish i).running i = none := Function.update_self ..

theorem finish_of_ne {j : I} (h : j ≠ i) : (m.finish i).running j = m.running j :=
  Function.update_of_ne h _ _

/-- The locks that are left when a transaction ends are those of the others. -/
theorem finish_holder {k : K} {j : I} :
    (m.finish i).holder k = some j ↔ m.holder k = some j ∧ j ≠ i := by
  simp only [finish]
  split
  · rename_i hk
    simp [hk, eq_comm]
  · rename_i hk
    exact ⟨fun h => ⟨h, fun hji => hk (hji ▸ h)⟩, fun h => h.1⟩

end Accessors

section Steps
variable [DecidableEq K] (engine : Engine S K) (program : Call → Tx S K E α)

/-- One step, or none where the action is not possible: a lock another
transaction holds is waited for. -/
def step (m : Machine S K E Call α I) : Action Call I → Option (Machine S K E Call α I)
  | .begin_ i call =>
    match m.running i with
    | none => some (m.resume i ⟨call, program call, id⟩)
    | some _ => none
  | .advance i =>
    match m.running i with
    | some ⟨call, .read next, own⟩ => some (m.resume i ⟨call, next (own m.db), own⟩)
    | some ⟨call, .write w next, own⟩ => some (m.resume i ⟨call, next, w ∘ own⟩)
    | some ⟨call, .lock k next, own⟩ =>
      if m.holder k = none ∨ m.holder k = some i then
        let m' := m.resume i ⟨call, next (own m.db), own⟩
        some (if engine.present (own m.db) k
          then { m' with holder := Function.update m.holder k (some i) } else m')
      else none
    | _ => none
  | .commit i =>
    match m.running i with
    | some ⟨call, .ret a, own⟩ =>
      if engine.valid (own m.db) then
        some { m.finish i with db := own m.db, log := ⟨call, a, m.db, own m.db⟩ :: m.log }
      else none
    | _ => none
  | .rollback i => some (m.finish i)

/-- The steps of a list of actions. -/
def steps : List (Action Call I) → Machine S K E Call α I → Option (Machine S K E Call α I)
  | [], m => some m
  | a :: rest, m => (m.step engine program a).bind (steps rest)

end Steps

/-- `i` waits for a row that `j` holds. -/
def WaitsFor (m : Machine S K E Call α I) (i j : I) : Prop :=
  i ≠ j ∧ ∃ call k next own, m.running i = some ⟨call, .lock k next, own⟩ ∧ m.holder k = some j

/-- The row whose lock is the next statement of a transaction. -/
def requested (m : Machine S K E Call α I) (i : I) : Option K :=
  match m.running i with
  | some ⟨_, .lock k _, _⟩ => some k
  | _ => none

omit [DecidableEq I] in
theorem requested_eq_some {m : Machine S K E Call α I} {i : I} {k : K} :
    m.requested i = some k ↔ ∃ call next own, m.running i = some ⟨call, .lock k next, own⟩ := by
  constructor
  · intro h
    rw [requested] at h
    split at h
    · rename_i call k' next own hr
      obtain rfl := Option.some.inj h
      exact ⟨call, next, own, hr⟩
    · cases h
  · rintro ⟨call, next, own, hr⟩
    rw [requested, hr]

omit [DecidableEq I] in
/-- A transaction waits for another one if it requests a row that the other holds. -/
theorem waitsFor_of_requested {m : Machine S K E Call α I} {i j : I} {k : K} (hne : i ≠ j)
    (hk : m.requested i = some k) (hheld : m.holder k = some j) : m.WaitsFor i j := by
  obtain ⟨call, next, own, hr⟩ := requested_eq_some.mp hk
  exact ⟨hne, call, k, next, own, hr, hheld⟩

end Machine

section Runs
variable {S K E Call α I : Type} [DecidableEq K] [DecidableEq I]
  {engine : Engine S K} {program : Call → Tx S K E α}

/-- **What a step can do**, one case for each kind of statement and of end. -/
theorem Machine.step_cases {m m' : Machine S K E Call α I} {a : Action Call I}
    (h : m.step engine program a = some m') :
    (∃ i call, m.running i = none ∧ m' = m.resume i ⟨call, program call, id⟩) ∨
    (∃ i call next own, m.running i = some ⟨call, .read next, own⟩ ∧
      m' = m.resume i ⟨call, next (own m.db), own⟩) ∨
    (∃ i call w next own, m.running i = some ⟨call, .write w next, own⟩ ∧
      m' = m.resume i ⟨call, next, w ∘ own⟩) ∨
    (∃ i call k next own, m.running i = some ⟨call, .lock k next, own⟩ ∧
      (m.holder k = none ∨ m.holder k = some i) ∧ engine.present (own m.db) k = true ∧
      m' = { m.resume i ⟨call, next (own m.db), own⟩ with
        holder := Function.update m.holder k (some i) }) ∨
    (∃ i call k next own, m.running i = some ⟨call, .lock k next, own⟩ ∧
      engine.present (own m.db) k = false ∧ m' = m.resume i ⟨call, next (own m.db), own⟩) ∨
    (∃ i call answer own, m.running i = some ⟨call, .ret answer, own⟩ ∧
      engine.valid (own m.db) = true ∧
      m' = { m.finish i with db := own m.db, log := ⟨call, answer, m.db, own m.db⟩ :: m.log }) ∨
    (∃ i, m' = m.finish i) := by
  cases a with
  | begin_ i call =>
    simp only [Machine.step] at h
    split at h
    · exact .inl ⟨i, call, ‹_›, (Option.some.inj h).symm⟩
    · cases h
  | advance i =>
    simp only [Machine.step] at h
    split at h
    · exact .inr (.inl ⟨i, _, _, _, ‹_›, (Option.some.inj h).symm⟩)
    · exact .inr (.inr (.inl ⟨i, _, _, _, _, ‹_›, (Option.some.inj h).symm⟩))
    · rename_i call k next own hr
      -- a row that another transaction holds makes this one wait
      by_cases hfree : m.holder k = none ∨ m.holder k = some i
      · rw [if_pos hfree] at h
        cases hp : engine.present (own m.db) k with
        | true =>
          simp only [hp, if_true] at h
          exact .inr (.inr (.inr (.inl
            ⟨i, call, k, next, own, hr, hfree, hp, (Option.some.inj h).symm⟩)))
        | false =>
          simp only [hp, Bool.false_eq_true, if_false] at h
          exact .inr (.inr (.inr (.inr (.inl
            ⟨i, call, k, next, own, hr, hp, (Option.some.inj h).symm⟩))))
      · rw [if_neg hfree] at h
        cases h
    · cases h
  | commit i =>
    simp only [Machine.step] at h
    split at h
    · rename_i call answer own hr
      -- a commit that violates a constraint is no step
      by_cases hv : engine.valid (own m.db) = true
      · rw [if_pos hv] at h
        exact .inr (.inr (.inr (.inr (.inr (.inl
          ⟨i, call, answer, own, hr, hv, (Option.some.inj h).symm⟩)))))
      · rw [if_neg hv] at h
        cases h
    · cases h
  | rollback i => exact .inr (.inr (.inr (.inr (.inr (.inr ⟨i, (Option.some.inj h).symm⟩)))))

/-- A commit applies the changes of its transaction, if they are valid, and is written into
the log. -/
theorem Machine.step_commit {m m' : Machine S K E Call α I} {i : I}
    (h : m.step engine program (.commit i) = some m') :
    ∃ call answer own, m.running i = some ⟨call, .ret answer, own⟩ ∧
      engine.valid (own m.db) = true ∧ m'.db = own m.db ∧
      m'.log = ⟨call, answer, m.db, own m.db⟩ :: m.log := by
  simp only [Machine.step] at h
  split at h
  · rename_i call answer own hr
    by_cases hv : engine.valid (own m.db) = true
    · rw [if_pos hv] at h
      cases h
      exact ⟨call, answer, own, hr, hv, rfl, rfl⟩
    · rw [if_neg hv] at h
      cases h
  · cases h

/-- Only a commit changes the store, and every commit is in the log. -/
theorem Machine.step_db {m m' : Machine S K E Call α I} {a : Action Call I}
    (h : m.step engine program a = some m') :
    (m'.db = m.db ∧ m'.log = m.log) ∨
      ∃ i call answer own, a = .commit i ∧ m.running i = some ⟨call, .ret answer, own⟩ ∧
        engine.valid (own m.db) = true ∧ m'.db = own m.db ∧
        m'.log = ⟨call, answer, m.db, own m.db⟩ :: m.log := by
  cases a with
  | commit i =>
    obtain ⟨call, answer, own, hcommit⟩ := Machine.step_commit h
    exact .inr ⟨i, call, answer, own, rfl, hcommit⟩
  | begin_ i call =>
    left
    simp only [Machine.step] at h
    split at h
    · cases h
      exact ⟨rfl, rfl⟩
    · cases h
  | advance i =>
    left
    simp only [Machine.step] at h
    split at h
    · cases h
      exact ⟨rfl, rfl⟩
    · cases h
      exact ⟨rfl, rfl⟩
    · split at h
      · cases h
        split
        · exact ⟨rfl, rfl⟩
        · exact ⟨rfl, rfl⟩
      · cases h
    · cases h
  | rollback i =>
    cases h
    exact .inl ⟨rfl, rfl⟩

/-- A call that threw, or whose changes break a constraint. -/
def Running.Refused (engine : Engine S K) (db : S) (r : Running S K E Call α) : Prop :=
  (∃ e, r.rest = .raise e) ∨ ∃ answer, r.rest = .ret answer ∧ engine.valid (r.own db) = false

/-- A call that is refused can do nothing but end. -/
theorem Machine.step_refused {m m' : Machine S K E Call α I} {i : I}
    {r : Running S K E Call α} (hr : m.running i = some r) (href : r.Refused engine m.db)
    {a : Action Call I} (ha : a.actor = i) (h : m.step engine program a = some m') :
    m' = m.finish i := by
  obtain ⟨call, rest, own⟩ := r
  cases a with
  | rollback j =>
    obtain rfl : j = i := ha
    cases h
    rfl
  | begin_ j _ =>
    obtain rfl : j = i := ha
    simp [Machine.step, hr] at h
  | advance j =>
    obtain rfl : j = i := ha
    rcases href with ⟨e, he⟩ | ⟨answer, hanswer, -⟩
    · obtain rfl : rest = .raise e := he
      simp [Machine.step, hr] at h
    · obtain rfl : rest = .ret answer := hanswer
      simp [Machine.step, hr] at h
  | commit j =>
    obtain rfl : j = i := ha
    rcases href with ⟨e, he⟩ | ⟨answer, hanswer, hv⟩
    · obtain rfl : rest = .raise e := he
      simp [Machine.step, hr] at h
    · obtain rfl : rest = .ret answer := hanswer
      have hv : engine.valid (own m.db) = false := hv
      simp [Machine.step, hr, hv] at h

/-- A call that waits can do nothing but be rolled back. -/
theorem Machine.step_waiting {m m' : Machine S K E Call α I} {i j : I} (hw : m.WaitsFor i j)
    {a : Action Call I} (ha : a.actor = i) (h : m.step engine program a = some m') :
    a = .rollback i := by
  obtain ⟨hne, call, k, next, own, hr, hk⟩ := hw
  cases a with
  | rollback i' =>
    obtain rfl : i' = i := ha
    rfl
  | begin_ i' _ =>
    obtain rfl : i' = i := ha
    simp [Machine.step, hr] at h
  | commit i' =>
    obtain rfl : i' = i := ha
    simp [Machine.step, hr] at h
  | advance i' =>
    obtain rfl : i' = i := ha
    have hheld : ¬ (m.holder k = none ∨ m.holder k = some i') := by
      rw [hk]
      rintro (hnone | hself)
      · cases hnone
      · exact hne (Option.some.inj hself).symm
    simp [Machine.step, hr, hheld] at h

/-- What a step does to the transaction it is of: it begins, goes on with the same call, or ends. -/
def Machine.Turn (m m' : Machine S K E Call α I) : Action Call I → Prop
  | .begin_ i call => m.running i = none ∧ ∃ r, m'.running i = some r ∧ r.call = call
  | .advance i => ∃ r r', m.running i = some r ∧ m'.running i = some r' ∧ r'.call = r.call
  | .commit i | .rollback i => m'.running i = none

/-- A step leaves the other transactions where they were. -/
theorem Machine.step_running {m m' : Machine S K E Call α I} {a : Action Call I}
    (h : m.step engine program a = some m') :
    (∀ j, j ≠ a.actor → m'.running j = m.running j) ∧ m.Turn m' a := by
  cases a with
  | begin_ i call =>
    simp only [Machine.step] at h
    split at h
    · cases h
      exact ⟨fun j hj => m.resume_of_ne i _ hj, ‹_›, _, m.resume_self i _, rfl⟩
    · cases h
  | commit i =>
    simp only [Machine.step] at h
    split at h
    · split at h
      · cases h
        exact ⟨fun j hj => m.finish_of_ne i hj, m.finish_self i⟩
      · cases h
    · cases h
  | rollback i =>
    cases h
    exact ⟨fun j hj => m.finish_of_ne i hj, m.finish_self i⟩
  | advance i =>
    simp only [Machine.step] at h
    split at h
    · rename_i call next own hr
      cases h
      exact ⟨fun j hj => m.resume_of_ne i _ hj, _, _, hr, m.resume_self i _, rfl⟩
    · rename_i call w next own hr
      cases h
      exact ⟨fun j hj => m.resume_of_ne i _ hj, _, _, hr, m.resume_self i _, rfl⟩
    · rename_i call k next own hr
      split at h
      · cases h
        split
        · exact ⟨fun j hj => m.resume_of_ne i _ hj, _, _, hr, m.resume_self i _, rfl⟩
        · exact ⟨fun j hj => m.resume_of_ne i _ hj, _, _, hr, m.resume_self i _, rfl⟩
      · cases h
    · cases h

/-- The calls under way are calls that were begun. -/
theorem Machine.step_calls {C : I → Call → Prop} {m m' : Machine S K E Call α I}
    {a : Action Call I} (h : m.step engine program a = some m')
    (hm : ∀ i r, m.running i = some r → C i r.call) (ha : ∀ i call, a = .begin_ i call → C i call) :
    ∀ i r, m'.running i = some r → C i r.call := by
  intro j r' hr'
  obtain ⟨hother, hself⟩ := Machine.step_running h
  by_cases hj : j = a.actor
  · subst hj
    cases a with
    | begin_ i call =>
      obtain ⟨-, r, hr, hc⟩ := hself
      obtain rfl := Option.some.inj (hr'.symm.trans hr)
      exact hc ▸ ha i call rfl
    | advance i =>
      obtain ⟨r, r2, hr, hr2, hc⟩ := hself
      obtain rfl := Option.some.inj (hr'.symm.trans hr2)
      exact hc ▸ hm i r hr
    | commit i =>
      have hnone : m'.running i = none := hself
      rw [Action.actor, hnone] at hr'
      cases hr'
    | rollback i =>
      have hnone : m'.running i = none := hself
      rw [Action.actor, hnone] at hr'
      cases hr'
  · rw [hother j hj] at hr'
    exact hm j r' hr'

/-- A transaction under way before and after a step is of one call. -/
theorem Machine.step_call {m m' : Machine S K E Call α I} {a : Action Call I}
    (h : m.step engine program a = some m') {i : I} {r r' : Running S K E Call α}
    (hr : m.running i = some r) (hr' : m'.running i = some r') : r.call = r'.call := by
  obtain ⟨hothers, hturn⟩ := Machine.step_running h
  by_cases hi : i = a.actor
  · subst hi
    cases a with
    | begin_ j call =>
      rw [Action.actor, hturn.1] at hr
      cases hr
    | advance j =>
      obtain ⟨q, q', hq, hq', hcall⟩ := hturn
      obtain rfl := Option.some.inj (hr.symm.trans hq)
      obtain rfl := Option.some.inj (hr'.symm.trans hq')
      exact hcall.symm
    | commit j | rollback j =>
      have hnone : m'.running j = none := hturn
      rw [Action.actor, hnone] at hr'
      cases hr'
  · rw [hothers i hi, hr] at hr'
    exact congrArg Running.call (Option.some.inj hr')

/-- A run whose states all satisfy `P`. -/
inductive Run (engine : Engine S K) (program : Call → Tx S K E α)
    (P : Machine S K E Call α I → Prop) (m : Machine S K E Call α I) :
    Machine S K E Call α I → Prop
  | refl : P m → Run engine program P m m
  | step {m' m'' : Machine S K E Call α I} {a : Action Call I} : Run engine program P m m' →
      m'.step engine program a = some m'' → P m'' → Run engine program P m m''

theorem Run.last {P : Machine S K E Call α I → Prop} {m m' : Machine S K E Call α I}
    (h : Run engine program P m m') : P m' := by
  cases h with
  | refl hp => exact hp
  | step _ _ hp => exact hp

theorem Run.mono {P Q : Machine S K E Call α I → Prop} (hpq : ∀ m, P m → Q m)
    {m m' : Machine S K E Call α I} (h : Run engine program P m m') :
    Run engine program Q m m' := by
  induction h with
  | refl hp => exact .refl (hpq _ hp)
  | step _ hs hp ih => exact ih.step hs (hpq _ hp)

/-- The states of a run, newest first. -/
inductive Trace (engine : Engine S K) (program : Call → Tx S K E α)
    (first : Machine S K E Call α I) : List (Machine S K E Call α I) → Prop
  | start : Trace engine program first [first]
  | step {m m' : Machine S K E Call α I} {past : List (Machine S K E Call α I)}
      {a : Action Call I} : Trace engine program first (m :: past) →
      m.step engine program a = some m' → Trace engine program first (m' :: m :: past)

/-- The states since the transaction of a name began. -/
def since (i : I) (states : List (Machine S K E Call α I)) : List (Machine S K E Call α I) :=
  states.takeWhile fun m => (m.running i).isSome

omit [DecidableEq K] [DecidableEq I] in
/-- The states since a transaction began hold the one it is in. -/
theorem mem_since {m : Machine S K E Call α I} {past : List (Machine S K E Call α I)} {i : I}
    {r : Running S K E Call α} (hr : m.running i = some r) : m ∈ since i (m :: past) := by
  rw [since, List.takeWhile_cons, hr]
  exact List.mem_cons_self

omit [DecidableEq K] [DecidableEq I] in
/-- The states since a transaction began hold the ones it was in before. -/
theorem mem_since_cons {m m1 : Machine S K E Call α I} {past : List (Machine S K E Call α I)}
    {i : I} {r : Running S K E Call α} (hr : m.running i = some r) (h : m1 ∈ since i past) :
    m1 ∈ since i (m :: past) := by
  rw [since, List.takeWhile_cons, hr]
  exact List.mem_cons_of_mem _ h

/-- The last state of a list of actions, and those before it. -/
def Machine.traceFrom (engine : Engine S K) (program : Call → Tx S K E α)
    (m : Machine S K E Call α I) (past : List (Machine S K E Call α I)) :
    List (Action Call I) → Option (Machine S K E Call α I × List (Machine S K E Call α I))
  | [] => some (m, past)
  | a :: rest =>
    (m.step engine program a).bind fun m' => m'.traceFrom engine program (m :: past) rest

/-- A trace that is computed satisfies what the computation says of it. -/
theorem Trace.of_eval {first m : Machine S K E Call α I} {past : List (Machine S K E Call α I)}
    {actions : List (Action Call I)}
    {check : Machine S K E Call α I × List (Machine S K E Call α I) → Bool}
    (htrace : Trace engine program first (m :: past))
    (h : (m.traceFrom engine program past actions).any check = true) :
    ∃ m' past', Trace engine program first (m' :: past') ∧ check (m', past') = true := by
  induction actions generalizing m past with
  | nil => exact ⟨m, past, htrace, h⟩
  | cons a rest ih =>
    obtain ⟨last, hlast, hcheck⟩ := (Option.any_eq_true _ _).mp h
    obtain ⟨m', hs, hrest⟩ := Option.bind_eq_some_iff.mp hlast
    exact ih (.step htrace hs) ((Option.any_eq_true _ _).mpr ⟨last, hrest, hcheck⟩)

/-- A list of actions that can all be taken is a run. -/
theorem Run.of_steps {m m' m'' : Machine S K E Call α I} {actions : List (Action Call I)}
    (hr : Run engine program (fun _ => True) m m')
    (h : m'.steps engine program actions = some m'') :
    Run engine program (fun _ => True) m m'' := by
  induction actions generalizing m' with
  | nil => cases h; exact hr
  | cons a rest ih =>
    obtain ⟨mid, hs, hrest⟩ := Option.bind_eq_some_iff.mp h
    exact ih (hr.step hs trivial) hrest

/-- A run that is computed satisfies what the computation says of its end. -/
theorem Run.of_eval {m : Machine S K E Call α I} {actions : List (Action Call I)}
    {check : Machine S K E Call α I → Bool}
    (h : (m.steps engine program actions).any check = true) :
    ∃ m', m.steps engine program actions = some m' ∧
      Run engine program (fun _ => True) m m' ∧ check m' = true := by
  cases hs : m.steps engine program actions with
  | none =>
    rw [hs] at h
    cases h
  | some m' =>
    rw [hs] at h
    exact ⟨m', rfl, Run.of_steps (.refl trivial) hs, h⟩

section AtMostOne
variable {β : Type} {R : β → β → Prop} {l : List β} {p : β → Bool}

/-- A list has one element of a kind at most, if two of them cannot follow each other. -/
theorem atMostOne_of_pairwise (h : l.Pairwise R)
    (hp : ∀ a ∈ l, ∀ b ∈ l, p a = true → p b = true → ¬ R a b) : (l.filter p).length ≤ 1 := by
  have hfilter := h.sublist (List.filter_sublist (p := p))
  match hm : l.filter p with
  | [] => exact Nat.zero_le _
  | [_] => exact Nat.le_refl _
  | a :: b :: rest =>
    exfalso
    have ha : a ∈ l.filter p := hm ▸ List.mem_cons_self
    have hb : b ∈ l.filter p := hm ▸ List.mem_cons_of_mem _ List.mem_cons_self
    obtain ⟨ha, hpa⟩ := List.mem_filter.mp ha
    obtain ⟨hb, hpb⟩ := List.mem_filter.mp hb
    rw [hm, List.pairwise_cons] at hfilter
    exact hp a ha b hb hpa hpb (hfilter.1 b List.mem_cons_self)

/-- An element of a kind of which there is one at most is all that the filter leaves. -/
theorem filter_eq_singleton (h : (l.filter p).length ≤ 1) {a : β} (ha : a ∈ l)
    (hp : p a = true) : l.filter p = [a] := by
  have hmem : a ∈ l.filter p := List.mem_filter.mpr ⟨ha, hp⟩
  match hm : l.filter p with
  | [] =>
    rw [hm] at hmem
    cases hmem
  | [b] =>
    rw [hm] at hmem
    rw [List.mem_singleton.mp hmem]
  | _ :: _ :: _ =>
    rw [hm] at h
    simp at h

end AtMostOne

/-- The commits of a run, newest first, each found what the one before it left. -/
def Linked (first : S) : List (Committed S Call α) → S → Prop
  | [], db => db = first
  | e :: rest, db => e.left = db ∧ Linked first rest e.found

theorem Run.linked {P : Machine S K E Call α I → Prop} {db : S} {m : Machine S K E Call α I}
    (h : Run engine program P (.start db) m) : Linked db m.log m.db := by
  induction h with
  | refl _ => exact rfl
  | step _ hs _ ih =>
    obtain ⟨i, call, -, rfl⟩ | ⟨i, call, next, own, -, rfl⟩ | ⟨i, call, w, next, own, -, rfl⟩ |
      ⟨i, call, k, next, own, -, -, -, rfl⟩ | ⟨i, call, k, next, own, -, -, rfl⟩ |
      ⟨i, call, answer, own, -, -, rfl⟩ | ⟨i, rfl⟩ := Machine.step_cases hs
    all_goals first | exact ih | exact ⟨rfl, ih⟩

/-- The committed states of a run, newest first. -/
def Machine.states (m : Machine S K E Call α I) : List S := m.db :: m.log.map (·.found)

section Linked
variable {first db : S} {log : List (Committed S Call α)}

/-- A run of commits can be cut into two. -/
theorem Linked.split {recent earlier : List (Committed S Call α)}
    (h : Linked first (recent ++ earlier) db) :
    ∃ mid, Linked mid recent db ∧ Linked first earlier mid := by
  induction recent generalizing db with
  | nil => exact ⟨db, rfl, h⟩
  | cons e rest ih =>
    obtain ⟨hleft, hrest⟩ := h
    obtain ⟨mid, hmid, hearlier⟩ := ih hrest
    exact ⟨mid, ⟨hleft, hmid⟩, hearlier⟩

/-- **What every commit keeps** holds in every committed state. -/
theorem Linked.invariant {P : S → Prop} (h : Linked first log db) (hfirst : P first)
    (hstep : ∀ e ∈ log, P e.found → P e.left) : ∀ s ∈ db :: log.map (·.found), P s := by
  induction log generalizing db with
  | nil =>
    intro s hs
    obtain rfl := List.mem_singleton.mp hs
    exact (show s = first from h) ▸ hfirst
  | cons e rest ih =>
    obtain ⟨rfl, hrest⟩ := h
    have ih := ih hrest fun e' he' => hstep e' (List.mem_cons_of_mem _ he')
    intro s hs
    rcases List.mem_cons.mp hs with rfl | hs
    · exact hstep e List.mem_cons_self (ih e.found List.mem_cons_self)
    · exact ih s hs

/-- What a commit left is a committed state. -/
theorem Linked.left_mem (h : Linked first log db) {e : Committed S Call α} (he : e ∈ log) :
    e.left ∈ db :: log.map (·.found) := by
  induction log generalizing db with
  | nil => cases he
  | cons e' rest ih =>
    obtain ⟨rfl, hrest⟩ := h
    rcases List.mem_cons.mp he with rfl | he
    · exact List.mem_cons_self
    · exact List.mem_cons_of_mem _ (ih hrest he)

variable {R : S → S → Prop} (htrans : ∀ a b c, R a b → R b c → R a c)
  (hlog : ∀ e ∈ log, R e.found e.left)
include htrans hlog

/-- What every commit keeps, and carries over from commit to commit, relates any two
committed states. -/
theorem Linked.pairwise (h : Linked first log db) :
    (db :: log.map (·.found)).Pairwise fun later earlier => R earlier later := by
  induction log generalizing db with
  | nil => exact List.pairwise_singleton _ _
  | cons e rest ih =>
    obtain ⟨rfl, hrest⟩ := h
    have ih := ih (fun e' he' => hlog e' (List.mem_cons_of_mem _ he')) hrest
    have hstep := hlog e List.mem_cons_self
    refine List.pairwise_cons.mpr ⟨fun s hs => ?_, ih⟩
    rcases List.mem_cons.mp hs with rfl | hs
    · exact hstep
    · exact htrans _ _ _ ((List.pairwise_cons.mp ih).1 s hs) hstep

/-- What every commit keeps, and carries over, relates what one commit left and a later one
found. -/
theorem Linked.entries (hrefl : ∀ e ∈ log, R e.left e.left) (h : Linked first log db) :
    log.Pairwise fun later earlier => R earlier.left later.found := by
  have hlater : ∀ {log : List (Committed S Call α)} {db : S},
      (∀ e ∈ log, R e.found e.left) → (∀ e ∈ log, R e.left e.left) → Linked first log db →
      ∀ e ∈ log, R e.left db := by
    intro log
    induction log with
    | nil => intro _ _ _ _ e he; cases he
    | cons e' rest ih =>
      rintro db hlog hrefl ⟨rfl, hrest⟩ e he
      rcases List.mem_cons.mp he with rfl | he
      · exact hrefl _ List.mem_cons_self
      · exact htrans _ _ _ (ih (fun e he => hlog e (List.mem_cons_of_mem _ he))
          (fun e he => hrefl e (List.mem_cons_of_mem _ he)) hrest e he) (hlog e' List.mem_cons_self)
  induction log generalizing db with
  | nil => exact List.Pairwise.nil
  | cons e rest ih =>
    obtain ⟨rfl, hrest⟩ := h
    have hlog' : ∀ e ∈ rest, R e.found e.left := fun e' he' =>
      hlog e' (List.mem_cons_of_mem _ he')
    have hrefl' : ∀ e ∈ rest, R e.left e.left := fun e' he' =>
      hrefl e' (List.mem_cons_of_mem _ he')
    exact List.pairwise_cons.mpr
      ⟨hlater hlog' hrefl' hrest, ih hlog' hrefl' hrest⟩

end Linked

end Runs
end RowLocks
