import Mathlib.Data.List.Basic
import Mathlib.Data.Nat.Find

/-! # A loop of jobs and events

A single thread performs jobs in the order in which they were queued, one at a time, and each
may queue more.  Between two jobs anything may happen: an event changes the state and queues
jobs of its own.  An invariant is kept by every job and every event (`invariant`); where the
queue is not neglected, each job in it has its turn (`performed`).
-/
namespace EventLoop
variable {S J E : Type}

/-- What jobs and events do: the new state, and the jobs they queue. -/
structure Program (S J E : Type) where
  perform : J → S → S × List J
  happen : E → S → S × List J

structure Config (S J : Type) where
  state : S
  jobs : List J

inductive Turn (E : Type) where
  | job
  | event (e : E)

section Steps
variable (p : Program S J E)

def step (c : Config S J) : Turn E → Config S J
  | .job =>
    match c.jobs with
    | [] => c
    | j :: rest => ⟨(p.perform j c.state).1, rest ++ (p.perform j c.state).2⟩
  | .event e => ⟨(p.happen e c.state).1, c.jobs ++ (p.happen e c.state).2⟩

/-- The configuration before turn `n`. -/
def config (first : Config S J) (turns : Nat → Turn E) : Nat → Config S J
  | 0 => first
  | n + 1 => step p (config first turns n) (turns n)

/-- The queue is never neglected for good: after any turn one comes that performs a job, if
there is one. -/
def Served (first : Config S J) (turns : Nat → Turn E) : Prop :=
  ∀ n, (config p first turns n).jobs ≠ [] → ∃ m, n ≤ m ∧ turns m = .job

variable {p} {first : Config S J} {turns : Nat → Turn E}

/-- **An invariant** is kept by every job in the queue and by every event. -/
theorem invariant {I : Config S J → Prop} (hfirst : I first)
    (hjob : ∀ s j rest, I ⟨s, j :: rest⟩ → I ⟨(p.perform j s).1, rest ++ (p.perform j s).2⟩)
    (hevent : ∀ c e, I c → I (step p c (.event e))) (n : Nat) : I (config p first turns n) := by
  induction n with
  | zero => exact hfirst
  | succ n ih =>
    rw [config]
    cases turns n with
    | event e => exact hevent _ e ih
    | job =>
      generalize config p first turns n = c at ih
      obtain ⟨s, jobs⟩ := c
      cases jobs with
      | nil => exact ih
      | cons j rest => exact hjob s j rest ih

/-- **What every turn respects** relates any two moments, if it can be put together. -/
theorem related {R : S → S → Prop} (hrefl : ∀ s, R s s)
    (htrans : ∀ {a b c}, R a b → R b c → R a c) (hjob : ∀ j s, R s (p.perform j s).1)
    (hevent : ∀ e s, R s (p.happen e s).1) {n m : Nat} (hnm : n ≤ m) :
    R (config p first turns n).state (config p first turns m).state := by
  induction hnm with
  | refl => exact hrefl _
  | @step m _ ih =>
    refine htrans ih ?_
    rw [config]
    cases turns m with
    | event e => exact hevent e _
    | job =>
      generalize config p first turns m = c
      obtain ⟨s, jobs⟩ := c
      cases jobs with
      | nil => exact hrefl s
      | cons j rest => exact hjob j s

theorem config_job {n : Nat} {j : J} {rest : List J} (hturn : turns n = .job)
    (hjobs : (config p first turns n).jobs = j :: rest) :
    (config p first turns (n + 1)).state = (p.perform j (config p first turns n).state).1 := by
  rw [config, hturn, step, hjobs]

theorem config_event {n : Nat} {e : E} (hturn : turns n = .event e) :
    (config p first turns (n + 1)).state = (p.happen e (config p first turns n).state).1 := by
  rw [config, hturn, step]

/-- Events only add to the queue. -/
theorem jobs_until {n m : Nat} (hnm : n ≤ m) (h : ∀ k, n ≤ k → k < m → turns k ≠ .job) :
    ∃ more, (config p first turns m).jobs = (config p first turns n).jobs ++ more := by
  induction hnm with
  | refl => exact ⟨[], by simp⟩
  | @step m hnm ih =>
    obtain ⟨more, hmore⟩ := ih fun k hk hkm => h k hk (Nat.lt_succ_of_lt hkm)
    cases hturn : turns m with
    | job => exact absurd hturn (h m hnm (Nat.lt_succ_self m))
    | event e =>
      refine ⟨more ++ (p.happen e (config p first turns m).state).2, ?_⟩
      rw [config, hturn, step, hmore, List.append_assoc]

/-- The next turn of a job takes the one that is first now. -/
theorem next_job (hserved : Served p first turns) {n : Nat}
    (hqueue : (config p first turns n).jobs ≠ []) :
    ∃ m, n ≤ m ∧ turns m = .job ∧
      ∃ more, (config p first turns m).jobs = (config p first turns n).jobs ++ more := by
  classical
  have hnext := hserved n hqueue
  obtain ⟨hle, hturn⟩ := Nat.find_spec hnext
  exact ⟨Nat.find hnext, hle, hturn, jobs_until hle fun k hk hkm hjob =>
    Nat.find_min hnext hkm ⟨hk, hjob⟩⟩

/-- **Each job in the queue has its turn.** -/
theorem performed (hserved : Served p first turns) {n : Nat} {j : J}
    (hj : j ∈ (config p first turns n).jobs) :
    ∃ m, n ≤ m ∧ turns m = .job ∧ ∃ rest, (config p first turns m).jobs = j :: rest := by
  obtain ⟨front, back, hqueue⟩ := List.append_of_mem hj
  -- induction on what stands before the job
  induction front generalizing n back with
  | nil =>
    obtain ⟨m, hle, hturn, more, hmore⟩ := next_job hserved (List.ne_nil_of_mem hj)
    exact ⟨m, hle, hturn, back ++ more, by rw [hmore, hqueue]; rfl⟩
  | cons i front ih =>
    obtain ⟨m, hle, hturn, more, hmore⟩ := next_job hserved (List.ne_nil_of_mem hj)
    have hafter : (config p first turns (m + 1)).jobs =
        front ++ j :: (back ++ more ++ (p.perform i (config p first turns m).state).2) := by
      rw [config, hturn, step, hmore, hqueue]
      simp
    obtain ⟨m', hle', hturn', hhead⟩ := ih (by simp [hafter]) _ hafter
    exact ⟨m', by omega, hturn', hhead⟩

end Steps
end EventLoop
